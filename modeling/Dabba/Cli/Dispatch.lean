import Dabba.Cli.Arguments

/-!
# Commands and their handlers

A command line is a command, an action of the command, and the options of the action. Each
level has a table of its own, and the handler that is found gets what stands behind the
word it was found with.
-/

namespace Cli

open Posix

/-- A command and its handler. The handler gets the command itself, which stands in front
of its arguments, and the arguments. -/
structure CmdStruct (β : Type) where
  cmd : String
  fn : List Byte → List (List Byte) → β

section Dispatch

variable {β : Type}

/-- The handlers that are not described here. -/
structure Handlers (β : Type) where
  cmdHelp : List (List Byte) → β
  helpUnknownCmd : List Byte → β
  other : String → List Byte → List (List Byte) → β

variable (handlers : Handlers β)

/-- Runs the handler of the command that the first word names. What is done about the
standard output behind a handler that succeeds is left out. -/
def cmdRunAction (cmd : List (CmdStruct β)) : List (List Byte) → β
  | [] => handlers.cmdHelp []
  | word :: argv =>
      match cmd.find? fun c => text c.cmd = word with
      | some c => c.fn word argv
      | none => handlers.helpUnknownCmd word

/-- As `cmdRunAction`, after the words that ask for help or for the version became commands. -/
def cmdRunCommand (cmd : List (CmdStruct β)) (argv : List (List Byte)) : β :=
  let word :=
    match argv.head? with
    | none => text "help"
    | some word => if word = text "--help" then text "help" else word
  let word := if word = text "--version" then text "version" else word
  match argv.tail with
  | [] => cmdRunAction handlers cmd [word]
  | arg :: argv =>
      if arg = text "--help" then cmdRunAction handlers cmd (text "help" :: word :: argv)
      else cmdRunAction handlers cmd (word :: arg :: argv)

theorem cmdRunCommand_of_find? (cmd : List (CmdStruct β)) (c : CmdStruct β)
    {word : List Byte} (hfind : cmd.find? (fun c => text c.cmd = word) = some c)
    (hword : word ≠ text "--help" ∧ word ≠ text "--version") {argv : List (List Byte)}
    (hargv : argv.head? ≠ some (text "--help")) :
    cmdRunCommand handlers cmd (word :: argv) = c.fn word argv := by
  have haction : ∀ argv, cmdRunAction handlers cmd (word :: argv) = c.fn word argv := by
    intro argv
    rw [cmdRunAction, hfind]
  unfold cmdRunCommand
  simp only [List.head?_cons, List.tail_cons, if_neg hword.1, if_neg hword.2]
  cases argv with
  | nil => exact haction []
  | cons arg argv =>
      dsimp only
      rw [if_neg fun h => hargv (congrArg some h)]
      exact haction (arg :: argv)

theorem cmdRunCommand_action (cmd cmd' : List (CmdStruct β)) (c c' : CmdStruct β)
    {word action : List Byte} (hfind : cmd.find? (fun c => text c.cmd = word) = some c)
    (hfind' : cmd'.find? (fun c => text c.cmd = action) = some c')
    (hword : word ≠ text "--help" ∧ word ≠ text "--version")
    (haction : action ≠ text "--help" ∧ action ≠ text "--version")
    (hfn : ∀ argv, c.fn word argv = cmdRunCommand handlers cmd' argv)
    {argv : List (List Byte)} (hargv : argv.head? ≠ some (text "--help")) :
    cmdRunCommand handlers cmd (word :: action :: argv) = c'.fn action argv := by
  have hhelp : (action :: argv).head? ≠ some (text "--help") :=
    fun h => haction.1 (Option.some.inj h)
  rw [cmdRunCommand_of_find? handlers cmd c hfind hword hhelp, hfn,
    cmdRunCommand_of_find? handlers cmd' c' hfind' haction hargv]

end Dispatch

end Cli
