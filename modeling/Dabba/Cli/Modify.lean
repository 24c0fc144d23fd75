import Dabba.Cli.Getopt
import Dabba.Posix.File

/-!
# Commands that modify an interface

The commands that modify something of an interface go over their options and put the value
of each into a field of the request. They differ in the fields and in the texts that are
values of them; the interface, the server and the errors are the same for all. The first
option that is refused ends the command, and then nothing is sent; otherwise the last value
given for a field is the one that is sent.
-/

namespace Cli

open Posix Stdio Last

/-- What an option of the command is for. -/
inductive ModifyOption (P : Type)
  | setting (p : P)
  | interfaceId
  | tcp
  | localServer
  | help

/-- What the options have said so far. -/
structure ModifyState (M : Type) where
  message : M
  id : Option (List Byte)
  serverType : AddressType
  serverId : List Byte

/-- A command that modifies something of an interface: its option table, the fields that
have a case in the switch, the request without any field, and what the switch does with the
text of a field. Each text sets its own field, to the value that it stands for, or is
refused. -/
structure ModifyCommand (P V M : Type) [DecidableEq P] where
  options : List (LongOption (ModifyOption P))
  handles : P → Bool := fun _ => true
  init : M
  set : M → P → List Byte → Option M
  value : P → List Byte → Option V
  field : M → P → Option V
  field_init : ∀ p, field init p = none
  set_eq_none : ∀ {m p str}, set m p str = none → value p str = none
  field_set : ∀ {m m' p str}, set m p str = some m' →
    (value p str).isSome ∧ ∀ q, field m' q = (if p = q then value p str else none).or (field m q)

namespace ModifyCommand

/-- An answer of `getopt_long_only`: the code, if it is not a question mark, and the
argument. -/
abbrev Answer (P : Type) := Option (ModifyOption P) × Option (List Byte)

section Command

variable {P V M : Type} [DecidableEq P] (cmd : ModifyCommand P V M)

/-- The switch over the code of an option. `malloc` tells whether the interface id could be
allocated; an error is the code that the command returns, and minus one goes with the usage
message. A required argument is never null. -/
def switch (malloc : Bool) (s : ModifyState M) : Answer P → Except ℤ (ModifyState M)
  | (some .tcp, optarg) =>
      .ok { s with serverType := .tcp, serverId := optarg.getD defaultTcpServerName }
  | (some .localServer, optarg) =>
      .ok { s with
        serverType := .localSocket, serverId := optarg.getD defaultLocalServerName }
  | (some .interfaceId, optarg) =>
      if malloc = false then .error enomem else .ok { s with id := some (optarg.getD []) }
  | (some (.setting p), optarg) =>
      if cmd.handles p = false then .error (-1)
      else
        match cmd.set s.message p (optarg.getD []) with
        | none => .error einval
        | some m => .ok { s with message := m }
  | _ => .error (-1)

/-- The loop over the answers; `malloc n` is about the allocation that answer `n` may ask
for. -/
def loop (malloc : ℕ → Bool) : ℕ → List (Answer P) → ModifyState M →
    Except ℤ (ModifyState M)
  | _, [], s => .ok s
  | n, answer :: answers, s =>
      match cmd.switch (malloc n) s answer with
      | .error rc => .error rc
      | .ok s => loop malloc (n + 1) answers s

/-- The code that the command returns, and what it sends, if it sends something. `connect`
tells whether a server can be reached. -/
def run (malloc : ℕ → Bool) (connect : AddressType → List Byte → Bool)
    (argv : List (List Byte)) : ℤ × Option (ModifyState M) :=
  match cmd.loop malloc 0 (getoptAll cmd.options argv)
      ⟨cmd.init, none, .tcp, defaultTcpServerName⟩ with
  | .error rc => (rc, none)
  | .ok s => if connect s.serverType s.serverId = true then (0, some s) else (einval, none)

def refusal (malloc : Bool) : Answer P → Option ℤ
  | (some .tcp, _) => none
  | (some .localServer, _) => none
  | (some .interfaceId, _) => if malloc = false then some enomem else none
  | (some (.setting p), optarg) =>
      if cmd.handles p = false then some (-1)
      else if (cmd.value p (optarg.getD [])).isSome then none else some einval
  | _ => some (-1)

def firstRefusal (malloc : ℕ → Bool) : ℕ → List (Answer P) → Option ℤ
  | _, [] => none
  | n, answer :: answers =>
      (cmd.refusal (malloc n) answer).or (firstRefusal malloc (n + 1) answers)

def given (p : P) : Answer P → Option V
  | (some (.setting q), optarg) => if q = p then cmd.value q (optarg.getD []) else none
  | _ => none

def names : Answer P → Option (List Byte)
  | (some .interfaceId, optarg) => some (optarg.getD [])
  | _ => none

def server : Answer P → Option (AddressType × List Byte)
  | (some .tcp, optarg) => some (.tcp, optarg.getD defaultTcpServerName)
  | (some .localServer, optarg) => some (.localSocket, optarg.getD defaultLocalServerName)
  | _ => none

/-- The answers give the last value of each field, the last interface and the last server;
the rest is as it was. -/
structure Gives (answers : List (Answer P)) (s s' : ModifyState M) : Prop where
  field : ∀ p, cmd.field s'.message p =
    (lastOf (cmd.given p) answers).or (cmd.field s.message p)
  id : s'.id = (lastOf names answers).or s.id
  server : (s'.serverType, s'.serverId) =
    (lastOf server answers).getD (s.serverType, s.serverId)

end Command

section Loop

variable {P V M : Type} [DecidableEq P] (cmd : ModifyCommand P V M)
variable {malloc : ℕ → Bool} {s : ModifyState M} {answer : Answer P}

/-- An answer that is not refused sets what it says, and nothing else. -/
theorem switch_ok {m : Bool} (h : cmd.refusal m answer = none) :
    ∃ s', cmd.switch m s answer = .ok s' ∧
      (∀ p, cmd.field s'.message p = (cmd.given p answer).or (cmd.field s.message p)) ∧
      s'.id = (names answer).or s.id ∧
      (s'.serverType, s'.serverId) = (server answer).getD (s.serverType, s.serverId) := by
  obtain ⟨code, optarg⟩ := answer
  cases code with
  | none => cases h
  | some opt =>
      cases opt with
      | tcp => exact ⟨_, rfl, fun _ => rfl, rfl, rfl⟩
      | localServer => exact ⟨_, rfl, fun _ => rfl, rfl, rfl⟩
      | help => cases h
      | interfaceId =>
          cases m with
          | true => exact ⟨_, rfl, fun _ => rfl, rfl, rfl⟩
          | false => cases h
      | setting p =>
          cases hp : cmd.handles p with
          | false =>
              rw [refusal, if_pos hp] at h
              cases h
          | true =>
              have hcase := ne_false_of_eq_true hp
              cases hset : cmd.set s.message p (optarg.getD []) with
              | none =>
                  rw [refusal, if_neg hcase, cmd.set_eq_none hset] at h
                  cases h
              | some m' =>
                  refine ⟨{ s with message := m' }, ?_, fun q => (cmd.field_set hset).2 q, rfl,
                    rfl⟩
                  rw [switch, if_neg hcase, hset]

/-- An answer that is refused ends the command with its code. -/
theorem switch_error {m : Bool} {rc : ℤ} (h : cmd.refusal m answer = some rc) :
    cmd.switch m s answer = .error rc := by
  obtain ⟨code, optarg⟩ := answer
  cases code with
  | none =>
      obtain rfl := Option.some.inj h
      rfl
  | some opt =>
      cases opt with
      | tcp => cases h
      | localServer => cases h
      | help =>
          obtain rfl := Option.some.inj h
          rfl
      | interfaceId =>
          cases m with
          | true => cases h
          | false =>
              obtain rfl := Option.some.inj h
              rfl
      | setting p =>
          cases hp : cmd.handles p with
          | false =>
              rw [refusal, if_pos hp] at h
              obtain rfl := Option.some.inj h
              rw [switch, if_pos hp]
          | true =>
              have hcase := ne_false_of_eq_true hp
              cases hset : cmd.set s.message p (optarg.getD []) with
              | none =>
                  rw [refusal, if_neg hcase, cmd.set_eq_none hset] at h
                  obtain rfl := Option.some.inj h
                  rw [switch, if_neg hcase, hset]
              | some m' =>
                  rw [refusal, if_neg hcase, if_pos (cmd.field_set hset).1] at h
                  cases h

theorem loop_error {answers : List (Answer P)} {n : ℕ} {rc : ℤ}
    (h : cmd.firstRefusal malloc n answers = some rc) :
    cmd.loop malloc n answers s = .error rc := by
  induction answers generalizing n s with
  | nil => cases h
  | cons answer answers ih =>
      rw [firstRefusal] at h
      rw [loop]
      cases hanswer : cmd.refusal (malloc n) answer with
      | some rc' =>
          rw [hanswer] at h
          obtain rfl := Option.some.inj h
          rw [switch_error cmd hanswer]
      | none =>
          rw [hanswer] at h
          obtain ⟨s', hs', -⟩ := switch_ok cmd (s := s) hanswer
          rw [hs']
          exact ih h

theorem firstRefusal_eq_none {answers : List (Answer P)} (n : ℕ) :
    cmd.firstRefusal (fun _ => true) n answers = none ↔
      ∀ answer ∈ answers, cmd.refusal true answer = none := by
  induction answers generalizing n with
  | nil => exact iff_of_true rfl fun _ h => absurd h List.not_mem_nil
  | cons answer answers ih =>
      rw [firstRefusal, Option.or_eq_none_iff, ih, List.forall_mem_cons]

theorem loop_ok {answers : List (Answer P)} {n : ℕ}
    (h : cmd.firstRefusal malloc n answers = none) :
    ∃ s', cmd.loop malloc n answers s = .ok s' ∧ cmd.Gives answers s s' := by
  induction answers generalizing n s with
  | nil => exact ⟨s, rfl, fun _ => rfl, rfl, rfl⟩
  | cons answer answers ih =>
      obtain ⟨hanswer, hanswers⟩ := Option.or_eq_none_iff.1 h
      obtain ⟨s₁, hs₁, hfield₁, hid₁, hserver₁⟩ := switch_ok cmd (s := s) hanswer
      obtain ⟨s', hs', hgives⟩ := ih (s := s₁) hanswers
      refine ⟨s', ?_, fun p => ?_, ?_, ?_⟩
      · rw [loop, hs₁]
        exact hs'
      · rw [hgives.field, hfield₁, lastOf_cons, Option.or_assoc]
      · rw [hgives.id, hid₁, lastOf_cons, Option.or_assoc]
      · rw [hgives.server, hserver₁, lastOf_cons]
        cases lastOf server answers <;> rfl

/-- The command ends with the code of the first option that is refused, and then sends
nothing. Otherwise it sends the last value given for each field, for the last interface and
to the last server that were named, if that server can be reached. -/
def Exact : Prop :=
  ∀ (malloc : ℕ → Bool) (connect : AddressType → List Byte → Bool) (argv : List (List Byte)),
    (∀ rc, cmd.firstRefusal malloc 0 (getoptAll cmd.options argv) = some rc →
      cmd.run malloc connect argv = (rc, none)) ∧
    (cmd.firstRefusal malloc 0 (getoptAll cmd.options argv) = none →
      ∃ s : ModifyState M, (∀ p, cmd.field s.message p =
          lastOf (cmd.given p) (getoptAll cmd.options argv)) ∧
        s.id = lastOf names (getoptAll cmd.options argv) ∧
        (s.serverType, s.serverId) = (lastOf server (getoptAll cmd.options argv)).getD
          (.tcp, defaultTcpServerName) ∧
        cmd.run malloc connect argv =
          if connect s.serverType s.serverId = true then (0, some s)
          else ((einval : ℤ), none))

theorem exact : cmd.Exact := by
  intro malloc connect argv
  refine ⟨fun rc h => ?_, fun h => ?_⟩
  · rw [run, loop_error cmd h]
  · obtain ⟨s, hs, hgives⟩ :=
      loop_ok cmd (s := ⟨cmd.init, none, .tcp, defaultTcpServerName⟩) h
    refine ⟨s, fun p => ?_, ?_, hgives.server, ?_⟩
    · rw [hgives.field, cmd.field_init, Option.or_none]
    · rw [hgives.id, Option.or_none]
    · rw [run, hs]

end Loop

end ModifyCommand

end Cli
