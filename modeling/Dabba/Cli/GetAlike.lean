import Dabba.Cli.GetCommands

/-!
# What the get commands read

The options of a get command are a list, and their words are read back one by one. The two
handlers that step back to the action read all of them. The third one reads what the words
behind the first say: this is the same for a first option whose server does not count, and
never for an id, unless the value of the id looks like an option for an id itself.
-/

namespace Cli

open Posix Stdio Last

/-- An option of the get commands. The id stands in a word of its own, or behind an equals
sign. -/
inductive GetOption
  | id (str : List Byte)
  | idAttached (str : List Byte)
  | tcp (addr : Option (List Byte))
  | localServer (path : Option (List Byte))

namespace GetOption

/-- A name with the value behind an equals sign, if there is one. -/
def withValue (name : String) : Option (List Byte) → List Byte
  | none => text name
  | some value => text name ++ ascii '=' :: value

def words : GetOption → List (List Byte)
  | .id str => [text "--id", str]
  | .idAttached str => [withValue "--id" (some str)]
  | .tcp addr => [withValue "--tcp" addr]
  | .localServer path => [withValue "--local" path]

def server? : GetOption → Option (AddressType × List Byte)
  | .tcp addr => some (.tcp, addr.getD defaultTcpServerName)
  | .localServer path => some (.localSocket, path.getD defaultLocalServerName)
  | _ => none

def id? : GetOption → Option (BitVec 64)
  | .id str => some (strtoull str)
  | .idAttached str => some (strtoull str)
  | _ => none

end GetOption

def serverOf (options : List GetOption) : AddressType × List Byte :=
  (lastOf GetOption.server? options).getD (.tcp, defaultTcpServerName)

def idsOf (options : List GetOption) : List (BitVec 64) := options.filterMap GetOption.id?

def GetRpc.command : GetRpc → String
  | .replay => "replay"
  | .capture => "capture"
  | .thread => "thread"

section Alike

variable (handlers : Handlers (Option CmdResult)) (program : List Byte)
variable (mem : GetRpc → IdMemory)

/-- The three commands read the options alike: each connects to the last server that is
selected, or to the default, and asks it for the ids in order. -/
def ParsesAlike (options : List GetOption) : Prop :=
  ∀ rpc connect, ∃ rc,
    dabba (mem rpc) connect handlers
        (program :: text rpc.command :: text "get" :: options.flatMap GetOption.words) =
      some ⟨rc, some (serverOf options),
        if connect (serverOf options).1 (serverOf options).2 = true then
          some (rpc, idsOf options)
        else none⟩

/-- The array of ids can get all of its entries, and they point to messages. -/
def IdMemory.Serves (mem : IdMemory) (n : ℕ) : Prop :=
  ∀ k < n, mem.realloc k = true ∧ mem.entry k = true

end Alike

def idOption : LongOption GetCode := ⟨"id", .required, .id⟩

/-- The first word of the options can be missed: there is none, or it selects a server that
does not count, or its value is an option for an id itself, with the same number, or in
front of options whose first word can be missed as well. -/
def Missable : List GetOption → Prop
  | [] => True
  | .id str :: options =>
      (∃ value, reading getOption str = .option idOption (some value) ∧
        strtoull value = strtoull str) ∨
      reading getOption str = .option idOption none ∧ options ≠ [] ∧ Missable options
  | .idAttached _ :: _ => False
  | o :: options => serverOf options = serverOf (o :: options)

/-- The argument vector of a handler, as `getopt_long_only` gets it. -/
def GetRpc.argv (argv : List (List Byte)) : GetRpc → List (List Byte)
  | .replay => argv
  | _ => text "get" :: argv

theorem head?_words_ne (options : List GetOption) :
    (options.flatMap GetOption.words).head? ≠ some (text "--help") := by
  cases options with
  | nil => exact nofun
  | cons o options =>
      intro h
      have hthird := congrArg (fun word => word.bind (·[2]?)) h
      have hne : ∀ c ∈ ['i', 't', 'l'].map ascii, some c ≠ some (ascii 'h') := by decide
      cases o with
      | id str => exact hne (ascii 'i') (by simp) hthird
      | idAttached str => exact hne (ascii 'i') (by simp) hthird
      | tcp addr => cases addr <;> exact hne (ascii 't') (by simp) hthird
      | localServer path => cases path <;> exact hne (ascii 'l') (by simp) hthird

/-- The handler of the action gets the words behind it. -/
theorem dabba_get (handlers : Handlers (Option CmdResult)) (program : List Byte)
    (mem : IdMemory) (connect : AddressType → List Byte → Bool) (rpc : GetRpc)
    (options : List GetOption) :
    dabba mem connect handlers
        (program :: text rpc.command :: text "get" :: options.flatMap GetOption.words) =
      cmdGet mem connect rpc (rpc.argv (options.flatMap GetOption.words)) := by
  have hget : text "get" ≠ text "--help" ∧ text "get" ≠ text "--version" := by decide
  have hwords := head?_words_ne options
  cases rpc with
  | replay =>
      exact cmdRunCommand_action handlers _ _ ⟨"replay", cmdReplay mem connect handlers⟩
        ⟨"get", cmdReplayGet mem connect⟩ (by simp [GetRpc.command, text, ascii])
        (by simp [text, ascii]) (by decide) hget (fun _ => rfl) hwords
  | capture =>
      exact cmdRunCommand_action handlers _ _ ⟨"capture", cmdCapture mem connect handlers⟩
        ⟨"get", cmdCaptureGet mem connect⟩ (by simp [GetRpc.command, text, ascii])
        (by simp [text, ascii]) (by decide) hget (fun _ => rfl) hwords
  | thread =>
      exact cmdRunCommand_action handlers _ _ ⟨"thread", cmdThread mem connect handlers⟩
        ⟨"get", cmdThreadGet mem connect⟩ (by simp [GetRpc.command, text, ascii])
        (by simp [text, ascii]) (by decide) hget (fun _ => rfl) hwords

section Answers

def GetOption.answer : GetOption → Option GetCode × Option (List Byte)
  | .id str => (some .id, some str)
  | .idAttached str => (some .id, some str)
  | .tcp addr => (some .tcp, addr)
  | .localServer path => (some .localServer, path)

theorem known_answer (o : GetOption) : Known o.answer := by
  cases o <;> exact known_of_ne (by decide) _

theorem answerServer_answer (o : GetOption) : answerServer o.answer = o.server? := by
  cases o <;> rfl

theorem answerId_answer (o : GetOption) : answerId o.answer = o.id? := by
  cases o <;> rfl

theorem getoptAll_words (o : GetOption) (argv : List (List Byte)) :
    getoptAll getOption (o.words ++ argv) = o.answer :: getoptAll getOption argv := by
  cases o with
  | id str => rfl
  | idAttached str => rfl
  | tcp addr => cases addr <;> rfl
  | localServer path => cases path <;> rfl

theorem getoptAll_flatMap (options : List GetOption) :
    getoptAll getOption (options.flatMap GetOption.words) =
      options.map GetOption.answer := by
  induction options with
  | nil => rfl
  | cons o options ih => rw [List.flatMap_cons, getoptAll_words, ih, List.map_cons]

end Answers

section Said

variable {answers : List (Option GetCode × Option (List Byte))} {options : List GetOption}

def SaysSame (answers : List (Option GetCode × Option (List Byte)))
    (options : List GetOption) : Prop :=
  (∀ a ∈ answers, Known a) ∧
    (lastOf answerServer answers).getD (.tcp, defaultTcpServerName) = serverOf options ∧
      answers.filterMap answerId = idsOf options

theorem lastOf_answer (options : List GetOption) :
    lastOf answerServer (options.map GetOption.answer) = lastOf GetOption.server? options := by
  rw [lastOf, lastOf, List.filterMap_map]
  exact congrArg (fun f => (options.filterMap f).getLast?) (funext answerServer_answer)

theorem filterMap_answer (options : List GetOption) :
    (options.map GetOption.answer).filterMap answerId = idsOf options := by
  rw [List.filterMap_map, idsOf]
  exact congrArg (fun f => options.filterMap f) (funext answerId_answer)

theorem known_of_mem_map {a : Option GetCode × Option (List Byte)}
    (h : a ∈ options.map GetOption.answer) : Known a := by
  obtain ⟨o, -, rfl⟩ := List.mem_map.1 h
  exact known_answer o

theorem saysSame_answers (options : List GetOption) :
    SaysSame (options.map GetOption.answer) options := by
  refine ⟨fun _ h => known_of_mem_map h, ?_, filterMap_answer options⟩
  rw [lastOf_answer]
  rfl

/-- With one id more, the options say something else than the answers without it. -/
theorem not_saysSame_of_ids (hids : answers.filterMap answerId = idsOf options)
    {o : GetOption} (ho : o.id?.isSome = true) : ¬ SaysSame answers (o :: options) := by
  rintro ⟨-, -, h⟩
  obtain ⟨id, hid⟩ := Option.isSome_iff_exists.1 ho
  rw [hids, idsOf, idsOf, List.filterMap_cons_some hid] at h
  exact List.cons_ne_self id _ h.symm

/-- An id in front of the answers, and one in front of the options. -/
theorem saysSame_cons_id {str : List Byte} {optarg : List Byte} :
    SaysSame ((some .id, some optarg) :: answers) (.id str :: options) ↔
      strtoull optarg = strtoull str ∧ SaysSame answers options := by
  have hknown : Known (some .id, some optarg) := known_of_ne (by decide) _
  have hanswers : lastOf answerServer ((some .id, some optarg) :: answers) =
      lastOf answerServer answers := by
    rw [lastOf_cons]
    exact Option.or_none
  have hserver : serverOf (.id str :: options) = serverOf options := by
    have hnone : (GetOption.id str).server? = none := rfl
    rw [serverOf, lastOf_cons, hnone, Option.or_none]
    rfl
  unfold SaysSame
  rw [List.forall_mem_cons, and_iff_right hknown, hanswers, hserver]
  have hids : ((some .id, some optarg) :: answers).filterMap answerId =
      idsOf (.id str :: options) ↔
        strtoull optarg = strtoull str ∧ answers.filterMap answerId = idsOf options :=
    List.cons.injEq .. ▸ Iff.rfl
  rw [hids]
  tauto

end Said

section Missed

theorem head?_of_findOption {name : List Byte}
    (h : findOption getOption name = some idOption) : name.head? = some (ascii 'i') := by
  obtain ⟨-, rfl⟩ | hfilter := findOption_cases h
  · rfl
  · have hmem : idOption ∈ getOption.filter fun opt => name.isPrefixOf (text opt.name) := by
      rw [hfilter]
      exact List.mem_singleton_self idOption
    have hprefix : name <+: [ascii 'i', ascii 'd'] :=
      List.isPrefixOf_iff_prefix.1 (List.mem_filter.1 hmem).2
    cases name with
    | nil => exact absurd (congrArg List.length hfilter) (by decide)
    | cons c name => rw [List.head?_cons, (List.cons_prefix_cons.1 hprefix).1]

theorem strtoull_of_reading {str : List Byte} {value : Option (List Byte)}
    (h : reading getOption str = .option idOption value) : strtoull str = 0 := by
  obtain ⟨s, hundash, hfind, -⟩ := reading_cases h
  obtain rfl | rfl := undash_cases hundash
  · exact strtoull_dash (by decide) s
  · -- Behind a single dash stands the letter of the name, which is no digit.
    have hname := head?_of_findOption hfind
    cases s with
    | nil => cases hname
    | cons c s =>
        rw [List.takeWhile_cons] at hname
        split at hname
        case isTrue =>
            rw [Option.some.inj hname]
            exact strtoull_dash (by decide) s
        case isFalse => cases hname

theorem strtoull_head (o : GetOption) :
    ∃ word rest, o.words = word :: rest ∧ strtoull word = 0 := by
  have hdash : digit? 10 (ascii '-') = none := by decide
  cases o with
  | id str => exact ⟨_, _, rfl, strtoull_dash hdash _⟩
  | idAttached str => exact ⟨_, _, rfl, strtoull_dash hdash _⟩
  | tcp addr => cases addr <;> exact ⟨_, _, rfl, strtoull_dash hdash _⟩
  | localServer path => cases path <;> exact ⟨_, _, rfl, strtoull_dash hdash _⟩

section Id

variable {str : List Byte} {options : List GetOption}

/-- Another word in the place of an option for an id says less than that option. -/
theorem not_saysSame_of_reading
    (h : ∀ value, reading getOption str ≠ .option idOption value) :
    ¬ SaysSame (getoptAll getOption (str :: options.flatMap GetOption.words))
      (.id str :: options) := by
  have hids : (getoptAll getOption (options.flatMap GetOption.words)).filterMap answerId =
      idsOf options := by
    rw [getoptAll_flatMap, filterMap_answer]
  have hmore : ∀ answers, answers.filterMap answerId = idsOf options →
      ¬ SaysSame answers (.id str :: options) := fun _ h => not_saysSame_of_ids h rfl
  rw [getoptAll]
  cases hread : reading getOption str with
  | operand => exact hmore _ hids
  | stop => exact fun h => by cases h.2.2
  | unknown => exact fun h => (h.1 _ List.mem_cons_self).1 rfl
  | option opt value =>
      have hmem := mem_of_reading hread
      simp only [getOption, List.mem_cons, List.not_mem_nil, or_false] at hmem
      rcases hmem with rfl | rfl | rfl | rfl
      · exact absurd hread (h value)
      · cases value <;> exact hmore _ hids
      · cases value <;> exact hmore _ hids
      · cases value with
        | none => exact fun h => (h.1 _ List.mem_cons_self).2 rfl
        | some value => exact fun h => (h.1 _ List.mem_cons_self).1 rfl

theorem getoptAll_of_value {value : List Byte}
    (h : reading getOption str = .option idOption (some value)) (argv : List (List Byte)) :
    getoptAll getOption (str :: argv) = (some .id, some value) :: getoptAll getOption argv := by
  rw [getoptAll, h]
  rfl

theorem getoptAll_of_none (h : reading getOption str = .option idOption none)
    (word : List Byte) (argv : List (List Byte)) :
    getoptAll getOption (str :: word :: argv) =
      (some .id, some word) :: getoptAll getOption argv := by
  rw [getoptAll, h]
  rfl

theorem not_saysSame_of_none (h : reading getOption str = .option idOption none) :
    ¬ SaysSame (getoptAll getOption [str]) options := by
  rw [getoptAll, h]
  exact fun h => (h.1 _ List.mem_cons_self).1 rfl

/-- The value of an option for an id stands where the option was. -/
theorem saysSame_id_tail_iff
    (hrest : SaysSame (getoptAll getOption (options.flatMap GetOption.words).tail) options ↔
      Missable options) :
    SaysSame (getoptAll getOption (str :: options.flatMap GetOption.words))
        (.id str :: options) ↔ Missable (.id str :: options) := by
  unfold Missable
  by_cases hread : ∃ value, reading getOption str = .option idOption value
  · obtain ⟨value, hread⟩ := hread
    cases value with
    | some value =>
        rw [getoptAll_of_value hread, saysSame_cons_id, getoptAll_flatMap, hread]
        constructor
        · exact fun h => .inl ⟨value, rfl, h.1⟩
        · rintro (⟨_, heq, h⟩ | ⟨heq, -⟩)
          · cases heq
            exact ⟨h, saysSame_answers options⟩
          · cases heq
    | none =>
        have hvalue : ¬ ∃ value, reading getOption str = .option idOption (some value) ∧
            strtoull value = strtoull str := by
          rintro ⟨_, heq, -⟩
          cases hread.symm.trans heq
        rw [or_iff_right hvalue, and_iff_right hread]
        cases options with
        | nil => exact iff_of_false (not_saysSame_of_none hread) fun h => h.1 rfl
        | cons o options =>
            obtain ⟨word, rest, hwords, hword⟩ := strtoull_head o
            rw [List.flatMap_cons, hwords, List.cons_append, List.tail_cons] at hrest
            rw [List.flatMap_cons, hwords, List.cons_append, getoptAll_of_none hread,
              saysSame_cons_id, hword, strtoull_of_reading hread, hrest, and_iff_right rfl,
              and_iff_right (List.cons_ne_nil o options)]
  · refine iff_of_false (not_saysSame_of_reading fun value h => hread ⟨value, h⟩) ?_
    rintro (⟨value, h, -⟩ | ⟨h, -⟩)
    · exact hread ⟨_, h⟩
    · exact hread ⟨_, h⟩

end Id

/-- Without the first word, the words still say what the options say if and only if the
first word can be missed. -/
theorem saysSame_tail_iff (options : List GetOption) :
    SaysSame (getoptAll getOption (options.flatMap GetOption.words).tail) options ↔
      Missable options := by
  induction options with
  | nil => exact iff_of_true (saysSame_answers []) trivial
  | cons o options ih =>
      have hserver : ∀ o : GetOption, o.id? = none →
          (SaysSame (getoptAll getOption (options.flatMap GetOption.words)) (o :: options) ↔
            serverOf options = serverOf (o :: options)) := by
        intro o ho
        have hids : idsOf (o :: options) = idsOf options := List.filterMap_cons_none ho
        rw [getoptAll_flatMap, SaysSame, filterMap_answer, hids, lastOf_answer]
        exact ⟨fun h => h.2.1, fun h => ⟨fun _ => known_of_mem_map, h, rfl⟩⟩
      cases o with
      | tcp addr => cases addr <;> exact hserver _ rfl
      | localServer path => cases path <;> exact hserver _ rfl
      | idAttached str =>
          refine iff_of_false (not_saysSame_of_ids ?_ rfl) not_false
          rw [← filterMap_answer, ← getoptAll_flatMap]
          rfl
      | id str => exact saysSame_id_tail_iff ih

end Missed

section Alike

/-- A command does what the options say, whether the server can be reached or not, if and
only if its loop ends with that. -/
theorem cmdGet_iff (mem : IdMemory) (rpc : GetRpc) (argv : List (List Byte))
    (server : AddressType × List Byte) (ids : List (BitVec 64)) :
    (∀ connect, ∃ rc, cmdGet mem connect rpc argv =
      some ⟨rc, some server,
        if connect server.1 server.2 = true then some (rpc, ids) else none⟩) ↔
      getLoop mem (getoptAll getOption argv.tail) .init = .ok ⟨server.1, server.2, ids⟩ := by
  unfold cmdGet
  constructor
  · intro h
    obtain ⟨rc, h⟩ := h fun _ _ => true
    cases hloop : getLoop mem (getoptAll getOption argv.tail) .init with
    | error stop => cases stop <;> simp [hloop] at h
    | ok s =>
        rw [hloop] at h
        cases h
        rfl
  · intro h connect
    rw [h]
    by_cases hconnect : connect server.1 server.2 = true
    · exact ⟨0, by simp [hconnect]⟩
    · exact ⟨einval, by simp [hconnect]⟩

variable (handlers : Handlers (Option CmdResult)) (program : List Byte)
variable (mem : GetRpc → IdMemory) (options : List GetOption)

/-- One of the commands does what the options say. -/
theorem dabba_get_iff (rpc : GetRpc) :
    (∀ connect, ∃ rc, dabba (mem rpc) connect handlers
        (program :: text rpc.command :: text "get" :: options.flatMap GetOption.words) =
      some ⟨rc, some (serverOf options),
        if connect (serverOf options).1 (serverOf options).2 = true then
          some (rpc, idsOf options)
        else none⟩) ↔
      SaysSame (getoptAll getOption (rpc.argv (options.flatMap GetOption.words)).tail)
        options ∧ (mem rpc).Serves (idsOf options).length := by
  have hserves : ∀ n, (mem rpc).ServesFrom GetState.init.idList.length n ↔
      (mem rpc).Serves n := by
    intro n
    simp only [IdMemory.ServesFrom, IdMemory.Serves, GetState.init, List.length_nil,
      Nat.zero_add]
  have hstate : ∀ answers, (⟨(serverOf options).1, (serverOf options).2, idsOf options⟩ =
      GetState.init.after answers ↔
        (lastOf answerServer answers).getD (.tcp, defaultTcpServerName) = serverOf options ∧
          answers.filterMap answerId = idsOf options) := by
    intro answers
    rw [GetState.mk.injEq, ← and_assoc]
    exact and_congr (Prod.ext_iff.symm.trans eq_comm) eq_comm
  simp only [dabba_get]
  rw [cmdGet_iff, getLoop_eq_ok_iff, hserves, hstate]
  constructor
  · rintro ⟨hknown, hmem, hserver, hids⟩
    rw [hids] at hmem
    exact ⟨⟨hknown, hserver, hids⟩, hmem⟩
  · rintro ⟨⟨hknown, hserver, hids⟩, hmem⟩
    rw [← hids] at hmem
    exact ⟨hknown, hmem, hserver, hids⟩

variable {handlers program mem options}

/-- The handler that is not shifted back misses the first word. -/
theorem missable_of_parsesAlike (h : ParsesAlike handlers program mem options) :
    Missable options :=
  (saysSame_tail_iff options).1
    ((dabba_get_iff handlers program mem options .replay).1 (h .replay)).1

end Alike

/-- The three commands read the options alike if and only if the first word can be missed
and the memory serves for the ids. -/
theorem parsesAlike_iff (handlers : Handlers (Option CmdResult)) (program : List Byte)
    (mem : GetRpc → IdMemory) (options : List GetOption) :
    ParsesAlike handlers program mem options ↔
      Missable options ∧ ∀ rpc, (mem rpc).Serves (idsOf options).length := by
  constructor
  · intro h
    refine ⟨missable_of_parsesAlike h, fun rpc => ?_⟩
    exact ((dabba_get_iff handlers program mem options rpc).1 (h rpc)).2
  · rintro ⟨hmissable, hserves⟩ rpc
    refine (dabba_get_iff handlers program mem options rpc).2 ⟨?_, hserves rpc⟩
    have hshifted : SaysSame (getoptAll getOption (options.flatMap GetOption.words)) options := by
      rw [getoptAll_flatMap]
      exact saysSame_answers options
    cases rpc with
    | replay => exact (saysSame_tail_iff options).2 hmissable
    | capture => exact hshifted
    | thread => exact hshifted

def noHandlers : Handlers (Option CmdResult) where
  cmdHelp _ := none
  helpUnknownCmd _ := none
  other _ _ _ := none

def enoughMemory : IdMemory := ⟨fun _ => true, fun _ => true⟩

/-- A server that is given in the first word is missed by one of the commands. -/
theorem not_parsesAlike_remote :
    ¬ ParsesAlike noHandlers (text "dabba") (fun _ => enoughMemory)
      [.tcp (some (text "10.0.0.1:55994"))] := by
  intro h
  have hserver := congrArg Prod.snd (missable_of_parsesAlike h)
  exact absurd hserver (by decide)

end Cli
