import Dabba.Stdio.Numeral

/-!
# Reading a stream by lines

`fgets` fills a buffer with the next bytes of a stream, up to and including a
newline, and leaves room for a null byte. The stream is the list of its bytes;
`fgetsAll` are the contents of the buffer in the calls until the end of the
stream is reached.
-/

namespace Stdio

open Posix

def newline : Byte := BitVec.ofNat 8 10

/-- Reads at most `n` bytes, and none behind a newline: the bytes read and the
rest of the stream. -/
def readLine : ℕ → List Byte → List Byte × List Byte
  | 0, s => ([], s)
  | _ + 1, [] => ([], [])
  | n + 1, c :: s =>
      if c = newline then ([c], s)
      else ((c :: (readLine n s).1), (readLine n s).2)

/-- Fills a buffer of `size` bytes; `none` is the null pointer at the end of the
stream. -/
def fgets (size : ℕ) : List Byte → Option (List Byte × List Byte)
  | [] => none
  | c :: s => some (readLine (size - 1) (c :: s))

/-- The buffers filled until the end of the stream, at most `fuel`. -/
def fgetsLoop (size : ℕ) : ℕ → List Byte → List (List Byte)
  | 0, _ => []
  | fuel + 1, s =>
      match fgets size s with
      | none => []
      | some (buff, rest) => buff :: fgetsLoop size fuel rest

/-- The buffers filled until the end of the stream. Each one takes at least a
byte, so the length of the stream bounds their number. -/
def fgetsAll (size : ℕ) (s : List Byte) : List (List Byte) :=
  fgetsLoop size s.length s

theorem readLine_append (n : ℕ) (s : List Byte) :
    (readLine n s).1 ++ (readLine n s).2 = s := by
  induction n generalizing s with
  | zero => rfl
  | succ n ih =>
      cases s with
      | nil => rfl
      | cons c s =>
          rw [readLine]
          split
          · rfl
          · rw [List.cons_append, ih]

theorem fgets_of_ne_nil (size : ℕ) {s : List Byte} (hs : s ≠ []) :
    fgets size s = some (readLine (size - 1) s) := by
  cases s with
  | nil => exact absurd rfl hs
  | cons c s => rfl

theorem length_lt_of_fgets {size : ℕ} (hsize : 1 < size) {s buff rest : List Byte}
    (h : fgets size s = some (buff, rest)) : rest.length < s.length := by
  cases s with
  | nil => cases h
  | cons c s =>
      obtain ⟨n, hn⟩ : ∃ n, size - 1 = n + 1 := ⟨size - 2, by omega⟩
      have hread : readLine (n + 1) (c :: s) = (buff, rest) := by
        rw [← hn]
        exact Option.some.inj h
      rw [readLine] at hread
      split at hread
      · obtain rfl := (Prod.ext_iff.1 hread).2
        exact Nat.lt_succ_self _
      · obtain rfl := (Prod.ext_iff.1 hread).2
        have hlen := congrArg List.length (readLine_append n s)
        rw [List.length_append] at hlen
        rw [List.length_cons]
        dsimp only
        omega

/-- More fuel than bytes changes nothing. -/
theorem fgetsLoop_of_le {size : ℕ} (hsize : 1 < size) {fuel : ℕ} {s : List Byte}
    (hfuel : s.length ≤ fuel) : fgetsLoop size fuel s = fgetsAll size s := by
  induction fuel using Nat.strong_induction_on generalizing s with
  | _ fuel ih =>
      cases s with
      | nil => cases fuel <;> rfl
      | cons c s =>
          obtain ⟨fuel, rfl⟩ : ∃ k, fuel = k + 1 := ⟨fuel - 1, by
            rw [List.length_cons] at hfuel
            omega⟩
          obtain ⟨⟨buff, rest⟩, hread⟩ : ∃ r, fgets size (c :: s) = some r := ⟨_, rfl⟩
          have hlt := length_lt_of_fgets hsize hread
          rw [List.length_cons] at hlt hfuel
          rw [fgetsAll, List.length_cons, fgetsLoop, fgetsLoop, hread]
          dsimp only
          rw [ih fuel (by omega) (by omega), ih s.length (by omega) (by omega)]

theorem fgetsAll_nil (size : ℕ) : fgetsAll size [] = [] := rfl

theorem fgetsAll_of_fgets {size : ℕ} (hsize : 1 < size) {s buff rest : List Byte}
    (h : fgets size s = some (buff, rest)) :
    fgetsAll size s = buff :: fgetsAll size rest := by
  have hlt := length_lt_of_fgets hsize h
  obtain ⟨n, hn⟩ : ∃ n, s.length = n + 1 := ⟨s.length - 1, by omega⟩
  rw [fgetsAll, hn, fgetsLoop, h]
  dsimp only
  rw [fgetsLoop_of_le hsize (by omega)]

/-- What is left of one line in front of the rest of the text: it ends with the newline
or where the text ends. -/
inductive RestOfLine (rest : List Byte) : List Byte → Prop
  | nil : RestOfLine rest []
  | newline : RestOfLine rest [newline]
  | cons {c : Byte} {v : List Byte} (hc : c ≠ newline) (hv : v = [] → rest = [])
      (h : RestOfLine rest v) : RestOfLine rest (c :: v)

section Line

variable {line v rest : List Byte}

theorem restOfLine_newline (hline : newline ∉ line) (rest : List Byte) :
    RestOfLine rest (line ++ [newline]) := by
  induction line with
  | nil => exact .newline
  | cons c line ih =>
      rw [List.mem_cons, not_or] at hline
      exact .cons (Ne.symm hline.1) (by simp) (ih hline.2)

theorem restOfLine_last (hline : newline ∉ line) : RestOfLine [] line := by
  induction line with
  | nil => exact .nil
  | cons c line ih =>
      rw [List.mem_cons, not_or] at hline
      exact .cons (Ne.symm hline.1) (fun _ => rfl) (ih hline.2)

theorem readLine_restOfLine (h : RestOfLine rest v) (hv : v ≠ []) (n : ℕ) :
    readLine n (v ++ rest) = (v.take n, v.drop n ++ rest) := by
  induction h generalizing n with
  | nil => exact absurd rfl hv
  | newline => cases n <;> simp [readLine]
  | @cons c v hc hrest h ih =>
      cases n with
      | zero => rfl
      | succ n =>
          have hread : readLine n (v ++ rest) = (v.take n, v.drop n ++ rest) := by
            by_cases hv : v = []
            · subst hv
              rw [hrest rfl]
              cases n <;> rfl
            · exact ih hv n
          rw [List.cons_append, readLine, if_neg hc, hread]
          rfl

theorem readLine_line {n : ℕ} (hline : newline ∉ line) (hn : line.length < n)
    (s : List Byte) : readLine n (line ++ newline :: s) = (line ++ [newline], s) := by
  have hread := readLine_restOfLine (restOfLine_newline hline s) (by simp) n
  have hlen : (line ++ [newline]).length ≤ n := by
    rw [List.length_append, List.length_singleton]
    omega
  rwa [List.take_of_length_le hlen, List.drop_of_length_le hlen, List.append_assoc] at hread

theorem readLine_lastLine {n : ℕ} (hline : newline ∉ line) (hn : line.length ≤ n) :
    readLine n line = (line, []) := by
  by_cases hnil : line = []
  · subst hnil
    cases n <;> rfl
  · have hread := readLine_restOfLine (restOfLine_last hline) hnil n
    rwa [List.take_of_length_le hn, List.drop_of_length_le hn, List.append_nil] at hread

end Line

/-- The lines of a text with their newlines; `last` tells whether the last line
has one. -/
def terminated (last : Bool) : List (List Byte) → List (List Byte)
  | [] => []
  | [line] => [line ++ if last then [newline] else []]
  | line :: line' :: lines => (line ++ [newline]) :: terminated last (line' :: lines)

def unlines (last : Bool) (lines : List (List Byte)) : List Byte :=
  (terminated last lines).flatten

/-- A buffer that holds every line is filled with the lines one by one. Only a
last line that is empty and has no newline is not seen. -/
theorem fgetsAll_unlines {size : ℕ} (last : Bool) {lines : List (List Byte)}
    (hlines : ∀ line ∈ lines, newline ∉ line ∧ line.length + 1 < size) :
    fgetsAll size (unlines last lines) =
      (terminated last lines).filter fun buff => !buff.isEmpty := by
  induction lines with
  | nil => rfl
  | cons line lines ih =>
      obtain ⟨hline, hlen⟩ := hlines line (by simp)
      have hterminated : ∀ s, fgetsAll size (line ++ newline :: s) =
          (line ++ [newline]) :: fgetsAll size s := by
        intro s
        have hread := readLine_line hline (by omega : line.length < size - 1) s
        refine fgetsAll_of_fgets (by omega) ?_
        rw [fgets_of_ne_nil size (by simp), hread]
      cases lines with
      | nil =>
          cases last with
          | true =>
              have h := hterminated []
              rw [fgetsAll_nil] at h
              simpa [unlines, terminated] using h
          | false =>
              cases line with
              | nil => rfl
              | cons c line =>
                  have hread := readLine_lastLine hline
                    (by omega : (c :: line).length ≤ size - 1)
                  have hfgets : fgets size (c :: line) = some (c :: line, []) := by
                    rw [fgets_of_ne_nil size (by simp), hread]
                  have h := fgetsAll_of_fgets (by omega) hfgets
                  rw [fgetsAll_nil] at h
                  simpa [unlines, terminated] using h
      | cons line' lines =>
          have hrest := ih fun l hl => hlines l (List.mem_cons_of_mem _ hl)
          have hunlines : unlines last (line :: line' :: lines) =
              line ++ newline :: unlines last (line' :: lines) := by
            simp [unlines, terminated]
          rw [hunlines, hterminated, hrest, terminated, List.filter_cons_of_pos (by simp)]

end Stdio
