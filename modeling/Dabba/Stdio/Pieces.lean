import Dabba.Stdio.Stream
import Mathlib.Data.List.Basic
import Mathlib.Data.List.Infix

/-!
# Lines that do not fit the buffer

A line that is longer than the buffer is read in pieces, and a reader that looks at the
first character of the buffer takes each piece for a line. The first pieces of the lines
that begin with some character are all that it takes for such lines if and only if no
later piece of any line begins with that character.
-/

namespace Stdio

open Posix

def linesOf (s : List Byte) : List (List Byte) := s.splitOn newline

def beginsWith (c : Byte) (texts : List (List Byte)) : List (List Byte) :=
  texts.filter fun t => t.head? = some c

/-- The piece, if the text it is taken from begins with the character. -/
def firstPiece (c : Byte) (text piece : List Byte) : List (List Byte) :=
  if text.head? = some c then [piece] else []

/-- No piece of the text but the first begins with the character; the buffer holds `n`
characters of it. -/
def NoLater (n : ℕ) (c : Byte) (t : List Byte) : Prop :=
  ∀ k, t[n * (k + 1)]? ≠ some c

section Pieces

variable {line v rest : List Byte} {c : Byte}

theorem RestOfLine.drop (h : RestOfLine rest v) (n : ℕ) : RestOfLine rest (v.drop n) := by
  induction h generalizing n with
  | nil =>
      rw [List.drop_nil]
      exact .nil
  | newline =>
      cases n with
      | zero => exact .newline
      | succ n =>
          rw [List.drop_succ_cons, List.drop_nil]
          exact .nil
  | cons hc hv h ih =>
      cases n with
      | zero => exact .cons hc hv h
      | succ n => exact ih n

theorem RestOfLine.of_nil (h : RestOfLine rest v) : RestOfLine [] v := by
  induction h with
  | nil => exact .nil
  | newline => exact .newline
  | cons hc _ _ ih => exact .cons hc (fun _ => rfl) ih

variable {size : ℕ}

theorem fgetsAll_restOfLine (hsize : 1 < size) (h : RestOfLine rest v) (hv : v ≠ []) :
    fgetsAll size (v ++ rest) =
      v.take (size - 1) :: fgetsAll size (v.drop (size - 1) ++ rest) := by
  refine fgetsAll_of_fgets hsize ?_
  rw [fgets_of_ne_nil size (by simp [hv]), readLine_restOfLine h hv]

theorem fgetsAll_piece (hsize : 1 < size) (h : RestOfLine rest v) (hv : v ≠ []) :
    fgetsAll size v = v.take (size - 1) :: fgetsAll size (v.drop (size - 1)) := by
  have hread := fgetsAll_restOfLine hsize h.of_nil hv
  rwa [List.append_nil, List.append_nil] at hread

theorem fgetsAll_append (hsize : 1 < size) (h : RestOfLine rest v) :
    fgetsAll size (v ++ rest) = fgetsAll size v ++ fgetsAll size rest := by
  induction hlen : v.length using Nat.strong_induction_on generalizing v with
  | _ len ih =>
      by_cases hv : v = []
      · rw [hv, fgetsAll_nil, List.nil_append, List.nil_append]
      · have hdrop : (v.drop (size - 1)).length < len := by
          rw [List.length_drop, ← hlen]
          exact Nat.sub_lt (List.length_pos_of_ne_nil hv) (by omega)
        rw [fgetsAll_restOfLine hsize h hv, fgetsAll_piece hsize h hv,
          ih _ hdrop (h.drop _) rfl, List.cons_append]

theorem firstPiece_eq_nil_iff {text piece : List Byte} :
    firstPiece c text piece = [] ↔ text.head? ≠ some c := by
  unfold firstPiece
  split <;> simp [*]

theorem beginsWith_append (ts us : List (List Byte)) :
    beginsWith c (ts ++ us) = beginsWith c ts ++ beginsWith c us := List.filter_append _ _

theorem beginsWith_cons (t : List Byte) (ts : List (List Byte)) :
    beginsWith c (t :: ts) = firstPiece c t t ++ beginsWith c ts := by
  unfold beginsWith firstPiece
  rw [List.filter_cons]
  by_cases h : t.head? = some c <;> simp [h]

theorem beginsWith_fgetsAll (hsize : 1 < size) (h : RestOfLine rest v) :
    beginsWith c (fgetsAll size v) = firstPiece c v (v.take (size - 1)) ++
      beginsWith c (fgetsAll size (v.drop (size - 1))) := by
  by_cases hv : v = []
  · rw [hv, List.drop_nil, fgetsAll_nil]
    rfl
  · have hhead : (v.take (size - 1)).head? = v.head? := by
      rw [List.head?_take, if_neg (by omega)]
    rw [fgetsAll_piece hsize h hv, beginsWith_cons, firstPiece, firstPiece, hhead]

/-- No piece of a line begins with the character if it does not stand where one begins. -/
theorem beginsWith_fgetsAll_eq_nil_iff (hsize : 1 < size) (h : RestOfLine rest v) :
    beginsWith c (fgetsAll size v) = [] ↔ ∀ k, v[(size - 1) * k]? ≠ some c := by
  induction hlen : v.length using Nat.strong_induction_on generalizing v with
  | _ len ih =>
      by_cases hv : v = []
      · simp [hv, beginsWith, fgetsAll_nil]
      · have hdrop : (v.drop (size - 1)).length < len := by
          rw [List.length_drop, ← hlen]
          exact Nat.sub_lt (List.length_pos_of_ne_nil hv) (by omega)
        rw [beginsWith_fgetsAll hsize h, List.append_eq_nil_iff, firstPiece_eq_nil_iff,
          ih _ hdrop (h.drop _) rfl]
        constructor
        · rintro ⟨hhead, htail⟩ k
          cases k with
          | zero => rwa [Nat.mul_zero, ← List.head?_eq_getElem?]
          | succ k =>
              have hk := htail k
              rwa [List.getElem?_drop, Nat.add_comm, ← Nat.mul_succ] at hk
        · intro hall
          refine ⟨?_, fun k => ?_⟩
          · rw [List.head?_eq_getElem?, ← Nat.mul_zero (size - 1)]
            exact hall 0
          · rw [List.getElem?_drop, Nat.add_comm, ← Nat.mul_succ]
            exact hall (k + 1)

end Pieces

section Firsts

variable {size : ℕ} {c : Byte} {line e rest : List Byte}
variable {lines pieces firsts : List (List Byte)}

/-- The first piece of a line, with its end or without it. -/
def IsFirstPiece (n : ℕ) (line t : List Byte) : Prop :=
  ∃ e, (e = [] ∨ e = [newline]) ∧ t = (line ++ e).take n

/-- The first pieces of the lines that begin with the character, among all pieces that
do. -/
structure Firsts (n : ℕ) (c : Byte) (lines pieces firsts : List (List Byte)) : Prop where
  first : List.Forall₂ (IsFirstPiece n) (beginsWith c lines) firsts
  sublist : firsts.Sublist (beginsWith c pieces)
  all : firsts = beginsWith c pieces ↔ ∀ line ∈ lines, NoLater n c line

theorem firsts_nil (n : ℕ) : Firsts n c [] [] [] where
  first := .nil
  sublist := .slnil
  all := iff_of_true rfl fun _ h => absurd h List.not_mem_nil

theorem getElem?_append_end (hc : c ≠ newline) (he : e = [] ∨ e = [newline])
    (t : List Byte) (i : ℕ) : (t ++ e)[i]? = some c ↔ t[i]? = some c := by
  rcases he with rfl | rfl
  · rw [List.append_nil]
  · rcases lt_or_ge i t.length with hi | hi
    · rw [List.getElem?_append_left hi]
    · rw [List.getElem?_append_right hi, List.getElem?_eq_none hi]
      refine iff_of_false (fun h => ?_) (Option.some_ne_none c).symm
      exact hc (List.mem_singleton.1 (List.mem_of_getElem? h))

theorem beginsWith_pieces_eq_nil_iff (hsize : 1 < size) (hc : c ≠ newline)
    (he : e = [] ∨ e = [newline]) (hline : RestOfLine rest (line ++ e)) :
    beginsWith c (fgetsAll size ((line ++ e).drop (size - 1))) = [] ↔
      NoLater (size - 1) c line := by
  rw [beginsWith_fgetsAll_eq_nil_iff hsize (hline.drop _)]
  refine forall_congr' fun k => not_congr ?_
  rw [List.getElem?_drop, Nat.add_comm, ← Nat.mul_succ, getElem?_append_end hc he]

/-- One line more in front of the text. -/
theorem Firsts.cons (hsize : 1 < size) (hc : c ≠ newline) (he : e = [] ∨ e = [newline])
    (hline : RestOfLine rest (line ++ e)) (h : Firsts (size - 1) c lines pieces firsts) :
    Firsts (size - 1) c (line :: lines) (fgetsAll size (line ++ e) ++ pieces)
      (firstPiece c line ((line ++ e).take (size - 1)) ++ firsts) := by
  have hlater := beginsWith_pieces_eq_nil_iff hsize hc he hline
  have hhead : (line ++ e).head? = some c ↔ line.head? = some c := by
    rw [List.head?_eq_getElem?, List.head?_eq_getElem?, getElem?_append_end hc he]
  have hpieces : beginsWith c (fgetsAll size (line ++ e) ++ pieces) =
      firstPiece c line ((line ++ e).take (size - 1)) ++
        (beginsWith c (fgetsAll size ((line ++ e).drop (size - 1))) ++
          beginsWith c pieces) := by
    rw [beginsWith_append, beginsWith_fgetsAll hsize hline, List.append_assoc]
    simp only [firstPiece, hhead]
  refine ⟨?_, ?_, ?_⟩
  · rw [beginsWith_cons]
    unfold firstPiece
    split
    · exact .cons ⟨e, he, rfl⟩ h.first
    · exact h.first
  · rw [hpieces]
    exact (h.sublist.trans (List.sublist_append_right _ _)).append_left _
  · rw [hpieces, List.append_cancel_left_eq, List.forall_mem_cons, ← hlater, ← h.all]
    constructor
    · intro heq
      have hnil : beginsWith c (fgetsAll size ((line ++ e).drop (size - 1))) = [] := by
        have hlen := congrArg List.length heq
        have hle := h.sublist.length_le
        rw [List.length_append] at hlen
        exact List.eq_nil_of_length_eq_zero (by omega)
      rw [hnil] at heq
      exact ⟨hnil, heq⟩
    · rintro ⟨hnil, heq⟩
      rw [hnil]
      exact heq

/-- The first pieces of the lines of a text are all of its pieces that begin with the
character if and only if no later piece does. -/
theorem exists_firsts (size : ℕ) (c : Byte) (hsize : 1 < size) (hc : c ≠ newline) (s : List Byte) :
    ∃ firsts, Firsts (size - 1) c (linesOf s) (fgetsAll size s) firsts := by
  induction hlen : s.length using Nat.strong_induction_on generalizing s with
  | _ len ih =>
      by_cases hs : newline ∈ s
      · obtain ⟨line, rest, rfl, hline⟩ := List.eq_append_cons_of_mem hs
        have hrest : rest.length < len := by
          rw [← hlen, List.length_append, List.length_cons]
          omega
        obtain ⟨firsts, hfirsts⟩ := ih _ hrest rest rfl
        have hrestOf := restOfLine_newline hline rest
        rw [linesOf, List.splitOn_append_cons_self_of_not_mem hline, List.append_cons,
          fgetsAll_append hsize hrestOf]
        exact ⟨_, hfirsts.cons hsize hc (.inr rfl) hrestOf⟩
      · have hrestOf := restOfLine_last hs
        have h : Firsts (size - 1) c [s] (fgetsAll size (s ++ []) ++ [])
            (firstPiece c s ((s ++ []).take (size - 1)) ++ []) :=
          (firsts_nil _).cons hsize hc (.inl rfl) (by rwa [List.append_nil])
        rw [List.append_nil, List.append_nil, ← List.splitOn_eq_singleton hs] at h
        exact ⟨_, h⟩

end Firsts

end Stdio
