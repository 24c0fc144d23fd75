import Dabba.Stdio.Field
import Dabba.Stdio.Stream

/-!
# Listings

A listing is a text of lines, a block of lines for each entry, and the first line of a block
is marked. If no line has a newline inside, the text determines the lines, and the lines
determine the blocks. In a line a value is found again between fixed texts, as long as the
separator behind it is none of its characters; and numbers are found again from how they
are printed.
-/

namespace Stdio

open Posix

section Lists

variable {α β γ : Type*}

theorem map_eq_map_iff {f : α → β} {g : α → γ} (h : ∀ x y, f x = f y ↔ g x = g y)
    {l l' : List α} : l.map f = l'.map f ↔ l.map g = l'.map g := by
  induction l generalizing l' with
  | nil => cases l' <;> simp
  | cons x l ih =>
      cases l' with
      | nil => simp
      | cons y l' => simp only [List.map_cons, List.cons.injEq, h x y, ih]

/-- What stands in front of a separator is found again, and so is what stands behind it. -/
theorem append_cons_inj {a : α} {l l' r r' : List α} (hl : a ∉ l) (hl' : a ∉ l') :
    l ++ a :: r = l' ++ a :: r' ↔ l = l' ∧ r = r' := by
  induction l generalizing l' with
  | nil =>
      cases l' with
      | nil => simp
      | cons b l' =>
          refine iff_of_false (fun h => hl' ?_) fun h => List.cons_ne_nil b l' h.1.symm
          rw [(List.cons.inj h).1]
          exact List.mem_cons_self
  | cons b l ih =>
      cases l' with
      | nil =>
          refine iff_of_false (fun h => hl ?_) fun h => List.cons_ne_nil b l h.1
          rw [← (List.cons.inj h).1]
          exact List.mem_cons_self
      | cons b' l' =>
          rw [List.cons_append, List.cons_append, List.cons.injEq, List.cons.injEq,
            ih (List.not_mem_of_not_mem_cons hl) (List.not_mem_of_not_mem_cons hl'), and_assoc]

theorem append_sep_inj {a : α} {sep l l' r r' : List α} (hl : a ∉ l) (hl' : a ∉ l') :
    l ++ (a :: sep ++ r) = l' ++ (a :: sep ++ r') ↔ l = l' ∧ r = r' := by
  rw [List.cons_append, List.cons_append, append_cons_inj hl hl', List.append_cancel_left_eq]

variable {mark : β → Bool} {head : α → β} {tail : α → List β} {l l' : List α}

def blocks (head : α → β) (tail : α → List β) (l : List α) : List β :=
  l.flatMap fun x => head x :: tail x

theorem blocks_cons (x : α) (l : List α) :
    blocks head tail (x :: l) = head x :: (tail x ++ blocks head tail l) := by
  rw [blocks, List.flatMap_cons, List.cons_append, blocks]

theorem takeWhile_blocks (hhead : ∀ x, mark (head x) = true)
    (htail : ∀ x, ∀ b ∈ tail x, mark b = false) (x : α) (l : List α) :
    (tail x ++ blocks head tail l).takeWhile (fun b => !mark b) = tail x := by
  have hnext : (blocks head tail l).takeWhile (fun b => !mark b) = [] := by
    cases l with
    | nil => rfl
    | cons y l => rw [blocks_cons, List.takeWhile_cons_of_neg (by simp [hhead y])]
  rw [List.takeWhile_append_of_pos fun b hb => by simp [htail x b hb], hnext,
    List.append_nil]

/-- Where the first line of each block is marked, and no other line, the lines determine the
blocks. -/
theorem blocks_inj (hhead : ∀ x, mark (head x) = true)
    (htail : ∀ x, ∀ b ∈ tail x, mark b = false)
    (h : blocks head tail l = blocks head tail l') :
    (l.map fun x => (head x, tail x)) = l'.map fun x => (head x, tail x) := by
  induction l generalizing l' with
  | nil =>
      cases l' with
      | nil => rfl
      | cons x' l' =>
          rw [blocks_cons] at h
          cases h
  | cons x l ih =>
      cases l' with
      | nil =>
          rw [blocks_cons] at h
          cases h
      | cons x' l' =>
          rw [blocks_cons, blocks_cons] at h
          obtain ⟨hx, hrest⟩ := List.cons.inj h
          have htails : tail x = tail x' := by
            rw [← takeWhile_blocks hhead htail x l, hrest, takeWhile_blocks hhead htail x' l']
          rw [htails] at hrest
          rw [List.map_cons, List.map_cons, hx, htails, ih (List.append_cancel_left hrest)]

end Lists

section Lines

def endLines (lines : List (List Byte)) : List Byte := lines.flatMap fun line => line ++ [newline]

/-- The text determines the lines. -/
theorem endLines_inj {lines lines' : List (List Byte)} (h : ∀ line ∈ lines, newline ∉ line)
    (h' : ∀ line ∈ lines', newline ∉ line) (heq : endLines lines = endLines lines') :
    lines = lines' := by
  have hcons : ∀ (line : List Byte) lines,
      endLines (line :: lines) = line ++ newline :: endLines lines := by
    intro line lines
    rw [endLines, List.flatMap_cons, List.append_assoc]
    rfl
  induction lines generalizing lines' with
  | nil =>
      cases lines' with
      | nil => rfl
      | cons line' lines' =>
          rw [hcons] at heq
          exact absurd heq.symm (by simp [endLines])
  | cons line lines ih =>
      cases lines' with
      | nil =>
          rw [hcons] at heq
          exact absurd heq (by simp [endLines])
      | cons line' lines' =>
          rw [hcons, hcons, append_cons_inj (h line List.mem_cons_self)
            (h' line' List.mem_cons_self)] at heq
          rw [heq.1, ih (fun l hl => h l (List.mem_cons_of_mem line hl))
            (fun l hl => h' l (List.mem_cons_of_mem line' hl)) heq.2]

end Lines

/-- How the entries of a list are printed: a header, and for each entry a marked line and
others. -/
structure Layout (α : Type*) where
  header : List (List Byte)
  head : α → List Byte
  tail : α → List (List Byte)
  mark : List Byte → Bool
  header_oneLine : ∀ line ∈ header, newline ∉ line
  mark_head : ∀ x, mark (head x) = true
  mark_tail : ∀ x, ∀ line ∈ tail x, mark line = false

namespace Layout

variable {α γ : Type*} (layout : Layout α)

def print (l : List α) : List Byte :=
  endLines (layout.header ++ blocks layout.head layout.tail l)

/-- Nothing of the entry has a newline. -/
def Plain (x : α) : Prop :=
  newline ∉ layout.head x ∧ ∀ line ∈ layout.tail x, newline ∉ line

variable {layout} in
theorem oneLine_blocks {l : List α} (h : ∀ x ∈ l, layout.Plain x) :
    ∀ line ∈ layout.header ++ blocks layout.head layout.tail l, newline ∉ line := by
  intro line hline
  rcases List.mem_append.1 hline with hheader | hblocks
  · exact layout.header_oneLine line hheader
  · obtain ⟨x, hx, hmem⟩ := List.mem_flatMap.1 hblocks
    rcases List.mem_cons.1 hmem with rfl | htail
    · exact (h x hx).1
    · exact (h x hx).2 line htail

variable {layout} in
/-- Two lists are printed alike exactly if what can be seen of them is the same, where
`seen` is what a block of lines shows. -/
theorem print_eq_iff {seen : α → γ}
    (hseen : ∀ x y, layout.head x = layout.head y ∧ layout.tail x = layout.tail y ↔
      seen x = seen y) {l l' : List α} (h : ∀ x ∈ l, layout.Plain x)
    (h' : ∀ x ∈ l', layout.Plain x) :
    layout.print l = layout.print l' ↔ l.map seen = l'.map seen := by
  have hpairs : ∀ x y, (layout.head x, layout.tail x) = (layout.head y, layout.tail y) ↔
      seen x = seen y := fun x y => Prod.mk.injEq .. ▸ hseen x y
  constructor
  · intro heq
    have hlines := endLines_inj (oneLine_blocks h) (oneLine_blocks h') heq
    rw [← map_eq_map_iff hpairs]
    exact blocks_inj layout.mark_head layout.mark_tail (List.append_cancel_left hlines)
  · intro heq
    rw [← map_eq_map_iff hpairs] at heq
    have hblocks : ∀ l, blocks layout.head layout.tail l =
        (l.map fun x => (layout.head x, layout.tail x)).flatMap fun p => p.1 :: p.2 := by
      intro l
      rw [List.flatMap_map]
      rfl
    rw [print, print, hblocks, hblocks, heq]

end Layout

section Numbers

theorem numeral_inj {b m n : ℕ} (hb : 1 < b) (hb' : b ≤ 16) :
    numeral b m = numeral b n ↔ m = n := by
  refine ⟨fun h => ?_, fun h => h ▸ rfl⟩
  rw [← digitsValue_numeral hb hb' m, h, digitsValue_numeral hb hb' n]

theorem notMem_numeral {b n : ℕ} (hb : 1 < b) (hb' : b ≤ 16) {c : Byte}
    (hc : digit? b c = none) : c ∉ numeral b n := by
  intro hmem
  have hdigit := isSome_digit?_of_mem_numeral hb hb' hmem
  rw [hc] at hdigit
  cases hdigit

/-- A number with a sign, as `%i` prints it. -/
def signed (i : ℤ) : List Byte :=
  if i < 0 then ascii '-' :: numeral 10 i.natAbs else numeral 10 i.natAbs

theorem signed_inj {i j : ℤ} : signed i = signed j ↔ i = j := by
  refine ⟨fun h => ?_, fun h => h ▸ rfl⟩
  have hminus : ∀ n, ascii '-' ∉ numeral 10 n := fun n =>
    notMem_numeral (by decide) (by decide) (by decide)
  unfold signed at h
  split_ifs at h with hi hj hj
  · have habs := (numeral_inj (by decide) (by decide)).1 (List.cons.inj h).2
    omega
  · exact absurd (h ▸ List.mem_cons_self) (hminus j.natAbs)
  · exact absurd (h.symm ▸ List.mem_cons_self) (hminus i.natAbs)
  · have habs := (numeral_inj (by decide) (by decide)).1 h
    omega

theorem notMem_signed {i : ℤ} {c : Byte} (hc : digit? 10 c = none) (hminus : c ≠ ascii '-') :
    c ∉ signed i := by
  have hnot : c ∉ numeral 10 i.natAbs := notMem_numeral (by decide) (by decide) hc
  unfold signed
  split_ifs
  · exact List.not_mem_cons_of_ne_of_not_mem hminus hnot
  · exact hnot

/-- A number in base sixteen, as `%#x` prints it: zero has no prefix. -/
def altHex (n : ℕ) : List Byte :=
  if n = 0 then [ascii '0'] else ascii '0' :: ascii 'x' :: numeral 16 n

theorem altHex_inj {m n : ℕ} : altHex m = altHex n ↔ m = n := by
  refine ⟨fun h => ?_, fun h => h ▸ rfl⟩
  unfold altHex at h
  split_ifs at h with hm hn hn
  · rw [hm, hn]
  · cases (List.cons.inj h).2
  · cases (List.cons.inj h).2
  · exact (numeral_inj (by decide) (by decide)).1 (List.cons.inj (List.cons.inj h).2).2

theorem notMem_altHex {n : ℕ} {c : Byte} (hc : digit? 16 c = none) (hx : c ≠ ascii 'x') :
    c ∉ altHex n := by
  have hzero : c ≠ ascii '0' := by
    rintro rfl
    exact absurd hc (by decide)
  have hnot : c ∉ numeral 16 n := notMem_numeral (by decide) (by decide) hc
  unfold altHex
  split_ifs
  · exact List.not_mem_cons_of_ne_of_not_mem hzero List.not_mem_nil
  · exact List.not_mem_cons_of_ne_of_not_mem hzero
      (List.not_mem_cons_of_ne_of_not_mem hx hnot)

end Numbers

end Stdio
