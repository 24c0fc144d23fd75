import Dabba.Dabbad.AffinityRuns
import Mathlib.Algebra.Order.BigOperators.Group.Finset
import Mathlib.Order.Interval.Finset.Nat

/-!
# The buffer a CPU set is printed into

`cpuAffinity2str` adds what each `snprintf` would have printed to its offset and never
compares the offset with the length of the buffer. The calls it makes are determined by
the set alone, so whether they stay inside the buffer is a question about the length of
the text.
-/

namespace Dabbad

open Posix Stdio

/-- The texts printed from CPU `i` on, one for each call of `snprintf`. -/
def textsFrom {n : ℕ} (mask : CpuSet n) : ℕ → ℕ → ℕ → Bool → List (List Byte)
  | 0, _, _, _ => []
  | fuel + 1, i, run, trailSep =>
      if i < n then
        if mask.getLsbD i then
          let run := run + runLength mask (n - (i + 1)) (i + 1)
          (if trailSep then [[ascii ',']] else []) ++
            listText (runEntries i run) :: textsFrom mask fuel (i + run + 1) run true
        else textsFrom mask fuel (i + 1) run trailSep
      else []

def printedTexts {n : ℕ} (mask : CpuSet n) : List (List Byte) :=
  textsFrom mask n 0 0 false

section

variable {n : ℕ} (mask : CpuSet n) (len : BitVec 64)

theorem cpuAffinity2strLoop_eq (fuel i run : ℕ) (trailSep : Bool) (out : Out) :
    cpuAffinity2strLoop mask len fuel i run trailSep out =
      printAll len (textsFrom mask fuel i run trailSep) out := by
  induction fuel generalizing i run trailSep out with
  | zero => rfl
  | succ fuel ih =>
      by_cases hi : i < n
      · by_cases hmem : mask.getLsbD i = true
        · rw [cpuAffinity2strLoop_of_mem mask len hi hmem, textsFrom, if_pos hi,
            if_pos hmem]
          simp only [ih]
          cases trailSep <;> rfl
        · rw [cpuAffinity2strLoop, if_pos hi, if_neg hmem, ih, textsFrom, if_pos hi,
            if_neg hmem]
      · rw [cpuAffinity2strLoop, if_neg hi, textsFrom, if_neg hi]
        rfl

theorem cpuAffinity2str_eq (str : List Byte) :
    cpuAffinity2str mask str len = printAll len (printedTexts mask) ⟨str, 0⟩ :=
  cpuAffinity2strLoop_eq mask len n 0 0 false ⟨str, 0⟩

/-- The texts put together are the text of the entries. -/
theorem flatten_textsFrom (fuel i run : ℕ) (es : List Entry) :
    listText es ++ (textsFrom mask fuel i run (!es.isEmpty)).flatten =
      listText (es ++ entriesFrom mask fuel i run) := by
  induction fuel generalizing i run es with
  | zero => simp [textsFrom, entriesFrom]
  | succ fuel ih =>
      by_cases hi : i < n
      · by_cases hmem : mask.getLsbD i = true
        · rw [textsFrom, if_pos hi, if_pos hmem, entriesFrom, if_pos hi, if_pos hmem]
          dsimp only
          generalize run + runLength mask (n - (i + 1)) (i + 1) = r
          have hne := runEntries_ne_nil i r
          have hsep : (!(es ++ runEntries i r).isEmpty) = true := by simp [hne]
          have hrest := ih (i + r + 1) r (es ++ runEntries i r)
          rw [hsep, List.append_assoc] at hrest
          rw [← hrest]
          cases es with
          | nil => rfl
          | cons e es =>
              rw [listText_append (List.cons_ne_nil e es) hne]
              simp
        · rw [textsFrom, if_pos hi, if_neg hmem, entriesFrom, if_pos hi, if_neg hmem, ih]
      · simp [textsFrom, entriesFrom, hi]

theorem flatten_printedTexts :
    (printedTexts mask).flatten = listText (affinityEntries mask) :=
  flatten_textsFrom mask n 0 0 []

/-- The set is printed, at every call of `snprintf` the offset is not behind the end of
the buffer, and every byte is written inside it. -/
def StaysInBuffer (str : List Byte) : Prop :=
  (cpuAffinity2str mask str len).isSome = true ∧
    PrintsInside len (printedTexts mask) ⟨str, 0⟩

theorem staysInBuffer_iff_offsetsFit {str : List Byte} (hlen : str.length = len.toNat) :
    StaysInBuffer mask len str ↔ OffsetsFit len.toNat 0 (printedTexts mask) := by
  rw [StaysInBuffer, ← printsInside_iff_offsetsFit hlen, and_iff_right_iff_imp,
    cpuAffinity2str_eq]
  intro h
  rcases List.eq_nil_or_concat (printedTexts mask) with hnil | ⟨pre, t, htexts⟩
  · rw [hnil]
    rfl
  · rw [List.concat_eq_append] at htexts
    obtain ⟨out₁, out₂, hout₁, -, hout₂⟩ := h pre t [] htexts
    rw [htexts, printAll_append, hout₁, Option.bind_some, printAll_cons, hout₂]
    rfl

/-- Where the whole text is shorter than `2 ^ 64`, it is enough to look at the last call:
the text in front of it fits the buffer. -/
theorem staysInBuffer_iff_of_lt {str : List Byte} (hlen : str.length = len.toNat)
    (htext : (listText (affinityEntries mask)).length < 2 ^ 64) :
    StaysInBuffer mask len str ↔
      (printedTexts mask).dropLast.flatten.length ≤ len.toNat := by
  rw [← flatten_printedTexts] at htext
  rw [staysInBuffer_iff_offsetsFit mask len hlen, ← printsInside_iff_offsetsFit hlen,
    printsInside_iff_of_lt hlen htext]

end

section Begins

variable {n : ℕ} (mask : CpuSet n)

/-- The CPUs of the set that follow CPU `c` without a gap. -/
def following (c : ℕ) : Finset ℕ :=
  (Finset.range n).filter fun d => c < d ∧ ∀ j ≤ d, c < j → mask.getLsbD j = true

/-- How far the entry at CPU `c` reaches behind it, where entries begin at the CPUs in `S`:
the CPUs that follow this entry or an earlier one, since the length of a run goes on from
the runs printed before. -/
def excess (S : Finset ℕ) (c : ℕ) : ℕ := ∑ s ∈ S with s ≤ c, (following mask s).card

/-- The printed entries begin at the CPUs in `S`: at every CPU of the set that no earlier
entry reaches. -/
def Begins (S : Finset ℕ) : Prop :=
  ∀ c, c ∈ S ↔ mask.getLsbD c = true ∧ ∀ s ∈ S, s < c → s + excess mask S s < c

/-- The number of characters of an entry `c`, `c,c+1` or `c-(c+r)`. -/
def entryWidth (c r : ℕ) : ℕ :=
  (numeral 10 c).length + if r = 0 then 0 else 1 + (numeral 10 (c + r)).length

/-- The number of characters in front of the entry at CPU `c`, each entry with its comma. -/
def widthBefore (S : Finset ℕ) (c : ℕ) : ℕ :=
  ∑ s ∈ S with s < c, (entryWidth s (excess mask S s) + 1)

variable {mask} {S S' : Finset ℕ} {c i : ℕ}

theorem filter_congr_mem {p : ℕ → Prop} [DecidablePred p] (h : ∀ s, p s → (s ∈ S ↔ s ∈ S')) :
    S.filter p = S'.filter p := by
  ext s
  simp only [Finset.mem_filter]
  exact and_congr_left (h s)

theorem excess_congr (h : ∀ s ≤ c, s ∈ S ↔ s ∈ S') : excess mask S c = excess mask S' c := by
  rw [excess, excess, filter_congr_mem h]

theorem widthBefore_congr (h : ∀ s < c, s ∈ S ↔ s ∈ S') :
    widthBefore mask S c = widthBefore mask S' c := by
  rw [widthBefore, widthBefore, filter_congr_mem h]
  refine Finset.sum_congr rfl fun s hs => ?_
  have hlt := (Finset.mem_filter.1 hs).2
  rw [excess_congr fun d hd => h d (hd.trans_lt hlt)]

theorem Begins.unique (h : Begins mask S) (h' : Begins mask S') : S = S' := by
  ext c
  induction c using Nat.strong_induction_on with
  | _ c ih =>
      rw [h c, h' c]
      refine and_congr_right fun _ => forall_congr' fun s => ?_
      have hexcess : s < c → excess mask S s = excess mask S' s := fun hlt =>
        excess_congr fun d hd => ih d (hd.trans_lt hlt)
      constructor
      · intro hall hs hlt
        rw [← hexcess hlt]
        exact hall ((ih s hlt).2 hs) hlt
      · intro hall hs hlt
        rw [hexcess hlt]
        exact hall ((ih s hlt).1 hs) hlt

theorem following_eq (hc : c < n) :
    following mask c = Finset.Ioc c (c + runLength mask (n - (c + 1)) (c + 1)) := by
  obtain ⟨hall, hnext, hle⟩ := runLength_spec mask (n - (c + 1)) (c + 1)
  ext d
  simp only [following, Finset.mem_filter, Finset.mem_range, Finset.mem_Ioc]
  constructor
  · rintro ⟨hd, hlt, hmem⟩
    refine ⟨hlt, not_lt.1 fun hbehind => ?_⟩
    have hfalse := hnext (by omega)
    rw [hmem _ (by omega) (by omega)] at hfalse
    cases hfalse
  · rintro ⟨hlt, hd⟩
    exact ⟨by omega, hlt, fun j hj hcj => hall j hcj (by omega)⟩

theorem card_following (hc : c < n) :
    (following mask c).card = runLength mask (n - (c + 1)) (c + 1) := by
  rw [following_eq hc, Nat.card_Ioc, Nat.add_sub_cancel_left]

theorem length_listText_runEntries (c r : ℕ) :
    (listText (runEntries c r)).length = entryWidth c r := by
  rw [runEntries, entryWidth]
  split_ifs with h0 h1
  · rfl
  · simp only [listText, Entry.text, List.length_append, List.length_cons, h1]
    omega
  · simp only [listText, Entry.text, List.length_append, List.length_cons]
    omega

variable (mask) in
/-- `S` has the CPUs below `i` at which entries begin, and no entry reaches to `i`. -/
structure BeginsBelow (S : Finset ℕ) (i : ℕ) : Prop where
  lt : ∀ s ∈ S, s + excess mask S s < i
  mem_iff : ∀ c < i, c ∈ S ↔
    mask.getLsbD c = true ∧ ∀ s ∈ S, s < c → s + excess mask S s < c

namespace BeginsBelow

theorem mem_lt (h : BeginsBelow mask S i) {s : ℕ} (hs : s ∈ S) : s < i :=
  lt_of_le_of_lt (Nat.le_add_right _ _) (h.lt s hs)

theorem begins (h : BeginsBelow mask S i) (hi : n ≤ i) : Begins mask S := by
  intro c
  rcases Nat.lt_or_ge c i with hc | hc
  · exact h.mem_iff c hc
  · refine iff_of_false (fun hmem => (h.mem_lt hmem).not_ge hc) fun hmem => ?_
    have hcn : c < n := BitVec.lt_of_getLsbD hmem.1
    omega

theorem skip (h : BeginsBelow mask S i) (hi : mask.getLsbD i = false) :
    BeginsBelow mask S (i + 1) where
  lt s hs := (h.lt s hs).trans (Nat.lt_succ_self i)
  mem_iff c hc := by
    rcases Nat.lt_or_eq_of_le (Nat.lt_succ_iff.1 hc) with hc | rfl
    · exact h.mem_iff c hc
    · refine iff_of_false (fun hmem => (h.mem_lt hmem).false) fun hmem => ?_
      rw [hi] at hmem
      cases hmem.1

theorem excess_insert_of_lt (hci : c < i) : excess mask (insert i S) c = excess mask S c :=
  excess_congr fun s hs => by
    rw [Finset.mem_insert, or_iff_right (by omega)]

theorem excess_insert (h : BeginsBelow mask S i) (hci : i ≤ c) :
    excess mask (insert i S) c = excess mask S i + (following mask i).card := by
  have hall : (insert i S).filter (· ≤ c) = insert i S := Finset.filter_true_of_mem fun s hs => by
    rcases Finset.mem_insert.1 hs with rfl | hs
    · exact hci
    · exact (h.mem_lt hs).le.trans hci
  have hbelow : S.filter (· ≤ i) = S := Finset.filter_true_of_mem fun s hs => (h.mem_lt hs).le
  rw [excess, excess, hall, hbelow, Finset.sum_insert fun hmem => (h.mem_lt hmem).false,
    Nat.add_comm]

/-- The next entry begins at CPU `i`. -/
theorem extend (h : BeginsBelow mask S i) (hi : mask.getLsbD i = true) :
    BeginsBelow mask (insert i S) (i + excess mask (insert i S) i + 1) where
  lt s hs := by
    rcases Finset.mem_insert.1 hs with rfl | hs
    · exact Nat.lt_succ_self _
    · have hlt := h.lt s hs
      rw [excess_insert_of_lt (h.mem_lt hs)]
      omega
  mem_iff c hc := by
    rcases lt_trichotomy c i with hci | rfl | hic
    · rw [Finset.mem_insert, or_iff_right hci.ne, h.mem_iff c hci]
      refine and_congr_right fun _ => ⟨fun hall s hs hlt => ?_, fun hall s hs hlt => ?_⟩
      · rw [excess_insert_of_lt (hlt.trans hci)]
        exact hall s ((Finset.mem_insert.1 hs).resolve_left (hlt.trans hci).ne) hlt
      · rw [← excess_insert_of_lt (hlt.trans hci)]
        exact hall s (Finset.mem_insert_of_mem hs) hlt
    · refine iff_of_true (Finset.mem_insert_self _ _) ⟨hi, fun s hs hlt => ?_⟩
      rw [excess_insert_of_lt hlt]
      exact h.lt s ((Finset.mem_insert.1 hs).resolve_left hlt.ne)
    · -- The entry at `i` reaches `c`.
      refine iff_of_false (fun hmem => ?_) fun hmem => ?_
      · rcases Finset.mem_insert.1 hmem with rfl | hmem
        · exact hic.false
        · exact (h.mem_lt hmem).not_gt hic
      · have hreach := hmem.2 i (Finset.mem_insert_self _ _) hic
        omega

theorem excess_skip (h : BeginsBelow mask S i) :
    excess mask S (i + 1) = excess mask S i := by
  rw [excess, excess, Finset.filter_true_of_mem fun s hs => (h.mem_lt hs).le,
    Finset.filter_true_of_mem fun s hs => ((h.mem_lt hs).trans (Nat.lt_succ_self i)).le]

theorem widthBefore_pos (h : BeginsBelow mask S i) (hne : S.Nonempty) :
    0 < widthBefore mask S i := by
  obtain ⟨s, hs⟩ := hne
  exact Finset.sum_pos (fun _ _ => Nat.succ_pos _) ⟨s, Finset.mem_filter.2 ⟨hs, h.mem_lt hs⟩⟩

theorem widthBefore_skip (h : BeginsBelow mask S i) :
    widthBefore mask S (i + 1) = widthBefore mask S i := by
  rw [widthBefore, widthBefore]
  congr 1
  ext s
  simp only [Finset.mem_filter]
  refine and_congr_right fun hs => ?_
  have hlt := h.mem_lt hs
  omega

theorem widthBefore_insert (h : BeginsBelow mask S i) (hci : i < c) :
    widthBefore mask (insert i S) c = widthBefore mask S i +
      (entryWidth i (excess mask (insert i S) i) + 1) := by
  have hall : (insert i S).filter (· < c) = insert i S :=
    Finset.filter_true_of_mem fun s hs => by
      rcases Finset.mem_insert.1 hs with rfl | hs
      · exact hci
      · exact (h.mem_lt hs).trans hci
  have hbelow : S.filter (· < i) = S := Finset.filter_true_of_mem fun s hs => h.mem_lt hs
  rw [widthBefore, widthBefore, hall, hbelow,
    Finset.sum_insert fun hmem => (h.mem_lt hmem).false, Nat.add_comm]
  congr 1
  exact Finset.sum_congr rfl fun s hs => by rw [excess_insert_of_lt (h.mem_lt hs)]

end BeginsBelow

/-- In front of the entry at CPU `c`, and of the comma in front of it, the offset is modulo
`2 ^ 64` at most `len`. -/
def EntryFits {n : ℕ} (mask : CpuSet n) (len : ℕ) (S : Finset ℕ) (c : ℕ) : Prop :=
  (widthBefore mask S c - 1) % 2 ^ 64 ≤ len ∧ widthBefore mask S c % 2 ^ 64 ≤ len

theorem BeginsBelow.fits_behind {n : ℕ} {mask : CpuSet n} {S : Finset ℕ} {i off : ℕ}
    (h : BeginsBelow mask S i) (len : ℕ) :
    OffsetsFit len off [] ↔ ∀ c ∈ S, i ≤ c → EntryFits mask len S c :=
  iff_of_true trivial fun _ hc hle => absurd (h.mem_lt hc) hle.not_gt

theorem offsetsFit_entry {len width : ℕ} {t : List Byte} {ts : List (List Byte)}
    {trailSep : Bool} (hpos : trailSep = true → 0 < width) (hzero : trailSep = false → width = 0) :
    OffsetsFit len (width - 1) ((if trailSep then [[ascii ',']] else []) ++ t :: ts) ↔
      ((width - 1) % 2 ^ 64 ≤ len ∧ width % 2 ^ 64 ≤ len) ∧
        OffsetsFit len (width + t.length) ts := by
  cases trailSep with
  | true =>
      have hcomma : width - 1 + 1 = width := Nat.sub_add_cancel (hpos rfl)
      simp only [if_true, List.singleton_append, OffsetsFit, List.length_singleton, hcomma,
        and_assoc]
  | false =>
      rw [hzero rfl]
      simp only [Bool.false_eq_true, if_false, List.nil_append, OffsetsFit, Nat.zero_sub,
        Nat.zero_mod, zero_le, true_and]

theorem forall_entryFits_iff {n : ℕ} {mask : CpuSet n} {S S' : Finset ℕ} {len i k : ℕ}
    (h : BeginsBelow mask S i) (hik : i < k) (hbelow : ∀ c < k, c ∈ S' ↔ c ∈ insert i S) :
    (∀ c ∈ S', i ≤ c → EntryFits mask len S' c) ↔
      EntryFits mask len S' i ∧ ∀ c ∈ S', k ≤ c → EntryFits mask len S' c := by
  have hmem : i ∈ S' := (hbelow i hik).2 (Finset.mem_insert_self i S)
  refine ⟨fun hall => ⟨hall i hmem le_rfl, fun c hc hle => hall c hc (by omega)⟩, ?_⟩
  rintro ⟨hhere, hall⟩ c hc hle
  rcases Nat.lt_or_ge c k with hlt | hge
  · rcases Finset.mem_insert.1 ((hbelow c hlt).1 hc) with rfl | hc
    · exact hhere
    · exact absurd (h.mem_lt hc) (by omega)
  · exact hall c hc hge

/-- The entries printed from CPU `i` on begin at the CPUs of such a set, and each of their
calls finds its offset in front of the entry. -/
theorem exists_begins {n : ℕ} (mask : CpuSet n) {S : Finset ℕ} {fuel i run : ℕ}
    {trailSep : Bool} (hfuel : n ≤ fuel + i) (h : BeginsBelow mask S i)
    (hrun : run = excess mask S i) (hsep : trailSep = true ↔ S.Nonempty) :
    ∃ S', Begins mask S' ∧ (∀ c < i, c ∈ S' ↔ c ∈ S) ∧ ∀ len,
      (OffsetsFit len (widthBefore mask S i - 1) (textsFrom mask fuel i run trailSep) ↔
        ∀ c ∈ S', i ≤ c → EntryFits mask len S' c) := by
  induction fuel generalizing S i run trailSep with
  | zero => exact ⟨S, h.begins (by omega), fun _ _ => Iff.rfl, h.fits_behind⟩
  | succ fuel ih =>
      by_cases hi : i < n
      swap
      · rw [textsFrom, if_neg hi]
        exact ⟨S, h.begins (by omega), fun _ _ => Iff.rfl, h.fits_behind⟩
      by_cases hmem : mask.getLsbD i = true
      · have hexcess : run + runLength mask (n - (i + 1)) (i + 1) =
            excess mask (insert i S) i := by
          rw [h.excess_insert le_rfl, card_following hi, hrun]
        have hnext := h.extend hmem
        rw [textsFrom, if_pos hi, if_pos hmem]
        dsimp only
        rw [hexcess]
        generalize hr : excess mask (insert i S) i = r at hnext ⊢
        obtain ⟨S', hbegins, hbelow, hfits⟩ := @ih (insert i S) (i + r + 1) r true (by omega) hnext
          (by rw [← hr, h.excess_insert le_rfl, h.excess_insert (by omega)])
          (iff_of_true rfl (Finset.insert_nonempty i S))
        have hsame : ∀ c < i, c ∈ S' ↔ c ∈ S := fun c hc => by
          rw [hbelow c (by omega), Finset.mem_insert, or_iff_right hc.ne]
        have hwidth : widthBefore mask S' i = widthBefore mask S i := widthBefore_congr hsame
        refine ⟨S', hbegins, hsame, fun len => ?_⟩
        rw [forall_entryFits_iff h (by omega) hbelow, ← hfits len,
          h.widthBefore_insert (by omega), hr, ← length_listText_runEntries, EntryFits, hwidth]
        refine offsetsFit_entry (fun htrail => h.widthBefore_pos (hsep.1 htrail)) fun htrail => ?_
        have hempty : S = ∅ := Finset.not_nonempty_iff_eq_empty.1 fun hne =>
          Bool.false_ne_true (htrail.symm.trans (hsep.2 hne))
        rw [hempty]
        rfl
      · have hfalse : mask.getLsbD i = false := Bool.eq_false_of_not_eq_true hmem
        rw [textsFrom, if_pos hi, if_neg hmem]
        obtain ⟨S', hbegins, hbelow, hfits⟩ := ih (by omega) (h.skip hfalse)
          (hrun.trans h.excess_skip.symm) hsep
        refine ⟨S', hbegins, fun c hc => hbelow c (by omega), fun len => ?_⟩
        rw [← h.widthBefore_skip, hfits len]
        refine forall₂_congr fun c hc => ⟨fun hall hle => hall ?_, fun hall hle => hall (by omega)⟩
        refine lt_of_le_of_ne hle fun heq => ?_
        rw [← heq, hbelow i (by omega)] at hc
        exact (h.mem_lt hc).false

/-- Printing stays inside the buffer if and only if the entries of the set, which begin at
the CPUs that no earlier entry reaches, are so short that each of them, and the comma in
front of it, begins inside the buffer or right behind it (modulo `2 ^ 64`). -/
theorem staysInBuffer_iff {n : ℕ} (mask : CpuSet n) (len : BitVec 64) {str : List Byte}
    (hlen : str.length = len.toNat) :
    StaysInBuffer mask len str ↔
      ∃ S, Begins mask S ∧ ∀ c ∈ S, EntryFits mask len.toNat S c := by
  have hbelow : BeginsBelow mask ∅ 0 :=
    ⟨fun s hs => absurd hs (Finset.notMem_empty s), fun c hc => absurd hc (Nat.not_lt_zero c)⟩
  obtain ⟨S, hbegins, -, hfits⟩ := @exists_begins n mask ∅ n 0 0 false le_rfl hbelow rfl (by simp)
  rw [staysInBuffer_iff_offsetsFit mask len hlen]
  refine (hfits len.toNat).trans ⟨fun h => ⟨S, hbegins, fun c hc => h c hc (Nat.zero_le c)⟩, ?_⟩
  rintro ⟨S', hbegins', h⟩ c hc -
  rw [hbegins.unique hbegins'] at hc ⊢
  exact h c hc

end Begins

def evenCpus : CpuSet 1024 :=
  BitVec.ofNat 1024 ((2 ^ 1024 - 1) / 3)

theorem staysInBuffer_iff_evenCpus :
    StaysInBuffer evenCpus 128 (List.replicate 128 0) ↔
      ∃ S, Begins evenCpus S ∧ ∀ c ∈ S, EntryFits evenCpus (128 : BitVec 64).toNat S c :=
  staysInBuffer_iff evenCpus 128 List.length_replicate

/-- The set of every other CPU is written behind the end of a buffer of 128 bytes. -/
theorem not_staysInBuffer_evenCpus :
    cpuAffinity2str evenCpus (List.replicate 128 0) 128 = none ∧
      ¬ StaysInBuffer evenCpus 128 (List.replicate 128 0) := by
  have hnone : cpuAffinity2str evenCpus (List.replicate 128 0) 128 = none := by
    decide +kernel
  refine ⟨hnone, fun h => ?_⟩
  have hsome := h.1
  rw [hnone] at hsome
  cases hsome

end Dabbad
