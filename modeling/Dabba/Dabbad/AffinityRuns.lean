import Dabba.Dabbad.Affinity

/-!
# Reading back a printed CPU set

The entries of a printed set cover it, and begin at its CPUs. They are read back
as the set when they cover nothing else and every number is below the largest
one; this is decided by the runs of the set alone.
-/

namespace Dabbad

open Posix Stdio

def Entry.first : Entry → ℕ
  | .one a => a
  | .range a _ => a
  | .stride a _ _ => a

def Entry.last : Entry → ℕ
  | .one a => a
  | .range _ b => b
  | .stride _ b _ => b

def Entry.Covers (e : Entry) (d : ℕ) : Prop :=
  e.first ≤ d ∧ d ≤ e.last

/-- The number of CPUs below `c` whose successor belongs to the set as well. -/
def adjacent {n : ℕ} (mask : CpuSet n) (c : ℕ) : ℕ :=
  Nat.count (fun j => mask.getLsbD j = true ∧ mask.getLsbD (j + 1) = true) c

/-- A run of the set begins at CPU `c`. -/
def RunStart {n : ℕ} (mask : CpuSet n) (c : ℕ) : Prop :=
  mask.getLsbD c = true ∧ (c = 0 ∨ mask.getLsbD (c - 1) = false)

/-- From CPU `i` on the printed list denotes the set: the CPUs are below the
largest number, and a run behind two adjacent CPUs reaches to the last CPU,
with room for the excess. -/
def RoundTripsFrom {n : ℕ} (mask : CpuSet n) (i : ℕ) : Prop :=
  (∀ d, i ≤ d → mask.getLsbD d = true → d + 1 < 2 ^ 32) ∧
    ∀ c, i ≤ c → RunStart mask c → 0 < adjacent mask c →
      (∀ d, c ≤ d → d < n → mask.getLsbD d = true) ∧
        n + adjacent mask c < 2 ^ 32

/-- The printed list denotes the set. -/
def RoundTrips {n : ℕ} (mask : CpuSet n) : Prop :=
  RoundTripsFrom mask 0

/-- An entry covers only CPUs of the set, and its numbers are below the largest
one. -/
def Fine {n : ℕ} (mask : CpuSet n) (e : Entry) : Prop :=
  e.last + 1 < 2 ^ 32 ∧ ∀ d, d < n → e.Covers d → mask.getLsbD d = true

section

variable {n : ℕ} (mask : CpuSet n)

theorem runLength_spec (fuel j : ℕ) :
    (∀ d, j ≤ d → d < j + runLength mask fuel j → mask.getLsbD d = true) ∧
      (runLength mask fuel j < fuel → mask.getLsbD (j + runLength mask fuel j) = false) ∧
      runLength mask fuel j ≤ fuel := by
  induction fuel generalizing j with
  | zero => exact ⟨fun d h h' => absurd h (not_le.2 h'), fun h => absurd h (lt_irrefl 0), le_rfl⟩
  | succ fuel ih =>
      obtain ⟨hall, hnext, hle⟩ := ih (j + 1)
      by_cases hmem : mask.getLsbD j = true
      · rw [runLength, if_pos hmem]
        refine ⟨fun d hd hlt => ?_, fun hlt => ?_, by omega⟩
        · rcases Nat.eq_or_lt_of_le hd with rfl | hd
          · exact hmem
          · exact hall d hd (by omega)
        · have h := hnext (by omega)
          rwa [add_right_comm] at h
      · rw [runLength, if_neg hmem]
        exact ⟨fun d h h' => absurd h (by omega), fun _ => by simpa using hmem,
          Nat.zero_le _⟩

theorem runLength_run {i : ℕ} (hi : i < n) (hmem : mask.getLsbD i = true) :
    (∀ d, i ≤ d → d ≤ i + runLength mask (n - (i + 1)) (i + 1) →
        mask.getLsbD d = true) ∧
      mask.getLsbD (i + runLength mask (n - (i + 1)) (i + 1) + 1) = false := by
  obtain ⟨hall, hnext, hle⟩ := runLength_spec mask (n - (i + 1)) (i + 1)
  refine ⟨fun d hd hlt => ?_, ?_⟩
  · rcases Nat.eq_or_lt_of_le hd with rfl | hd
    · exact hmem
    · exact hall d hd (by omega)
  · rcases Nat.lt_or_ge (runLength mask (n - (i + 1)) (i + 1)) (n - (i + 1)) with h | h
    · have hfalse := hnext h
      rwa [add_right_comm] at hfalse
    · exact BitVec.getLsbD_of_ge _ _ (by omega)

theorem adjacent_succ (c : ℕ) :
    adjacent mask (c + 1) = adjacent mask c +
      if mask.getLsbD c = true ∧ mask.getLsbD (c + 1) = true then 1 else 0 :=
  Nat.count_succ _ c

theorem adjacent_succ_of_not {i : ℕ} (h : mask.getLsbD i = false) :
    adjacent mask (i + 1) = adjacent mask i := by
  rw [adjacent_succ, h, if_neg (fun hboth => Bool.false_ne_true hboth.1), Nat.add_zero]

theorem adjacent_run {i l : ℕ}
    (hrun : ∀ d, i ≤ d → d ≤ i + l → mask.getLsbD d = true)
    (hend : mask.getLsbD (i + l + 1) = false) :
    adjacent mask (i + l + 1) = adjacent mask i + l := by
  have hinner : ∀ k, k ≤ l → adjacent mask (i + k) = adjacent mask i + k := by
    intro k
    induction k with
    | zero => simp
    | succ k ih =>
        intro hk
        have hboth : mask.getLsbD (i + k) = true ∧ mask.getLsbD (i + k + 1) = true :=
          ⟨hrun _ (by omega) (by omega), hrun _ (by omega) (by omega)⟩
        rw [← Nat.add_assoc, adjacent_succ, if_pos hboth, ih (by omega), Nat.add_assoc]
  rw [adjacent_succ, hinner l le_rfl, hend,
    if_neg (fun hboth => Bool.false_ne_true hboth.2), Nat.add_zero]

end

theorem covers_runEntries (i r d : ℕ) :
    (∃ e ∈ runEntries i r, e.Covers d) ↔ i ≤ d ∧ d ≤ i + r := by
  rw [runEntries]
  split_ifs with h0 h1
  · simp only [List.mem_singleton, exists_eq_left, Entry.Covers, Entry.first, Entry.last]
    omega
  · simp only [List.mem_cons, List.not_mem_nil, or_false, exists_eq_or_imp,
      exists_eq_left, Entry.Covers, Entry.first, Entry.last]
    omega
  · simp only [List.mem_singleton, exists_eq_left, Entry.Covers, Entry.first, Entry.last]

theorem last_runEntries (i r k : ℕ) :
    (∀ e ∈ runEntries i r, e.last < k) ↔ i + r < k := by
  rw [runEntries]
  split_ifs with h0 h1
  · simp only [List.forall_mem_singleton, Entry.last]
    omega
  · simp only [List.mem_cons, List.not_mem_nil, or_false, forall_eq_or_imp, forall_eq,
      Entry.last]
    omega
  · simp only [List.forall_mem_singleton, Entry.last]

section

variable {n : ℕ} (mask : CpuSet n)

theorem fine_runEntries (i r : ℕ) :
    (∀ e ∈ runEntries i r, Fine mask e) ↔
      i + r + 1 < 2 ^ 32 ∧
        ∀ d, d < n → i ≤ d → d ≤ i + r → mask.getLsbD d = true := by
  have hlast := last_runEntries i r (2 ^ 32 - 1)
  constructor
  · intro h
    refine ⟨?_, fun d hd hid hdr => ?_⟩
    · have := hlast.1 fun e he => by
        have hfine := (h e he).1
        omega
      omega
    · obtain ⟨e, he, hcovers⟩ := (covers_runEntries i r d).2 ⟨hid, hdr⟩
      exact (h e he).2 d hd hcovers
  · rintro ⟨hlt, hall⟩ e he
    have hbound := hlast.2 (by omega) e he
    refine ⟨by omega, fun d hd hcovers => ?_⟩
    obtain ⟨hid, hdr⟩ := (covers_runEntries i r d).1 ⟨e, he, hcovers⟩
    exact hall d hd hid hdr

theorem roundTripsFrom_succ_of_not {i : ℕ} (h : mask.getLsbD i = false) :
    RoundTripsFrom mask i ↔ RoundTripsFrom mask (i + 1) := by
  have hne : ∀ d, i ≤ d → mask.getLsbD d = true → i + 1 ≤ d := by
    intro d hd hmem
    rcases Nat.eq_or_lt_of_le hd with rfl | hlt
    · rw [h] at hmem
      cases hmem
    · exact hlt
  constructor
  · rintro ⟨hlt, hstart⟩
    exact ⟨fun d hd => hlt d (by omega), fun c hc => hstart c (by omega)⟩
  · rintro ⟨hlt, hstart⟩
    exact ⟨fun d hd hmem => hlt d (hne d hd hmem) hmem,
      fun c hc hrun => hstart c (hne c hc hrun.1) hrun⟩

/-- A run that no adjacent CPUs precede is fine by itself. -/
theorem roundTripsFrom_run {i l : ℕ} (hzero : adjacent mask i = 0)
    (hrun : ∀ d, i ≤ d → d ≤ i + l → mask.getLsbD d = true) :
    RoundTripsFrom mask i ↔
      i + l + 1 < 2 ^ 32 ∧ RoundTripsFrom mask (i + l + 1) := by
  constructor
  · rintro ⟨hlt, hstart⟩
    exact ⟨hlt (i + l) (by omega) (hrun _ (by omega) le_rfl),
      fun d hd => hlt d (by omega), fun c hc => hstart c (by omega)⟩
  · rintro ⟨hl, hlt, hstart⟩
    refine ⟨fun d hd hmem => ?_, fun c hc hrs hpos => ?_⟩
    · rcases Nat.lt_or_ge (i + l) d with h | h
      · exact hlt d h hmem
      · omega
    · rcases Nat.lt_or_ge (i + l) c with h | h
      · exact hstart c h hrs hpos
      · -- Inside the run only its first CPU begins one.
        rcases Nat.eq_or_lt_of_le hc with rfl | hic
        · omega
        · rcases hrs.2 with rfl | hprev
          · omega
          · rw [hrun (c - 1) (by omega) (by omega)] at hprev
            cases hprev

/-- A run behind adjacent CPUs has to be the rest of the set. -/
theorem roundTripsFrom_behind {i : ℕ} (hstart : RunStart mask i)
    (hpos : 0 < adjacent mask i) :
    RoundTripsFrom mask i ↔
      (∀ d, i ≤ d → d < n → mask.getLsbD d = true) ∧
        n + adjacent mask i < 2 ^ 32 := by
  constructor
  · rintro ⟨-, h⟩
    exact h i le_rfl hstart hpos
  · rintro ⟨hall, hlt⟩
    refine ⟨fun d hd hmem => ?_, fun c hc hrs _ => ?_⟩
    · have hdn : d < n := BitVec.lt_of_getLsbD hmem
      omega
    · have hcn : c < n := BitVec.lt_of_getLsbD hrs.1
      rcases Nat.eq_or_lt_of_le hc with rfl | hic
      · exact ⟨hall, hlt⟩
      · rcases hrs.2 with rfl | hprev
        · omega
        · rw [hall (c - 1) (by omega) (by omega)] at hprev
          cases hprev

theorem entriesFrom_of_le {i : ℕ} (hi : n ≤ i) (fuel run : ℕ) :
    entriesFrom mask fuel i run = [] := by
  cases fuel with
  | zero => rfl
  | succ fuel => rw [entriesFrom, if_neg (by omega)]

theorem roundTripsFrom_of_le {i : ℕ} (hi : n ≤ i) : RoundTripsFrom mask i := by
  have hout : ∀ d, i ≤ d → mask.getLsbD d ≠ true := by
    intro d hd hmem
    have hdn : d < n := BitVec.lt_of_getLsbD hmem
    omega
  exact ⟨fun d hd hmem => absurd hmem (hout d hd),
    fun c hc hrs => absurd hrs.1 (hout c hc)⟩

/-- The entries printed from a CPU on are fine exactly when the set round-trips
from there. The invariant of the loop: `run` has counted the adjacent CPUs, and
the loop is not inside a run. -/
theorem fine_entriesFrom {fuel i run : ℕ} (hfuel : n ≤ fuel + i)
    (hrun : run = adjacent mask i) (hstart : mask.getLsbD i = true → RunStart mask i) :
    (∀ e ∈ entriesFrom mask fuel i run, Fine mask e) ↔ RoundTripsFrom mask i := by
  induction fuel generalizing i run with
  | zero =>
      rw [entriesFrom_of_le mask (by omega)]
      simpa using roundTripsFrom_of_le mask (by omega)
  | succ fuel ih =>
      rcases Nat.lt_or_ge i n with hi | hi
      swap
      · rw [entriesFrom_of_le mask hi]
        simpa using roundTripsFrom_of_le mask hi
      by_cases hmem : mask.getLsbD i = true
      swap
      · have hfalse : mask.getLsbD i = false := by simpa using hmem
        rw [entriesFrom, if_pos hi, if_neg hmem, roundTripsFrom_succ_of_not mask hfalse]
        refine ih (by omega) (by rw [adjacent_succ_of_not mask hfalse, hrun]) fun h => ?_
        exact ⟨h, .inr hfalse⟩
      obtain ⟨hall, hend⟩ := runLength_run mask hi hmem
      rw [entriesFrom, if_pos hi, if_pos hmem]
      dsimp only
      generalize runLength mask (n - (i + 1)) (i + 1) = l at hall hend ⊢
      rw [List.forall_mem_append, fine_runEntries]
      rcases Nat.eq_zero_or_pos run with rfl | hpos
      · have hcount := adjacent_run mask hall hend
        rw [← hrun] at hcount
        rw [Nat.zero_add] at hcount ⊢
        have hrest : (∀ e ∈ entriesFrom mask fuel (i + l + 1) l, Fine mask e) ↔
            RoundTripsFrom mask (i + l + 1) :=
          ih (by omega) hcount.symm fun h => by
            rw [hend] at h
            cases h
        rw [hrest, roundTripsFrom_run mask hrun.symm hall]
        exact and_congr_left fun _ => and_iff_left fun d _ => hall d
      · rw [roundTripsFrom_behind mask (hstart hmem) (by omega), ← hrun]
        have hlast : i + l < n := BitVec.lt_of_getLsbD (hall (i + l) (by omega) le_rfl)
        constructor
        · rintro ⟨⟨hlt, hcovered⟩, -⟩
          -- The excess covers the CPU behind the run, unless it is cut off.
          have hcut : n ≤ i + l + 1 := by
            by_contra hnot
            rw [hcovered (i + l + 1) (by omega) (by omega) (by omega)] at hend
            cases hend
          exact ⟨fun d hd hdn => hall d hd (by omega), by omega⟩
        · rintro ⟨hcovered, hlt⟩
          have hcut : n ≤ i + l + 1 := by
            by_contra hnot
            rw [hcovered (i + l + 1) (by omega) (by omega)] at hend
            cases hend
          refine ⟨⟨by omega, fun d hdn hd _ => hcovered d hd hdn⟩, ?_⟩
          rw [entriesFrom_of_le mask (by omega)]
          simp

/-- Every CPU of the set is covered. -/
theorem covers_entriesFrom {fuel i run : ℕ} (hfuel : n ≤ fuel + i) {d : ℕ} (hd : i ≤ d)
    (hmem : mask.getLsbD d = true) :
    ∃ e ∈ entriesFrom mask fuel i run, e.Covers d := by
  have hdn : d < n := BitVec.lt_of_getLsbD hmem
  induction fuel generalizing i run with
  | zero => omega
  | succ fuel ih =>
      rw [entriesFrom, if_pos (by omega)]
      by_cases hi : mask.getLsbD i = true
      · rw [if_pos hi]
        dsimp only
        generalize run + runLength mask (n - (i + 1)) (i + 1) = r
        simp only [List.mem_append, or_and_right, exists_or, covers_runEntries]
        rcases Nat.lt_or_ge (i + r) d with h | h
        · exact .inr (ih (by omega) h)
        · exact .inl ⟨hd, h⟩
      · rw [if_neg hi]
        rcases Nat.eq_or_lt_of_le hd with rfl | hlt
        · exact absurd hmem hi
        · exact ih (by omega) hlt

/-- The numbers of an entry are a CPU of the set, the number behind one, or end
a range less than twice as far. -/
def Entry.Printable (e : Entry) : Prop :=
  ∃ j l, mask.getLsbD j = true ∧ mask.getLsbD (j + l) = true ∧
    (e = .one j ∨ e = .one (j + 1) ∨ ∃ r, r ≤ j ∧ e = .range j (j + (r + l)))

theorem printable_entriesFrom {fuel i run : ℕ} (hrun : run ≤ i) :
    ∀ e ∈ entriesFrom mask fuel i run, e.Printable mask := by
  induction fuel generalizing i run with
  | zero => simp [entriesFrom]
  | succ fuel ih =>
      rcases Nat.lt_or_ge i n with hi | hi
      swap
      · rw [entriesFrom_of_le mask hi]
        simp
      by_cases hmem : mask.getLsbD i = true
      swap
      · rw [entriesFrom, if_pos hi, if_neg hmem]
        exact ih (by omega)
      obtain ⟨hall, -⟩ := runLength_run mask hi hmem
      rw [entriesFrom, if_pos hi, if_pos hmem]
      dsimp only
      generalize runLength mask (n - (i + 1)) (i + 1) = l at hall ⊢
      intro e he
      rcases List.mem_append.1 he with he | he
      · refine ⟨i, l, hmem, hall _ (by omega) le_rfl, ?_⟩
        rw [runEntries] at he
        split_ifs at he
        · exact .inl (List.mem_singleton.1 he)
        · rcases List.mem_pair.1 he with rfl | rfl
          · exact .inl rfl
          · exact .inr (.inl rfl)
        · exact .inr (.inr ⟨run, hrun, List.mem_singleton.1 he⟩)
      · exact ih (by omega) e he

end

section

variable {n : ℕ} {mask : CpuSet n} {e : Entry}

theorem Entry.Printable.bounded (he : e.Printable mask) (hlast : e.last + 1 < 2 ^ 32) :
    Bounded e.values ∧ ∀ d, InRange e.values d ↔ e.Covers d := by
  have hstride : 0 < (1 : BitVec 32).toNat := by decide
  have hone : ∀ a, a + 1 < 2 ^ 32 → Bounded (Entry.one a).values ∧
      ∀ d, InRange (Entry.one a).values d ↔ (Entry.one a).Covers d := by
    intro a ha
    have hread := toNat_strtoul_false (by omega : a < 2 ^ 32)
    exact ⟨⟨BitVec.le_refl _, hstride, by simpa [Entry.values, hread] using ha⟩,
      fun d => by simp [InRange, Entry.values, hread, Entry.Covers, Entry.first, Entry.last]⟩
  obtain ⟨j, l, -, -, rfl | rfl | ⟨r, -, rfl⟩⟩ := he
  · exact hone j hlast
  · exact hone (j + 1) hlast
  · rw [Entry.last] at hlast
    have hfirst := toNat_strtoul_false (by omega : j < 2 ^ 32)
    have hsecond := toNat_strtoul_false (by omega : j + (r + l) < 2 ^ 32)
    refine ⟨⟨?_, hstride, by simpa [Entry.values, hsecond] using hlast⟩, fun d => ?_⟩
    · rw [BitVec.le_def]
      simp [Entry.values, hfirst, hsecond]
    · simp [InRange, Entry.values, hfirst, hsecond, Entry.Covers, Entry.first, Entry.last]

theorem Entry.Printable.bounded_values (he : e.Printable mask)
    (h : e.values.1 ≤ e.values.2.1 ∧ e.values.2.1.toNat + 1 < 2 ^ 32) :
    Bounded e.values := by
  have hstride : e.values.2.2 = 1 := by
    obtain ⟨j, l, -, -, rfl | rfl | ⟨r, -, rfl⟩⟩ := he <;> rfl
  exact ⟨h.1, by rw [hstride]; decide, by rw [hstride]; exact h.2⟩

/-- A number that is too large is not read without an error: cut to 32 bits the
end of the range is in front of its beginning, or the range is never left. -/
theorem Entry.Printable.last_lt (he : e.Printable mask)
    (hmask : ∀ d, mask.getLsbD d = true → d + 1 < 2 ^ 32)
    (hle : e.values.1 ≤ e.values.2.1) (hlt : e.values.2.1.toNat + 1 < 2 ^ 32) :
    e.last + 1 < 2 ^ 32 := by
  obtain ⟨j, l, hj, hl, rfl | rfl | ⟨r, hr, rfl⟩⟩ := he
  · exact hmask j hj
  · have hj := hmask j hj
    have hread : (strtoul false (j + 1)).toNat = j + 1 := toNat_strtoul_false hj
    simpa [Entry.values, hread, Entry.last] using hlt
  · have hj := hmask j hj
    have hl := hmask (j + l) hl
    have hfirst := toNat_strtoul_false (by omega : j < 2 ^ 32)
    have hread : (strtoul false (j + (r + l))).toNat = (j + (r + l)) % 2 ^ 32 := by
      rw [strtoul_false (by omega), BitVec.toNat_ofNat]
    rw [BitVec.le_def] at hle
    simp only [Entry.values, hfirst, hread] at hle hlt
    rw [Entry.last]
    omega

end

section

variable {n : ℕ} {mask : CpuSet n}

/-- The printed entries are read as the set exactly when they are fine. -/
theorem tokenLoop_affinityEntries_iff :
    (∃ fuel, tokenLoop fuel (listStart (affinityEntries mask)) 0 = some (0, mask)) ↔
      ∀ e ∈ affinityEntries mask, Fine mask e := by
  have hprintable : ∀ e ∈ affinityEntries mask, e.Printable mask :=
    printable_entriesFrom mask (Nat.zero_le 0)
  have hcovered : ∀ d, mask.getLsbD d = true → ∃ e ∈ affinityEntries mask, e.Covers d :=
    fun d hd => covers_entriesFrom mask (by omega) (Nat.zero_le d) hd
  -- Entries with bounded numbers are read, and nothing else is.
  have hread : (∀ e ∈ affinityEntries mask, e.last + 1 < 2 ^ 32) →
      ∃ fuel m, tokenLoop fuel (listStart (affinityEntries mask)) (0 : CpuSet n) =
          some (0, m) ∧
        ∀ d, m.getLsbD d = true ↔ d < n ∧ ∃ e ∈ affinityEntries mask, e.Covers d := by
    intro hlast
    obtain ⟨fuel, m, hm, hbits⟩ := tokenLoop_listStart_of_bounded
      (fun e he => ((hprintable e he).bounded (hlast e he)).1) (0 : CpuSet n)
    refine ⟨fuel, m, hm, fun d => ?_⟩
    have hzero : (0 : CpuSet n).getLsbD d = false := BitVec.getLsbD_zero
    rw [hbits, hzero, eq_false Bool.false_ne_true, false_or]
    refine and_congr_right fun _ => exists_congr fun e => and_congr_right fun he => ?_
    exact ((hprintable e he).bounded (hlast e he)).2 d
  constructor
  · rintro ⟨fuel, h⟩
    have hvalues := of_tokenLoop_listStart h
    have hmask : ∀ d, mask.getLsbD d = true → d + 1 < 2 ^ 32 := by
      intro d hd
      obtain ⟨fuel', m, hm, hbits⟩ := tokenLoop_listStart_of_bounded
        (fun e he => (hprintable e he).bounded_values (hvalues e he)) (0 : CpuSet n)
      obtain rfl : mask = m := (Prod.ext_iff.1 (tokenLoop_unique h hm)).2
      have hzero : (0 : CpuSet n).getLsbD d = false := BitVec.getLsbD_zero
      rw [hbits, hzero, eq_false Bool.false_ne_true, false_or] at hd
      obtain ⟨-, e, he, -, hdb, -⟩ := hd
      have hb := (hvalues e he).2
      omega
    have hlast : ∀ e ∈ affinityEntries mask, e.last + 1 < 2 ^ 32 := fun e he =>
      (hprintable e he).last_lt hmask (hvalues e he).1 (hvalues e he).2
    obtain ⟨fuel', m, hm, hbits⟩ := hread hlast
    obtain rfl : mask = m := (Prod.ext_iff.1 (tokenLoop_unique h hm)).2
    exact fun e he => ⟨hlast e he, fun d hdn hcovers => (hbits d).2 ⟨hdn, e, he, hcovers⟩⟩
  · intro hfine
    obtain ⟨fuel, m, hm, hbits⟩ := hread fun e he => (hfine e he).1
    have heq : m = mask := by
      refine BitVec.eq_of_getLsbD_eq fun d hd => Bool.eq_iff_iff.2 ?_
      rw [hbits]
      constructor
      · rintro ⟨hdn, e, he, hcovers⟩
        exact (hfine e he).2 d hdn hcovers
      · exact fun hmem => ⟨hd, hcovered d hmem⟩
    exact ⟨fuel, heq ▸ hm⟩

theorem null_notMem_listText (es : List Entry) : (0 : Byte) ∉ listText es := by
  rw [listText_eq]
  exact null_notMem_tokensText _

theorem listText_ne_nil {es : List Entry} (hes : es ≠ []) : listText es ≠ [] := by
  have htext : ∀ e : Entry, e.text ≠ [] := by
    intro e
    cases e <;> simp [Entry.text, numeral_ne_nil]
  obtain ⟨e, es, rfl⟩ := List.exists_cons_of_ne_nil hes
  cases es with
  | nil => exact htext e
  | cons e' es => simp [listText]

theorem affinityEntries_ne_nil (hmask : mask ≠ 0) : affinityEntries mask ≠ [] := by
  intro hnil
  refine hmask (BitVec.eq_of_getLsbD_eq fun d _ => ?_)
  cases hd : mask.getLsbD d with
  | false => exact BitVec.getLsbD_zero.symm
  | true =>
      have hcovers : ∃ e ∈ affinityEntries mask, e.Covers d :=
        covers_entriesFrom mask (by omega) (Nat.zero_le d) hd
      rw [hnil] at hcovers
      obtain ⟨e, he, -⟩ := hcovers
      cases he

/-- A CPU set that is not empty is read back from the buffer it was printed to
exactly when its runs allow it. -/
theorem str2cpuAffinity_cpuAffinity2str_iff (hmask : mask ≠ 0) {str : List Byte}
    {len : BitVec 64} (hlen : str.length = len.toNat)
    (hfit : (listText (affinityEntries mask)).length < len.toNat) :
    ∃ out, cpuAffinity2str mask str len = some out ∧
      ((∃ fuel, str2cpuAffinity n fuel out.str = some (0, mask)) ↔ RoundTrips mask) := by
  obtain ⟨out, hout, hprinted⟩ := cpuAffinity2str_printed mask len hlen hfit
  have hne := affinityEntries_ne_nil hmask
  have hstring : cstring out.str = listText (affinityEntries mask) :=
    hprinted.takeWhile_ne (listText_ne_nil hne) (null_notMem_listText _)
  have hstart : some (listText (affinityEntries mask)) =
      listStart (affinityEntries mask) := by
    rw [listStart, if_neg hne]
  have hempty : adjacent mask 0 = 0 := Nat.count_zero _
  refine ⟨out, hout, ?_⟩
  simp only [str2cpuAffinity, hstring, hstart]
  rw [tokenLoop_affinityEntries_iff]
  exact fine_entriesFrom mask (by omega) hempty.symm fun h => ⟨h, .inl rfl⟩

end

/-- The CPUs 0, 2 and 5 to 7. -/
def singlesThenRun : CpuSet 1024 := 0b11100101

/-- The set is printed as `0,2,5-7` and read back. -/
theorem str2cpuAffinity_cpuAffinity2str_iff_singlesThenRun :
    ∃ out, cpuAffinity2str singlesThenRun (List.replicate 128 0) 128 = some out ∧
      ((∃ fuel, str2cpuAffinity 1024 fuel out.str = some (0, singlesThenRun)) ↔
        RoundTrips singlesThenRun) :=
  str2cpuAffinity_cpuAffinity2str_iff (by decide +kernel) (by decide +kernel)
    (by decide +kernel)

def twoRuns : CpuSet 1024 := 0b1011

/-- The set is printed as `0,1,3,4`: the second run is counted on from the
first. -/
theorem not_str2cpuAffinity_cpuAffinity2str_twoRuns :
    twoRuns ≠ 0 ∧ ∃ out, cpuAffinity2str twoRuns (List.replicate 128 0) 128 = some out ∧
      ¬ ∃ fuel, str2cpuAffinity 1024 fuel out.str = some (0, twoRuns) := by
  let text : List Byte := ['0', ',', '1', ',', '3', ',', '4'].map ascii
  let out : Out := ⟨text ++ List.replicate 121 0, 7⟩
  have hout : cpuAffinity2str twoRuns (List.replicate 128 0) 128 = some out := by
    decide +kernel
  have hread : str2cpuAffinity 1024 8 out.str = some (0, 0b11011) := by
    decide +kernel
  refine ⟨by decide +kernel, out, hout, ?_⟩
  rintro ⟨fuel, h⟩
  have heq : twoRuns = 0b11011 := (Prod.ext_iff.1 (tokenLoop_unique h hread)).2
  exact absurd heq (by decide +kernel)

end Dabbad
