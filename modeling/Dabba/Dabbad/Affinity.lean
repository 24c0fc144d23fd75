import Dabba.Dabbad.CpuTokens
import Dabba.Stdio.Print
import Mathlib.Data.Nat.Count

/-!
# Printing a CPU set

`cpuAffinity2str` prints a CPU set as a CPU list: a run of one CPU as a number,
of two as two numbers and a longer one as a range. The length of the run is
counted in a variable that is never cleared, so it goes on from the runs printed
before. The list is therefore read back as the set exactly when a run behind two
adjacent CPUs reaches to the last CPU, where the excess is cut off, and the
numbers stay below the largest one the range loop can leave.
-/

namespace Dabbad

open Posix Stdio

/-- The inner loop: the number of CPUs of the set from `j` on, without a gap. -/
def runLength {n : ℕ} (mask : CpuSet n) : ℕ → ℕ → ℕ
  | 0, _ => 0
  | fuel + 1, j => if mask.getLsbD j then runLength mask fuel (j + 1) + 1 else 0

/-- The outer loop of `cpuAffinity2str` from CPU `i` on. A set occupies memory,
so its CPUs and `run` are counted without overflow. -/
def cpuAffinity2strLoop {n : ℕ} (mask : CpuSet n) (len : BitVec 64) :
    ℕ → ℕ → ℕ → Bool → Out → Option Out
  | 0, _, _, _, out => some out
  | fuel + 1, i, run, trailSep, out =>
      if i < n then
        if mask.getLsbD i then do
          -- `run` is not cleared, it goes on from the last entry.
          let run := run + runLength mask (n - (i + 1)) (i + 1)
          let out ← if trailSep then snprintf len [ascii ','] out else some out
          if run = 0 then
            let out ← snprintf len (numeral 10 i) out
            cpuAffinity2strLoop mask len fuel (i + 1) run true out
          else if run = 1 then
            let out ← snprintf len (numeral 10 i ++ ascii ',' :: numeral 10 (i + 1)) out
            cpuAffinity2strLoop mask len fuel (i + 1 + 1) run true out
          else
            let out ← snprintf len (numeral 10 i ++ ascii '-' :: numeral 10 (i + run)) out
            cpuAffinity2strLoop mask len fuel (i + run + 1) run true out
        else cpuAffinity2strLoop mask len fuel (i + 1) run trailSep out
      else some out

/-- Prints a CPU set into a buffer of `len` bytes. -/
def cpuAffinity2str {n : ℕ} (mask : CpuSet n) (str : List Byte) (len : BitVec 64) :
    Option Out :=
  cpuAffinity2strLoop mask len n 0 0 false ⟨str, 0⟩

/-- The entries printed for a run that begins at `i` when `run` was counted. -/
def runEntries (i run : ℕ) : List Entry :=
  if run = 0 then [.one i]
  else if run = 1 then [.one i, .one (i + 1)]
  else [.range i (i + run)]

/-- The entries printed from CPU `i` on. -/
def entriesFrom {n : ℕ} (mask : CpuSet n) : ℕ → ℕ → ℕ → List Entry
  | 0, _, _ => []
  | fuel + 1, i, run =>
      if i < n then
        if mask.getLsbD i then
          let run := run + runLength mask (n - (i + 1)) (i + 1)
          runEntries i run ++ entriesFrom mask fuel (i + run + 1) run
        else entriesFrom mask fuel (i + 1) run
      else []

def affinityEntries {n : ℕ} (mask : CpuSet n) : List Entry :=
  entriesFrom mask n 0 0

theorem runEntries_ne_nil (i run : ℕ) : runEntries i run ≠ [] := by
  rw [runEntries]
  split_ifs <;> simp

theorem listText_append {es es' : List Entry} (hes : es ≠ []) (hes' : es' ≠ []) :
    listText (es ++ es') = listText es ++ ascii ',' :: listText es' := by
  induction es with
  | nil => exact absurd rfl hes
  | cons e es ih =>
      cases es with
      | nil =>
          obtain ⟨e', es', rfl⟩ := List.exists_cons_of_ne_nil hes'
          rfl
      | cons e₂ es =>
          have htail := ih (by simp)
          rw [List.cons_append, List.cons_append] at *
          rw [listText, htail, listText, List.append_assoc, List.cons_append]

theorem length_listText_le (es es' : List Entry) :
    (listText es).length ≤ (listText (es ++ es')).length := by
  rcases eq_or_ne es [] with rfl | hes
  · exact Nat.zero_le _
  · rcases eq_or_ne es' [] with rfl | hes'
    · rw [List.append_nil]
    · rw [listText_append hes hes', List.length_append]
      omega

section

variable {n : ℕ} (mask : CpuSet n) (len : BitVec 64)

theorem cpuAffinity2strLoop_of_mem {fuel i run : ℕ} {trailSep : Bool} {out : Out}
    (hi : i < n) (hmem : mask.getLsbD i = true) :
    cpuAffinity2strLoop mask len (fuel + 1) i run trailSep out =
      (if trailSep then snprintf len [ascii ','] out else some out).bind fun out =>
        (snprintf len (listText (runEntries i
            (run + runLength mask (n - (i + 1)) (i + 1)))) out).bind fun out =>
          cpuAffinity2strLoop mask len fuel
            (i + (run + runLength mask (n - (i + 1)) (i + 1)) + 1)
            (run + runLength mask (n - (i + 1)) (i + 1)) true out := by
  rw [cpuAffinity2strLoop, if_pos hi, if_pos hmem]
  generalize run + runLength mask (n - (i + 1)) (i + 1) = r
  match r with
  | 0 => cases trailSep <;> rfl
  | 1 => cases trailSep <;> rfl
  | r + 2 =>
      have hentries : runEntries i (r + 2) = [.range i (i + (r + 2))] := by
        rw [runEntries, if_neg (by omega), if_neg (by omega)]
      rw [hentries]
      cases trailSep <;> rfl

/-- The comma and the entries of a run go behind the list. -/
theorem snprintf_runEntries {es : List Entry} {out : Out} (i run : ℕ)
    (h : Printed len (listText es) out)
    (hfit : (listText (es ++ runEntries i run)).length < len.toNat) :
    ∃ out₁ out₂, (if !es.isEmpty then snprintf len [ascii ','] out else some out) =
        some out₁ ∧
      snprintf len (listText (runEntries i run)) out₁ = some out₂ ∧
      Printed len (listText (es ++ runEntries i run)) out₂ := by
  cases es with
  | nil =>
      obtain ⟨out₂, hrun, hout₂⟩ := snprintf_of_printed h hfit
      exact ⟨out, out₂, rfl, hrun, hout₂⟩
  | cons e es =>
      have htext : listText (e :: es ++ runEntries i run) =
          (listText (e :: es) ++ [ascii ',']) ++ listText (runEntries i run) := by
        rw [listText_append (by simp) (runEntries_ne_nil i run), List.append_assoc]
        rfl
      rw [htext] at hfit ⊢
      obtain ⟨out₁, hcomma, hout₁⟩ := snprintf_of_printed h (t := [ascii ','])
        (lt_of_le_of_lt (by simp only [List.length_append]; omega) hfit)
      obtain ⟨out₂, hrun, hout₂⟩ := snprintf_of_printed hout₁ hfit
      exact ⟨out₁, out₂, hcomma, hrun, hout₂⟩

/-- While the text fits, the loop prints the entries behind the list. -/
theorem cpuAffinity2strLoop_printed (fuel i run : ℕ) (es : List Entry) {out : Out}
    (h : Printed len (listText es) out)
    (hfit : (listText (es ++ entriesFrom mask fuel i run)).length < len.toNat) :
    ∃ out', cpuAffinity2strLoop mask len fuel i run (!es.isEmpty) out = some out' ∧
      Printed len (listText (es ++ entriesFrom mask fuel i run)) out' := by
  induction fuel generalizing i run es out with
  | zero =>
      rw [entriesFrom, List.append_nil]
      exact ⟨out, rfl, h⟩
  | succ fuel ih =>
      by_cases hi : i < n
      · by_cases hmem : mask.getLsbD i = true
        · rw [entriesFrom, if_pos hi, if_pos hmem] at hfit ⊢
          dsimp only at hfit ⊢
          rw [cpuAffinity2strLoop_of_mem mask len hi hmem]
          generalize run + runLength mask (n - (i + 1)) (i + 1) = r at hfit ⊢
          rw [← List.append_assoc] at hfit ⊢
          obtain ⟨out₁, out₂, hcomma, hrun, hout₂⟩ := snprintf_runEntries len i r h
            (lt_of_le_of_lt (length_listText_le _ _) hfit)
          obtain ⟨out', hloop, hout'⟩ := ih _ r _ hout₂ hfit
          refine ⟨out', ?_, hout'⟩
          have hsep : (!(es ++ runEntries i r).isEmpty) = true := by
            simp [runEntries_ne_nil]
          rw [hsep] at hloop
          rw [hcomma, Option.bind_some, hrun, Option.bind_some, hloop]
        · rw [entriesFrom, if_pos hi, if_neg hmem] at hfit ⊢
          obtain ⟨out', hloop, hout'⟩ := ih (i + 1) run es h hfit
          refine ⟨out', ?_, hout'⟩
          rw [cpuAffinity2strLoop, if_pos hi, if_neg hmem, hloop]
      · rw [entriesFrom, if_neg hi, List.append_nil]
        exact ⟨out, by rw [cpuAffinity2strLoop, if_neg hi], h⟩

theorem cpuAffinity2str_printed {str : List Byte} (hlen : str.length = len.toNat)
    (hfit : (listText (affinityEntries mask)).length < len.toNat) :
    ∃ out, cpuAffinity2str mask str len = some out ∧
      Printed len (listText (affinityEntries mask)) out :=
  cpuAffinity2strLoop_printed mask len n 0 0 [] (printed_nil hlen) hfit

end

end Dabbad
