import Dabba.Pcap.Attempt
import Dabba.Posix.Footprint

/-!
# What opening and creating a PCAP file touch

Whatever the outcomes, opening a file changes a descriptor that was free and no file.
Creating one empties the file that the path names, before its header is written, and
when the header cannot be written the path is removed.
-/

namespace Pcap

open Posix Program

variable {S : Type} {os os' : Os S} {path : Path} {fd : ℤ}

/-- What opening a file to append does, whatever its outcome. A descriptor that is
returned is at the end of the file, and nothing else has changed. -/
structure OpenedToAppend (os : Os S) (path : Path) (fd : ℤ) (os' : Os S) : Prop where
  within : Os.Within {fd | os.fds fd = none} ∅ ∅ os os'
  opened : 0 < fd → ∃ f, os'.fds fd = some (.file f) ∧ os.fds fd = none ∧
    os.dir path = some f.inode ∧ f.flags = oRdwr ∧
    f.offset = (os.data f.inode).length

theorem OpenedToAppend.failed (h : Os.Within {fd | os.fds fd = none} ∅ ∅ os os') :
    OpenedToAppend os path (-1) os' :=
  ⟨h, fun hpos => absurd hpos (by decide)⟩

theorem moves_pcapIsValid (fd : ℤ) : (pcapIsValid fd).Uses (FileCall.Moves fd) := by
  rw [pcapIsValid]
  split
  · simp [FileCall.Moves]
  · simp only [Prog.bind_eq, Prog.liftM_eq, Prog.perform_bind, Prog.uses_call]
    refine ⟨rfl, fun got => ?_⟩
    cases got with
    | none => simp [FileCall.Moves]
    | some bytes =>
        dsimp only
        split
        · simp [FileCall.Moves]
        · split
          · simp [FileCall.Moves]
          · simp

theorem wlp_ldabPcapOpen_append (path : Path) (os : Os S) :
    (ldabPcapOpen path (oRdwr ||| oAppend)).wlp Os.anySem (OpenedToAppend os path) os := by
  have happend : (oRdwr ||| oAppend) &&& oAppend = oAppend := by decide
  have hflags : (oRdwr ||| oAppend) &&& ~~~oAppend = oRdwr := by decide
  have hclose : ∀ {n : ℕ} {os₁ : Os S}, os.fds n = none → Os.Within {(n : ℤ)} ∅ ∅ os os₁ →
      ((ldabPcapClose n).bind fun _ => (Prog.ret (-1) : Prog FileCall ℤ)).wlp Os.anySem
        (OpenedToAppend os path) os₁ := by
    intro n os₁ hnone h₁
    simp only [ldabPcapClose, Prog.liftM_eq, Prog.wlp_bind]
    refine Prog.wlp_mono _ (Os.wlp_close_within _ _) fun rc os₂ h₂ => ?_
    have hboth := h₁.trans h₂
    exact .failed (hboth.mono (Set.singleton_subset_iff.2 hnone) le_rfl le_rfl)
  simp only [ldabPcapOpen, happend, if_true, hflags, Prog.bind_eq, Prog.liftM_eq,
    Prog.perform_bind, Prog.wlp_call]
  intro r os₁ hopen
  obtain ⟨rfl, h₁⟩ | ⟨n, i, rfl, hfresh, hdir, rfl⟩ := Os.openAt_cases hopen
  · exact .failed (h₁.mono (Set.empty_subset _) le_rfl le_rfl)
  · have hpos : (0 : ℤ) < n := hfresh.1
    have hinstall := Os.within_install os n (.file ⟨os.next, i, 0, oRdwr⟩)
    rw [if_neg (by omega)]
    refine Prog.wlp_bind_of _ (Os.wlp_moves (moves_pcapIsValid n) _) ?_
    rintro valid os₂ ⟨h₂, hmoved⟩
    obtain ⟨off, hfd⟩ := hmoved _ (Os.install_fds_self _ _ _)
    have hwithin := hinstall.trans h₂
    split
    · exact hclose hfresh.2 hwithin
    · intro off' os₃ hseek
      dsimp only
      by_cases hoff : off' < 0
      · have h₃ : Os.Within {(n : ℤ)} ∅ ∅ os₂ os₃ := by
          obtain ⟨o, -, heq⟩ := hseek
          have hop : FileCall.Moves n ℤ (.lseek n 0 .last) := rfl
          have hmoves := Os.within_moves hop os₂ o
          rwa [heq] at hmoves
        rw [if_pos hoff]
        exact hclose hfresh.2 (hwithin.trans h₃)
      · rw [if_neg hoff]
        rw [Os.lseek_last hfd hseek (by omega)]
        have hall := hwithin.trans (Os.within_seek ⟨os.next, i, off, oRdwr⟩
          (os₂.data i).length)
        refine ⟨hall.mono (Set.singleton_subset_iff.2 hfresh.2) le_rfl le_rfl,
          fun _ => ⟨_, Os.seek_fds_self _ _ _ _, hfresh.2, hdir, rfl, ?_⟩⟩
        rw [hwithin.data_eq]

/-- What creating a file does, whatever the outcomes. A descriptor that is returned is
behind the header, which is all there is in the file. -/
structure Created (os : Os S) (path : Path) (linktype : BitVec 32) (fd : ℤ) (os' : Os S) :
    Prop where
  within : Os.Within {fd | os.fds fd = none} {(os.truncated path).1} {os.resolve path} os os'
  created : 0 ≤ fd → os.fds fd = none ∧ os'.dir path = some (os.truncated path).1 ∧
    AtEnd os' fd (os.truncated path).1 (createdHeader linktype).bytes

theorem Created.failed {linktype : BitVec 32}
    (h : Os.Within {fd | os.fds fd = none} {(os.truncated path).1} {os.resolve path} os os') :
    Created os path linktype (-1) os' :=
  ⟨h, fun hpos => absurd hpos (by decide)⟩

theorem wlp_ldabPcapDestroy_within {n : ℕ} (hnone : os.fds n = none) {I : Set ℕ}
    (h : Os.Within {(n : ℤ)} I {os.resolve path} os os') :
    (ldabPcapDestroy n path).wlp Os.anySem
      (fun _ os' => Os.Within {fd | os.fds fd = none} I {os.resolve path} os os') os' := by
  simp only [ldabPcapDestroy, Prog.bind_eq, Prog.liftM_eq, Prog.wlp_bind, Prog.wlp_assert]
  refine fun _ => Prog.wlp_mono _ (Os.wlp_close_within _ _) fun _ os₁ h₁ => ?_
  rintro _ os₂ ⟨o, -, heq⟩
  have hunlink := Os.within_unlink os₁ path o
  rw [heq] at hunlink
  have hclosed := h.trans (h₁.mono le_rfl (Set.empty_subset _) (Set.empty_subset _))
  rw [hclosed.resolve] at hunlink
  have hall := hclosed.trans (hunlink.mono (Set.empty_subset _) (Set.empty_subset _) le_rfl)
  exact hall.mono (Set.singleton_subset_iff.2 hnone) le_rfl le_rfl

/-- Writing the file header through a descriptor at the start of an empty file. -/
theorem wlp_pcapFileHeaderWrite_empty {f : OpenFile} (hfd : os.fds fd = some (.file f))
    (hw : f.writable) (happend : f.flags &&& oAppend ≠ oAppend) (hoff : f.offset = 0)
    (hempty : os.data f.inode = []) (linktype : BitVec 32) :
    (pcapFileHeaderWrite fd linktype 0 pcapDefaultSnapshotLen).wlp Os.anySem
      (fun rc os' => Os.Within {fd} {f.inode} ∅ os os' ∧
        (rc = 0 → AtEnd os' fd f.inode (createdHeader linktype).bytes)) os := by
  simp only [pcapFileHeaderWrite, Prog.bind_eq, Prog.liftM_eq, Prog.wlp_bind,
    Prog.wlp_assert]
  rintro - written os' ⟨o, -, heq⟩
  rw [← createdHeader] at heq
  have hwithin := Os.within_write os fd (createdHeader linktype).bytes o
  have hwrote := Os.wrote_handle hfd hw happend (hoff ▸ Nat.zero_le _)
    (createdHeader linktype).bytes o
  have hret := Os.handle_write_eq_iff hfd hw happend (createdHeader linktype).bytes o
    (n := sizeofPcapFileHeader) (by decide)
  have hlen : (createdHeader linktype).bytes.length = sizeofPcapFileHeader :=
    PcapFileHeader.length_bytes _
  rw [heq] at hwithin hwrote hret
  have hfile : Os.Within {fd} {f.inode} ∅ os os' := by
    refine hwithin.mono le_rfl ?_ le_rfl
    rintro i ⟨f', hf', rfl⟩
    rw [hfd] at hf'
    cases hf'
    rfl
  by_cases hfull : written = sizeofPcapFileHeader
  · -- The whole header is in the file.
    rw [hret.1 hfull, ← hlen, List.take_length] at hwrote
    have hdata : os'.data f.inode = [] ++ (createdHeader linktype).bytes := by
      rw [hwrote.data_self, hempty, hoff]
      exact writeAt_length [] _
    rw [List.nil_append] at hdata
    simp only [hfull, ne_eq, not_true_eq_false, if_false, Prog.pure_eq, Prog.wlp_ret]
    exact ⟨hfile, fun _ => ⟨_, hwrote.fds_self, rfl, hw, happend, by rw [hoff, Nat.zero_add],
      hdata⟩⟩
  · simp only [ne_eq, hfull, not_false_eq_true, if_true, Prog.pure_eq, Prog.wlp_ret]
    exact ⟨hfile, fun hrc => absurd hrc (by decide)⟩

theorem wlp_ldabPcapCreate_created (path : Path) (linktype : BitVec 32) (os : Os S) :
    (ldabPcapCreate path linktype).wlp Os.anySem (Created os path linktype) os := by
  simp only [ldabPcapCreate, Prog.bind_eq, Prog.liftM_eq, Prog.perform_bind, Prog.wlp_call]
  intro r os₁ hcreat
  obtain ⟨rfl, h₁⟩ | ⟨n, rfl, hfresh, rfl⟩ := Os.creat_cases hcreat
  · exact .failed (h₁.mono (Set.empty_subset _) (Set.empty_subset _) (Set.empty_subset _))
  have hpos : (0 : ℤ) < n := hfresh.1
  rw [if_neg (by omega)]
  have hnew : Os.Within {(n : ℤ)} {(os.truncated path).1} {os.resolve path} os
      ((os.truncated path).2.install n
        (.file ⟨os.next, (os.truncated path).1, 0, oWronly⟩)) :=
    ((Os.within_truncated os path).mono (Set.empty_subset _) le_rfl le_rfl).trans
      ((Os.within_install _ _ _).mono le_rfl (Set.empty_subset _) (Set.empty_subset _))
  have hw : oWronly &&& oAccmode ≠ oRdonly := by decide
  have happend : oWronly &&& oAppend ≠ oAppend := by decide
  have hempty : (os.truncated path).2.data (os.truncated path).1 = [] :=
    Function.update_self _ _ _
  have hheader := wlp_pcapFileHeaderWrite_empty (Os.install_fds_self (os.truncated path).2 n
    (.file ⟨os.next, (os.truncated path).1, 0, oWronly⟩)) hw happend rfl hempty linktype
  refine Prog.wlp_bind_of _ hheader ?_
  rintro rc os₂ ⟨h₂, hheader⟩
  have hall := hnew.trans (h₂.mono le_rfl le_rfl (Set.empty_subset _))
  split_ifs with hrc
  · refine Prog.wlp_bind_of _ (wlp_ldabPcapDestroy_within hfresh.2 hall) ?_
    exact fun _ os₃ h₃ => .failed h₃
  · have hdir₂ : os₂.dir path = some (os.truncated path).1 := by
      rw [h₂.dir_eq, Os.install_dir, Os.truncated_dir]
    exact ⟨hall.mono (Set.singleton_subset_iff.2 hfresh.2) le_rfl le_rfl,
      fun _ => ⟨hfresh.2, hdir₂, hheader (not_not.1 hrc)⟩⟩

theorem uses_ldabPcapWrite (fd : ℤ) (pkt : List Byte)
    (pktLen pktSnaplen tvSec tvUsec : BitVec 64) :
    (ldabPcapWrite fd pkt pktLen pktSnaplen tvSec tvUsec).Uses (FileCall.WritesTo fd) := by
  refine Prog.uses_bind (Prog.uses_assert _) fun _ => ?_
  refine Prog.uses_bind (Prog.uses_assert _) fun _ => ⟨rfl, fun written => ?_⟩
  simp [FileCall.WritesTo]

theorem pos_of_exec_ldabPcapWrite {pkt : List Byte} {pktLen pktSnaplen tvSec tvUsec : BitVec 64}
    {rc : ℤ} (h : (ldabPcapWrite fd pkt pktLen pktSnaplen tvSec tvUsec).Exec Os.anySem os rc
      os') : 0 < fd := by
  by_contra hpos
  rw [ldabPcapWrite, Prog.assert, if_neg hpos] at h
  exact h

end Pcap
