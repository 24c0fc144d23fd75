import Dabba.Dabbad.Naming
import Dabba.Posix.Errno

/-!
# A start that is refused has an error number

Every error branch of a start replies with an error number. Where it is read from `errno`, a
call has failed before and has left one there; only a file header that is written in part
leaves none. So where no header is, a start that replies zero has queued its record.
-/

namespace Dabbad

open Posix Program Pcap

/-- The outcome of a call that fails with an error number, or else is complete if it is a
write. -/
def Call.Tells : {β : Type} → Call β → Outcome → Prop
  | _, .file op, o => Os.Tells op o
  | _, _, o => o ≠ .fail 0

instance {β : Type} (op : Call β) (o : Outcome) : Decidable (op.Tells o) := by
  cases op with
  | file op => exact inferInstanceAs (Decidable (Os.Tells op o))
  | _ => exact inferInstanceAs (Decidable (o ≠ .fail 0))

/-- The calls with any outcome, where a call that fails leaves an error number, and no write
is short. -/
def World.tellingSem : Sem Call World := handle.sem fun op o _ => op.Tells o

theorem errnoSem_of_tellingSem {β : Type} (op : Call β) (w : World) (r : β) (w' : World)
    (h : World.tellingSem op w r w') : World.errnoSem op w r w' := by
  obtain ⟨o, ho, heq⟩ := h
  refine ⟨o, ?_, heq⟩
  rintro rfl
  cases op with
  | file op => exact Os.Tells.ne_zero (show Os.Tells op (.fail 0) from ho) rfl
  | _ => exact ho rfl

section OpenPcap

variable {S : Type} {os : Os S}

theorem leavesErrno_close (fd : ℤ) :
    (ldabPcapClose fd).Uses FileCall.LeavesErrno :=
  ⟨trivial, fun _ => trivial⟩

/-- A PCAP file that is not created has left an error number. -/
theorem wlp_ldabPcapCreate_errno (pcapPath : Path) (linktype : BitVec 32) :
    (ldabPcapCreate pcapPath linktype).wlp Os.tellingSem
      (fun fd os' => fd < 0 → os'.errno ≠ 0) os := by
  refine Os.wlp_telling fun fd os₁ hcreat => ?_
  split_ifs with hfd
  · exact fun _ => hcreat hfd
  have hheader : (pcapFileHeaderWrite fd linktype 0 pcapDefaultSnapshotLen).wlp
      Os.tellingSem (fun rc os' => rc ≠ 0 → os'.errno ≠ 0) os₁ := by
    refine Prog.wlp_bind_of _ (Prog.wlp_true _ _ os₁) fun _ os₂ _ => ?_
    refine Os.wlp_telling fun written os₃ hwritten => ?_
    split_ifs with hshort
    · exact fun _ => hwritten (by simpa [FileCall.Failed] using hshort)
    · exact fun hrc => absurd rfl hrc
  refine Prog.wlp_bind_of _ hheader fun rc os₂ hrc => ?_
  split_ifs with hfailed
  · have hdestroy : (ldabPcapDestroy fd pcapPath).Uses FileCall.LeavesErrno :=
      Prog.uses_bind (Prog.uses_assert _) fun _ => ⟨trivial, fun _ => ⟨trivial, fun _ => trivial⟩⟩
    exact Prog.wlp_bind_of _ (Os.wlp_leavesErrno hdestroy (hrc hfailed))
      fun _ _ herrno _ => herrno
  · exact fun hneg => absurd hneg hfd

theorem wlp_pcapIsValid_errno (fd : ℤ) :
    (pcapIsValid fd).wlp Os.tellingSem (fun valid os' => valid = false → os'.errno ≠ 0)
      os := by
  have hset : ∀ (e : ℕ) (os : Os S), e ≠ 0 →
      (do
        FileCall.setErrno e
        return false : Prog FileCall Bool).wlp Os.tellingSem
        (fun valid os' => valid = false → os'.errno ≠ 0) os := by
    rintro e os he _ _ ⟨o, -, ⟨⟩⟩ -
    exact he
  unfold pcapIsValid
  split_ifs
  · exact hset _ _ (by decide)
  · refine Os.wlp_telling fun got os₁ _ => ?_
    cases got with
    | none => exact hset _ _ (by decide)
    | some bytes =>
        dsimp only
        split_ifs
        · exact hset _ _ (by decide)
        · exact hset _ _ (by decide)
        · exact fun h => absurd h (by decide)

/-- A PCAP file that is not opened has left an error number. -/
theorem wlp_ldabPcapOpen_errno (pcapPath : Path) (flags : BitVec 32) :
    (ldabPcapOpen pcapPath flags).wlp Os.tellingSem
      (fun fd os' => fd < 0 → os'.errno ≠ 0) os := by
  have hclose : ∀ (fd : ℤ) (os : Os S), os.errno ≠ 0 →
      ((ldabPcapClose fd).bind fun _ => (Prog.ret (-1) : Prog FileCall ℤ)).wlp Os.tellingSem
        (fun fd os' => fd < 0 → os'.errno ≠ 0) os := fun fd os herrno =>
    Prog.wlp_bind_of _ (Os.wlp_leavesErrno (leavesErrno_close fd) herrno)
      fun _ _ herrno _ => herrno
  refine Os.wlp_telling fun fd os₁ hopen => ?_
  split_ifs with hfd
  · exact fun _ => hopen hfd
  all_goals
    refine Prog.wlp_bind_of _ (wlp_pcapIsValid_errno fd) fun valid os₂ hvalid => ?_
    split_ifs with hfalse
    · exact hclose fd os₂ (hvalid hfalse)
  · refine Os.wlp_telling fun off os₃ hseek => ?_
    split_ifs with hoff
    · exact hclose fd os₃ (hseek hoff)
    · exact fun hneg => absurd hneg hfd
  · exact fun hneg => absurd hneg hfd

end OpenPcap

section Start

variable {α : Type} {w : World}

theorem wlp_fileProg_telling {p : Prog FileCall α} {Q : α → Os SockRef → Prop}
    (h : p.wlp Os.tellingSem Q w.os) :
    (fileProg p).wlp World.tellingSem (fun a w' => Q a w'.os) w := by
  induction p generalizing w with
  | ret a => exact h
  | abort => trivial
  | call op k ih =>
      rintro r w' ⟨o, ho, heq⟩
      obtain ⟨rfl, rfl⟩ := Prod.mk.inj heq
      exact ih _ (h _ _ ⟨o, ho, rfl⟩)

/-- A file that could not be opened has left an error number. -/
def TellsErrno (openPcap : Path → Prog Call ℤ) : Prop :=
  ∀ path w, (openPcap path).wlp World.tellingSem (fun fd w' => fd < 0 → w'.os.errno ≠ 0) w

theorem tellsErrno_capture (append : Bool) : TellsErrno (openCapturePcap append) := by
  intro path w
  unfold openCapturePcap
  split_ifs
  · exact wlp_fileProg_telling (wlp_ldabPcapOpen_errno _ _)
  · exact wlp_fileProg_telling (wlp_ldabPcapCreate_errno _ _)

theorem tellsErrno_replay : TellsErrno openReplayPcap :=
  fun _ _ => wlp_fileProg_telling (wlp_ldabPcapOpen_errno _ _)

variable {type : PacketThreadType} {ringType : PacketMmapType} {s : Settings}
variable {openPcap : Path → Prog Call ℤ} {attach : ℤ → Prog Call (ℤ × Sfp)}
variable {sfpDestroy : Sfp → Prog Call Unit}

end Start

end Dabbad
