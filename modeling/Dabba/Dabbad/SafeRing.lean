import Dabba.Dabbad.SafeCall

/-!
# Setting up a ring and a filter among running threads

The stages of a ring acquire a mapping and a vector, and attaching a filter acquires
its array. What the error branches release no thread has, since it was acquired in
the same call.
-/

namespace Dabbad

open Posix Program Tpacket SockFilter Pcap Transition

variable {accepts : List Bpf.SockFilter → Frame → Bool} {w w' : World}
variable {A B : List Atom} {α : Type} {Q : α → World → Prop}

def PacketMmap.atoms (m : PacketMmap) : List Atom :=
  m.vec.toList.map .block ++ m.buf.toList.map .mapping

def Sfp.atoms (sfp : Sfp) : List Atom := sfp.filter.toList.map .block

theorem mem_append_left_of_subset {C : List Atom} (hBA : B ⊆ A) : C ++ B ⊆ C ++ A :=
  List.append_subset.2 ⟨List.subset_append_left _ _,
    List.Subset.trans hBA (List.subset_append_right _ _)⟩

theorem Held.forget {A' : List Atom} (h : Held A B w) (hA : A' ⊆ A) : Held A' [] w :=
  h.mono hA (List.nil_subset _) (List.nil_subset _)

theorem safe_ret_held (a : α) (h : Held A B w)
    (hQ : ∀ w, Held A B w → Q a w) : SafeIn accepts (Prog.ret a) Q w :=
  Prog.Safe.ret (assertion_held A B) h hQ

theorem still_errno : errno.Uses Call.IsStill := by
  simp [errno, Call.IsStill, FileCall.KeepsFds]

section Mmap

/-- Taking a ring down releases what was acquired for it. -/
theorem held_destroy {m : PacketMmap} (h : Held A B w) (hm : m.atoms ⊆ A)
    {f : Unit → Prog Call α} (hf : ∀ w', Held A [] w' → SafeIn accepts (f ()) Q w') :
    SafeIn accepts ((ldabPacketMmapDestroy m).bind f) Q w := by
  have hvec : ∀ v, m.vec = some v → Atom.block v ∈ A := fun v hv => hm (by
    simp [PacketMmap.atoms, hv])
  have hbuf : ∀ b, m.buf = some b → Atom.mapping b ∈ A := fun b hb => hm (by
    simp [PacketMmap.atoms, hb])
  have hunregister : (packetMmapUnregister m).Uses Call.IsStill := by
    simp [packetMmapUnregister, Call.IsStill]
  unfold ldabPacketMmapDestroy
  simp only [Prog.bind_eq, Prog.liftM_eq, Prog.bind_assoc]
  refine held_free h hvec fun w₁ h₁ => ?_
  unfold packetMmapMunmap
  split
  · simp only [Prog.pure_eq, Prog.ret_bind]
    exact held_still hunregister h₁ fun _ => hf
  · simp only [Prog.bind_eq, Prog.liftM_eq, Prog.bind_assoc]
    refine held_munmap h₁ (hbuf _ ‹_›) fun w₂ h₂ => ?_
    simp only [Prog.pure_eq, Prog.ret_bind]
    exact held_still hunregister h₂ fun _ => hf

/-- What a stage or the whole setup of a ring leaves: everything it acquired is in
the ring. -/
def Built (A B : List Atom) (P : PacketMmap → Prop) (r : ℤ × PacketMmap) (w : World) :
    Prop :=
  Held (r.2.atoms ++ A) (r.2.atoms ++ B) w ∧ (r.1 = 0 → P r.2)

variable {m : PacketMmap}

theorem safe_packetMmapRegister {P : PacketMmap → Prop}
    (h : Held (m.atoms ++ A) (m.atoms ++ B) w) (hP : P m) :
    SafeIn accepts (packetMmapRegister m) (Built A B P) w := by
  have hcall : (Prog.perform (Call.setRing m.pfSock m.type m.layout)).Uses
      Call.IsStill := by simp [Call.IsStill]
  refine held_still hcall h fun rc w₁ h₁ => ?_
  split_ifs
  · refine held_still still_errno h₁ fun e w₂ h₂ => ?_
    exact safe_ret_held _ h₂ fun _ h => ⟨h, fun _ => hP⟩
  · exact safe_ret_held _ h₁ fun _ h => ⟨h, fun _ => hP⟩

theorem safe_packetMmapBind {P : PacketMmap → Prop}
    (h : Held (m.atoms ++ A) (m.atoms ++ B) w) (hP : P m) :
    SafeIn accepts (packetMmapBind m) (Built A B P) w := by
  have hcall : (Prog.perform (Call.bind m.pfSock m.ifindex)).Uses Call.IsStill := by
    simp [Call.IsStill]
  refine held_still hcall h fun rc w₁ h₁ => ?_
  split_ifs
  · refine held_still still_errno h₁ fun e w₂ h₂ => ?_
    exact safe_ret_held _ h₂ fun _ h => ⟨h, fun _ => hP⟩
  · exact safe_ret_held _ h₁ fun _ h => ⟨h, fun _ => hP⟩

theorem safe_packetMmapMmap (h : Held (m.atoms ++ A) (m.atoms ++ B) w) (hBA : B ⊆ A) :
    SafeIn accepts (packetMmapMmap m) (Built A B fun m' => m'.buf.isSome) w := by
  refine held_mmap h (fun w₁ h₁ => ?_) fun b w₁ h₁ => ?_
  · exact safe_ret_held _ h₁ fun _ h => ⟨h, fun hrc => absurd hrc (by simp)⟩
  · have hsub : ∀ C : List Atom, ({ m with buf := some b } : PacketMmap).atoms ++ C ⊆
        Atom.mapping b :: (m.atoms ++ C) := by
      intro C x hx
      simp only [PacketMmap.atoms, Option.toList_some, List.map_cons, List.map_nil,
        List.mem_append, List.mem_cons, List.not_mem_nil, or_false] at hx ⊢
      rcases hx with (hx | hx) | hx
      · exact .inr (.inl (.inl hx))
      · exact .inl hx
      · exact .inr (.inr hx)
    exact safe_ret_held _
      (h₁.mono (hsub A) (hsub B) (mem_append_left_of_subset hBA))
      fun _ h => ⟨h, fun _ => rfl⟩

theorem safe_packetMmapVectorCreate (h : Held (m.atoms ++ A) (m.atoms ++ B) w)
    (hBA : B ⊆ A) :
    SafeIn accepts (packetMmapVectorCreate m)
      (Built A B fun m' => m'.vec.isSome ∧ m'.buf.isSome) w := by
  unfold packetMmapVectorCreate
  by_cases hbuf : m.buf.isSome
  · simp only [Prog.assert, hbuf, if_true, Prog.bind_eq, Prog.liftM_eq, Prog.ret_bind]
    refine held_calloc h (fun w₁ h₁ => ?_) fun v w₁ _ h₁ => ?_
    · exact safe_ret_held _ h₁ fun _ h => ⟨h, fun hrc => absurd hrc (by simp)⟩
    · have hsub : ∀ C : List Atom, ({ m with vec := some v } : PacketMmap).atoms ++ C ⊆
          Atom.block v :: (m.atoms ++ C) := by
        intro C x hx
        simp only [PacketMmap.atoms, Option.toList_some, List.map_cons, List.map_nil,
          List.mem_append, List.mem_cons, List.not_mem_nil, or_false] at hx ⊢
        rcases hx with (hx | hx) | hx
        · exact .inl hx
        · exact .inr (.inl (.inr hx))
        · exact .inr (.inr hx)
      exact safe_ret_held _
        (h₁.mono (hsub A) (hsub B) (mem_append_left_of_subset hBA))
        fun _ h => ⟨h, fun _ => ⟨rfl, hbuf⟩⟩
  · simp only [Prog.assert, hbuf]
    trivial

/-- What the setup of a ring leaves: nothing new when it fails, and otherwise the
whole ring. -/
def SetUp (A B : List Atom) (r : ℤ × PacketMmap) (w : World) : Prop :=
  (r.1 ≠ 0 ∧ Held A [] w) ∨
    (r.1 = 0 ∧ Held (r.2.atoms ++ A) (r.2.atoms ++ B) w ∧
      r.2.vec.isSome ∧ r.2.buf.isSome)

theorem safe_runStages_cons {fn : Stage} {fns : List Stage} {P : PacketMmap → Prop}
    (hfn : SafeIn accepts (fn m) (Built A B P) w)
    (hrest : ∀ m' w', Held (m'.atoms ++ A) (m'.atoms ++ B) w' → P m' →
      SafeIn accepts (runStages fns m') (SetUp A B) w') :
    SafeIn accepts (runStages (fn :: fns) m) (SetUp A B) w := by
  refine hfn.bind ?_
  rintro ⟨rc, m'⟩ w' ⟨h, hP⟩
  dsimp only at h hP ⊢
  by_cases hrc : rc = 0
  · rw [if_neg (not_not.2 hrc)]
    exact hrest m' w' h (hP hrc)
  · rw [if_pos hrc]
    refine held_destroy h (List.subset_append_left _ _) fun w₁ h₁ => ?_
    refine safe_ret_held _ h₁ fun _ h => .inl ⟨hrc, ?_⟩
    exact h.forget (List.subset_append_right _ _)

theorem safe_runStages (h : Held (m.atoms ++ A) (m.atoms ++ B) w) (hBA : B ⊆ A) :
    SafeIn accepts (runStages pktMmapFn m) (SetUp A B) w := by
  refine safe_runStages_cons (P := fun _ => True) (safe_packetMmapRegister h trivial) ?_
  intro m₁ w₁ h₁ _
  refine safe_runStages_cons (safe_packetMmapMmap h₁ hBA) fun m₂ w₂ h₂ _ => ?_
  refine safe_runStages_cons (safe_packetMmapVectorCreate h₂ hBA) fun m₃ w₃ h₃ hm₃ => ?_
  refine safe_runStages_cons (P := fun m => m.vec.isSome ∧ m.buf.isSome)
    (safe_packetMmapBind h₃ hm₃) fun m₄ w₄ h₄ hm₄ => ?_
  exact safe_ret_held _ h₄ fun _ h => .inr ⟨rfl, h, hm₄⟩

theorem safe_ldabDevnameToIfindex (dev : Path) (h : Held A B w) (hBA : B ⊆ A) :
    SafeIn accepts (ldabDevnameToIfindex dev) (fun _ => Held A B) w := by
  unfold ldabDevnameToIfindex
  split_ifs
  · exact safe_ret_held _ h fun _ h => h
  · refine held_socket (.inr rfl) h (fun sock w₁ hsock h₁ => ?_) fun sock w₁ hsock hnotin h₁ => ?_
    · rw [if_pos hsock]
      refine held_still still_errno h₁ fun e w₂ h₂ => ?_
      exact safe_ret_held _ h₂ fun _ h => h
    · rw [if_neg hsock]
      refine held_still (by simp [Call.IsStill]) h₁ fun i w₂ h₂ => ?_
      refine held_close h₂ hnotin hBA fun _ w₃ h₃ => ?_
      cases i with
      | some i => exact safe_ret_held _ h₃ fun _ h => h
      | none =>
          refine held_still still_errno h₃ fun e w₄ h₄ => ?_
          exact safe_ret_held _ h₄ fun _ h => h

theorem safe_ldabPacketMmapCreate (dev : Path) (pfSock : ℤ) (type : PacketMmapType)
    (frameSize : BitVec 32) (frameNr : BitVec 64) (h : Held A B w) (hBA : B ⊆ A) :
    SafeIn accepts (ldabPacketMmapCreate dev pfSock type frameSize frameNr)
      (SetUp A B) w := by
  have hforget : ∀ {w}, Held A B w → Held A [] w := fun h => h.forget (List.Subset.refl _)
  unfold ldabPacketMmapCreate
  split_ifs
  · exact safe_ret_held _ h fun _ h => .inl ⟨by decide, hforget h⟩
  · refine (safe_ldabDevnameToIfindex dev h hBA).bind ?_
    rintro ⟨rc, ifindex⟩ w₁ h₁
    dsimp only
    split_ifs with hrc
    · exact safe_ret_held _ h₁ fun _ h => .inl ⟨hrc, hforget h⟩
    · exact safe_ret_held _ h₁ fun _ h => .inl ⟨by simp, hforget h⟩
    · exact safe_runStages h₁ hBA

end Mmap

section Attach

def Attached (A B : List Atom) (r : ℤ × Sfp) (w : World) : Prop :=
  (r.1 ≠ 0 ∧ Held A [] w) ∨ (r.1 = 0 ∧ Held (r.2.atoms ++ A) (r.2.atoms ++ B) w)

theorem held_zero_atoms (h : Held A B w) :
    Held (Sfp.zero.atoms ++ A) (Sfp.zero.atoms ++ B) w := h

theorem safe_attachCaptureFilter (sfp : Option (List PbufSockFilter)) (sock : ℤ)
    (h : Held A B w) :
    SafeIn accepts (attachCaptureFilter sfp sock) (Attached A B) w := by
  rcases sfp with _ | (_ | ⟨p, ps⟩)
  · exact safe_ret_held _ h fun _ h => .inr ⟨rfl, held_zero_atoms h⟩
  · exact safe_ret_held _ h fun _ h => .inr ⟨rfl, held_zero_atoms h⟩
  · refine held_calloc h (fun w₁ h₁ => ?_) fun b w₁ _ h₁ => ?_
    · refine held_free (b := none) h₁ (fun _ hb => by cases hb) fun w₂ h₂ => ?_
      exact safe_ret_held _ h₂ fun _ h => .inl ⟨by simp, h⟩
    · have hmem : ∀ b', some b = some b' → Atom.block b' ∈ Atom.block b :: A := by
        rintro b' ⟨⟩
        exact List.mem_cons_self
      -- An error branch, which frees the array.
      have hfail : ∀ (rc : ℤ) {w₂ : World}, rc ≠ 0 →
          Held (.block b :: A) (.block b :: B) w₂ →
          SafeIn accepts ((Prog.perform (Call.free (some b))).bind fun _ =>
            Prog.ret (rc, Sfp.zero)) (Attached A B) w₂ := by
        intro rc w₂ hrc h₂
        refine held_free h₂ hmem fun w₃ h₃ => ?_
        exact safe_ret_held _ h₃ fun _ h =>
          .inl ⟨hrc, h.forget (List.subset_cons_self _ _)⟩
      simp only [Option.isSome_some]
      by_cases hrc : (dabbadPbufSfp2Sfp true (p :: ps)).1 = 0
      · rw [if_neg (not_not.2 hrc)]
        refine held_still (by simp [Call.IsStill]) h₁ fun rc w₂ h₂ => ?_
        by_cases hrc' : rc = 0
        · rw [if_neg (not_not.2 hrc')]
          exact safe_ret_held _ h₂ fun _ h => .inr ⟨rfl, h⟩
        · rw [if_pos hrc']
          exact hfail rc hrc' h₂
      · rw [if_pos hrc]
        exact hfail _ (by exact_mod_cast hrc) h₁

end Attach

end Dabbad
