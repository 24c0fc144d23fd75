import Mathlib.Data.Nat.ModEq
import Dabba.Dabbad.Run
import Dabba.Tile.Basic

/-!
# The geometry of a ring

A ring is asked for with a frame size of 32 bits and a frame number of 64 bits. The
frame number is divided and cut to 32 bits, the sizes are multiplied in 32 bits, and
the vector of the frames is computed in 64 bits. No bound is checked, but the tests
for powers of two, the tests for zero and the failure of an empty mapping leave only
sizes for which all of these computations are exact.
-/

namespace Dabbad

open Posix Program Tpacket Tile

/-- An entry of the vector of a ring; the base is relative to the mapping. -/
structure Iovec where
  iovBase : BitVec 64
  iovLen : BitVec 64

def PacketMmap.iov (m : PacketMmap) (a : ℕ) : Iovec where
  iovBase := BitVec.ofNat 64 a * m.layout.tpFrameSize.setWidth 64
  iovLen := m.layout.tpFrameSize.setWidth 64

def Iovec.range (v : Iovec) : Set ℕ :=
  Set.Ico v.iovBase.toNat (v.iovBase.toNat + v.iovLen.toNat)

/-- The numbers in the layout are the ones asked for, and the frames cut the mapping
into equal pieces, each inside one block. -/
structure PacketMmap.Exact (frameSize : BitVec 32) (frameNr : BitVec 64)
    (m : PacketMmap) : Prop where
  frameNr_eq : m.layout.tpFrameNr.toNat = frameNr.toNat
  blockNr_eq : 8 * m.layout.tpBlockNr.toNat = frameNr.toNat
  blockSize_eq : m.layout.tpBlockSize.toNat = 8 * frameSize.toNat
  length_eq : m.length.toNat = frameNr.toNat * frameSize.toNat
  frame_eq : ∀ a < frameNr.toNat,
    (m.iov a).range = Set.Ico (a * frameSize.toNat) ((a + 1) * frameSize.toNat)
  disjoint : ∀ a < frameNr.toNat, ∀ b < frameNr.toNat, a ≠ b →
    Disjoint (m.iov a).range (m.iov b).range
  inBlock : ∀ a < frameNr.toNat, ∃ b < m.layout.tpBlockNr.toNat,
    (m.iov a).range ⊆ Set.Ico (b * m.layout.tpBlockSize.toNat)
      ((b + 1) * m.layout.tpBlockSize.toNat)
  inside : ∀ a < frameNr.toNat, (m.iov a).range ⊆ Set.Ico 0 m.length.toNat
  cover : ∀ x < m.length.toNat, ∃ a < frameNr.toNat, x ∈ (m.iov a).range

theorem exists_two_pow_of_powerof2 {w : ℕ} {x : BitVec w} (h : powerof2 x = true)
    (hx : x ≠ 0) : ∃ k, x.toNat = 2 ^ k := by
  have hpos : x.toNat ≠ 0 := fun heq => hx (BitVec.eq_of_toNat_eq heq)
  have hone : (1 : BitVec w) ≤ x := by
    rw [BitVec.le_def]
    exact (Nat.mod_le _ _).trans (Nat.one_le_iff_ne_zero.2 hpos)
  have hw : 0 < w := Nat.pos_of_ne_zero fun hw => by
    subst hw
    exact hx (BitVec.eq_nil x)
  have hsub : (x - 1).toNat = x.toNat - 1 := by
    rw [BitVec.toNat_sub_of_le hone]
    congr 1
    exact Nat.mod_eq_of_lt (Nat.one_lt_two_pow hw.ne')
  have hand : x.toNat &&& (x.toNat - 1) = 0 := by
    rw [← hsub, Nat.and_comm, ← BitVec.toNat_and, beq_iff_eq.1 h]
    rfl
  exact (Nat.and_sub_one_eq_zero_iff_isPowerOfTwo hpos).1 hand

theorem two_pow_lt_of_mod_ne_zero {a b : ℕ} (h : 2 ^ a % 2 ^ b ≠ 0) : 2 ^ a < 2 ^ b := by
  refine Nat.pow_lt_pow_right one_lt_two (lt_of_not_ge fun hle => h ?_)
  exact Nat.mod_eq_zero_of_dvd (Nat.pow_dvd_pow 2 hle)

/-- The checks of `ldab_packet_mmap_create` before it sets up the ring. -/
structure PassesChecks (frameSize : BitVec 32) (frameNr : BitVec 64) : Prop where
  sizePower : powerof2 frameSize = true
  nrPower : powerof2 frameNr = true
  frameNr_ne : frameNr.setWidth 32 ≠ 0
  blockNr_ne : (frameNr / 8).setWidth 32 ≠ 0

variable {ifindex pfSock : ℤ} {type : PacketMmapType}
variable {frameSize : BitVec 32} {frameNr : BitVec 64}

section Bounds

theorem PassesChecks.ne_zero (h : PassesChecks frameSize frameNr) : frameNr ≠ 0 := by
  rintro rfl
  exact h.frameNr_ne rfl

theorem PassesChecks.frameNr_bounds (h : PassesChecks frameSize frameNr) :
    frameNr.toNat < 2 ^ 32 ∧ 8 * (frameNr.toNat / 8) = frameNr.toNat := by
  obtain ⟨k, hk⟩ := exists_two_pow_of_powerof2 h.nrPower h.ne_zero
  have hframe : 2 ^ k % 2 ^ 32 ≠ 0 := fun hzero => h.frameNr_ne (BitVec.eq_of_toNat_eq (by
    rw [BitVec.toNat_setWidth, hk, hzero]
    rfl))
  have hblock : 2 ^ k / 8 ≠ 0 := fun hzero => h.blockNr_ne (BitVec.eq_of_toNat_eq (by
    rw [BitVec.toNat_setWidth, BitVec.toNat_udiv, hk]
    simp [hzero]))
  have hle : 3 ≤ k := by
    by_contra hlt
    have hsmall : 2 ^ k < 2 ^ 3 := Nat.pow_lt_pow_right one_lt_two (by omega)
    exact hblock (Nat.div_eq_of_lt hsmall)
  rw [hk]
  exact ⟨two_pow_lt_of_mod_ne_zero hframe, Nat.mul_div_cancel' (Nat.pow_dvd_pow 2 hle)⟩

theorem PassesChecks.toNat_tpBlockNr (h : PassesChecks frameSize frameNr) :
    ((frameNr / 8).setWidth 32).toNat = frameNr.toNat / 8 := by
  rw [BitVec.toNat_setWidth, BitVec.toNat_udiv]
  exact Nat.mod_eq_of_lt (lt_of_le_of_lt (Nat.div_le_self _ _) h.frameNr_bounds.1)

/-- Whatever wraps on the way, the length is the wrapped product of the sizes. -/
theorem PassesChecks.toNat_length (h : PassesChecks frameSize frameNr) :
    (requestedMmap ifindex pfSock type frameSize frameNr).length.toNat =
      frameNr.toNat * frameSize.toNat % 2 ^ 32 := by
  have hlength : (requestedMmap ifindex pfSock type frameSize frameNr).length =
      8 * frameSize * (frameNr / 8).setWidth 32 := rfl
  rw [hlength, BitVec.toNat_mul, BitVec.toNat_mul, h.toNat_tpBlockNr, Nat.mod_mul_mod]
  congr 1
  calc (8 : BitVec 32).toNat * frameSize.toNat * (frameNr.toNat / 8)
      = 8 * (frameNr.toNat / 8) * frameSize.toNat := Nat.mul_right_comm _ _ _
    _ = frameNr.toNat * frameSize.toNat := by rw [h.frameNr_bounds.2]

theorem PassesChecks.product_lt (h : PassesChecks frameSize frameNr)
    (hmap : (requestedMmap ifindex pfSock type frameSize frameNr).length ≠ 0) :
    0 < frameSize.toNat ∧ frameNr.toNat * frameSize.toNat < 2 ^ 32 := by
  have hne : frameNr.toNat * frameSize.toNat % 2 ^ 32 ≠ 0 := fun hzero =>
    hmap (BitVec.eq_of_toNat_eq (h.toNat_length.trans hzero))
  have hsize : frameSize ≠ 0 := by
    rintro rfl
    exact hne (by simp)
  obtain ⟨k, hk⟩ := exists_two_pow_of_powerof2 h.nrPower h.ne_zero
  obtain ⟨l, hl⟩ := exists_two_pow_of_powerof2 h.sizePower hsize
  rw [hk, hl, ← Nat.pow_add] at hne ⊢
  exact ⟨Nat.two_pow_pos l, two_pow_lt_of_mod_ne_zero hne⟩

end Bounds

/-- The geometry of every ring that passes the checks and is not empty is exact. -/
theorem PassesChecks.exact (h : PassesChecks frameSize frameNr)
    (hmap : (requestedMmap ifindex pfSock type frameSize frameNr).length ≠ 0) :
    (requestedMmap ifindex pfSock type frameSize frameNr).Exact frameSize frameNr := by
  obtain ⟨hlt, hblock⟩ := h.frameNr_bounds
  obtain ⟨hpos, hproduct⟩ := h.product_lt hmap
  generalize hm : requestedMmap ifindex pfSock type frameSize frameNr = m at *
  have hframeNr : m.layout.tpFrameNr.toNat = frameNr.toNat := by
    rw [← hm]
    exact (BitVec.toNat_setWidth 32 frameNr).trans (Nat.mod_eq_of_lt hlt)
  have hblockNr : m.layout.tpBlockNr.toNat = frameNr.toNat / 8 := by
    rw [← hm]
    exact h.toNat_tpBlockNr
  have hnr : 8 ≤ frameNr.toNat := Nat.le_of_dvd
    (Nat.pos_of_ne_zero fun hzero => h.ne_zero (BitVec.eq_of_toNat_eq hzero)) ⟨_, hblock.symm⟩
  have hblockSize : m.layout.tpBlockSize.toNat = 8 * frameSize.toNat := by
    rw [← hm]
    exact (BitVec.toNat_mul 8 frameSize).trans
      (Nat.mod_eq_of_lt (lt_of_le_of_lt (Nat.mul_le_mul_right _ hnr) hproduct))
  have hlength : m.length.toNat = frameNr.toNat * frameSize.toNat := by
    rw [← hm, h.toNat_length, Nat.mod_eq_of_lt hproduct]
  have hrange : ∀ a < frameNr.toNat, (m.iov a).range = tile frameSize.toNat a := by
    intro a ha
    have hlen : (m.iov a).iovLen.toNat = frameSize.toNat := by
      rw [← hm]
      exact (BitVec.toNat_setWidth 64 frameSize).trans (Nat.mod_eq_of_lt (by omega))
    have hlt : a * frameSize.toNat < 2 ^ 64 := by
      have := Nat.mul_le_mul_right frameSize.toNat ha.le
      omega
    have hbase : (m.iov a).iovBase.toNat = a * frameSize.toNat := by
      have heq : (m.iov a).iovBase = BitVec.ofNat 64 a * (m.iov a).iovLen := rfl
      rw [heq, BitVec.toNat_mul, hlen, BitVec.toNat_ofNat, Nat.mod_mul_mod,
        Nat.mod_eq_of_lt hlt]
    rw [Iovec.range, hbase, hlen, tile, Nat.add_mul, Nat.one_mul]
  refine ⟨hframeNr, ?_, hblockSize, hlength, hrange, ?_, ?_, ?_, ?_⟩
  · rw [hblockNr, hblock]
  · intro a ha b hb hab
    rw [hrange a ha, hrange b hb]
    exact disjoint_tile hpos hab
  · intro a ha
    rw [hblockNr, hrange a ha, hblockSize]
    exact ⟨a / 8, Nat.div_lt_div_of_lt_of_dvd ⟨_, hblock.symm⟩ ha,
      tile_subset_tile hpos (by decide) a⟩
  · intro a ha
    rw [hrange a ha, hlength]
    exact tile_subset ha
  · intro x hx
    rw [hlength] at hx
    obtain ⟨a, ha, hmem⟩ := exists_mem_tile hx
    exact ⟨a, ha, by rwa [hrange a ha]⟩

theorem PacketMmap.Exact.of_layout {m m' : PacketMmap} (h : m.Exact frameSize frameNr)
    (heq : m'.layout = m.layout) : m'.Exact frameSize frameNr := by
  obtain ⟨type, sock, ifindex, layout, vec, buf⟩ := m
  obtain rfl : m'.layout = layout := heq
  exact ⟨h.frameNr_eq, h.blockNr_eq, h.blockSize_eq, h.length_eq, h.frame_eq, h.disjoint,
    h.inBlock, h.inside, h.cover⟩

section Create

variable {w : World} {m : PacketMmap}

/-- The ring `m'` is the ring `m`, up to its mapping and its vector. -/
def PacketMmap.Same (m m' : PacketMmap) : Prop :=
  m' = { m with vec := m'.vec, buf := m'.buf }

theorem PacketMmap.Same.trans {m₁ m₂ m₃ : PacketMmap} (h : m₁.Same m₂) (h' : m₂.Same m₃) :
    m₁.Same m₃ := by
  rw [PacketMmap.Same, h', h]

theorem PacketMmap.Same.layout_eq {m' : PacketMmap} (h : m.Same m') :
    m'.layout = m.layout := by
  rw [h]

theorem PacketMmap.Same.pfSock_eq {m' : PacketMmap} (h : m.Same m') :
    m'.pfSock = m.pfSock := by
  rw [h]

theorem wlp_packetMmapRegister :
    (packetMmapRegister m).wlp World.anySem (fun r _ => m.Same r.2) w := by
  intro rc w₁ _
  dsimp only [Prog.ret_bind]
  split_ifs
  · exact fun e w₂ _ => rfl
  · rfl

theorem mmap_zero (fd : ℤ) (o : Outcome) (w : World) :
    (World.handle (.mmap fd 0) o w).1 = none := by
  cases o with
  | ok n =>
      simp only [World.handle, ne_eq, not_true_eq_false, and_false, if_false]
      split <;> rfl
  | fail e => rfl

theorem wlp_packetMmapMmap :
    (packetMmapMmap m).wlp World.anySem
      (fun r _ => m.Same r.2 ∧ (r.1 = 0 → m.length ≠ 0)) w := by
  rintro buf w₁ ⟨o, -, heq⟩
  cases buf with
  | none => exact ⟨rfl, fun hrc => absurd hrc (by simp)⟩
  | some b =>
      refine ⟨rfl, fun _ hzero => ?_⟩
      have hsome : (World.handle (.mmap m.pfSock m.length.toNat) o w).1 = some b :=
        congrArg Prod.fst heq
      rw [hzero] at hsome
      cases (mmap_zero m.pfSock o w).symm.trans hsome

theorem wlp_packetMmapVectorCreate :
    (packetMmapVectorCreate m).wlp World.anySem (fun r _ => m.Same r.2) w := by
  refine Prog.wlp_bind_of (Q := fun _ _ => True) _ (Prog.wlp_true _ _ _) fun _ w₁ _ => ?_
  intro vec w₂ _
  cases vec <;> rfl

theorem wlp_packetMmapBind :
    (packetMmapBind m).wlp World.anySem (fun r _ => m.Same r.2) w := by
  intro rc w₁ _
  dsimp only [Prog.ret_bind]
  split_ifs
  · exact fun e w₂ _ => rfl
  · rfl

theorem wlp_runStages_cons {S : Sem Call World} {fn : Stage} {fns : List Stage}
    {P Q : ℤ × PacketMmap → World → Prop} (hfn : (fn m).wlp S P w)
    (hfail : ∀ rc w, rc ≠ 0 → Q (rc, .zero) w)
    (hrest : ∀ m' w', P (0, m') w' → (runStages fns m').wlp S Q w') :
    (runStages (fn :: fns) m).wlp S Q w := by
  refine Prog.wlp_bind_of _ hfn ?_
  rintro ⟨rc, m'⟩ w' hP
  dsimp only
  by_cases hrc : rc = 0
  · subst hrc
    exact hrest m' w' hP
  · rw [if_pos hrc]
    refine Prog.wlp_bind_of (Q := fun _ _ => True) _ (Prog.wlp_true _ _ _) fun _ w₁ _ => ?_
    exact hfail rc w₁ hrc

theorem wlp_runStages :
    (runStages pktMmapFn m).wlp World.anySem
      (fun r _ => r.1 = 0 → m.Same r.2 ∧ m.length ≠ 0) w := by
  have hfail : ∀ (rc : ℤ), rc ≠ 0 → rc = 0 →
      m.Same PacketMmap.zero ∧ m.length ≠ 0 := fun rc hrc hzero =>
    absurd hzero hrc
  refine wlp_runStages_cons wlp_packetMmapRegister (fun rc _ => hfail rc) fun m₁ w₁ h₁ => ?_
  refine wlp_runStages_cons wlp_packetMmapMmap (fun rc _ => hfail rc) fun m₂ w₂ h₂ => ?_
  refine wlp_runStages_cons wlp_packetMmapVectorCreate (fun rc _ => hfail rc)
    fun m₃ w₃ h₃ => ?_
  refine wlp_runStages_cons wlp_packetMmapBind (fun rc _ => hfail rc) fun m₄ w₄ h₄ _ => ?_
  have hlength : m₁.length = m.length := by
    rw [PacketMmap.length, h₁.layout_eq]
    rfl
  exact ⟨((h₁.trans h₂.1).trans h₃).trans h₄, hlength ▸ h₂.2 rfl⟩

theorem wlp_ldabPacketMmapCreate (dev : Path) (pfSock : ℤ) (type : PacketMmapType)
    (frameSize : BitVec 32) (frameNr : BitVec 64) (w : World) :
    (ldabPacketMmapCreate dev pfSock type frameSize frameNr).wlp World.anySem
      (fun r _ => r.1 = 0 → PassesChecks frameSize frameNr ∧ ∃ ifindex,
        (requestedMmap ifindex pfSock type frameSize frameNr).Same r.2 ∧
        (requestedMmap ifindex pfSock type frameSize frameNr).length ≠ 0) w := by
  unfold ldabPacketMmapCreate
  split_ifs with hpower
  · exact fun hrc => absurd hrc (by decide)
  · refine Prog.wlp_bind_of (Q := fun _ _ => True) _ (Prog.wlp_true _ _ _) ?_
    rintro ⟨rc, ifindex⟩ w₁ -
    dsimp only
    split_ifs with hrc hzero
    · exact fun hrc' => absurd hrc' hrc
    · exact fun hrc' => absurd hrc' (by simp)
    · refine Prog.wlp_mono _ wlp_runStages fun r w₂ h hrc' => ⟨?_, ifindex, h hrc'⟩
      simp only [Bool.or_eq_true, Bool.not_eq_true', not_or, Bool.not_eq_false] at hpower
      obtain ⟨hframeNr, hblockNr⟩ := not_or.1 hzero
      exact ⟨hpower.1, hpower.2, hframeNr, hblockNr⟩

/-- For all frame sizes and frame numbers: if they pass the checks and the mapping is
not empty, the geometry is exact, and only such rings are ever created. -/
theorem ldabPacketMmapCreate_exact (dev : Path) (pfSock : ℤ) (type : PacketMmapType)
    (frameSize : BitVec 32) (frameNr : BitVec 64) (w : World) :
    (∀ ifindex, PassesChecks frameSize frameNr →
      (requestedMmap ifindex pfSock type frameSize frameNr).length ≠ 0 →
      (requestedMmap ifindex pfSock type frameSize frameNr).Exact frameSize frameNr) ∧
    (ldabPacketMmapCreate dev pfSock type frameSize frameNr).wlp World.anySem
      (fun r _ => r.1 = 0 → r.2.Exact frameSize frameNr) w := by
  refine ⟨fun ifindex h hmap => h.exact hmap, ?_⟩
  refine Prog.wlp_mono _ (wlp_ldabPacketMmapCreate dev pfSock type frameSize frameNr w) ?_
  intro r w' h hrc
  obtain ⟨hchecks, ifindex, hsame, hmap⟩ := h hrc
  exact (hchecks.exact hmap).of_layout hsame.layout_eq

/-- The smallest ring of the smallest frames. -/
theorem ldabPacketMmapCreate_exact_2048 :
    (requestedMmap 0 3 .rx 2048 8).Exact 2048 8 :=
  (ldabPacketMmapCreate_exact [] 3 .rx 2048 8 World.boot).1 0
    ⟨by decide, by decide, by decide, by decide⟩ (by decide)

end Create

end Dabbad
