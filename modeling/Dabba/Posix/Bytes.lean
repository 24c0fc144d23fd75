import Mathlib.Algebra.Order.Group.Nat
import Mathlib.Tactic.Ring

/-!
# Little-endian bytes

Fixed-width unsigned integers as sequences of bytes, least significant byte
first. `leBytes w n` writes the `w` low bytes of `n`, and `ofLeBytes` reads any
sequence back. A field of a record is read by `leField`, which takes its offset
and its width.
-/

namespace Posix

abbrev Byte := BitVec 8

/-- The `w` low bytes of `n`, least significant first. -/
def leBytes : ℕ → ℕ → List Byte
  | 0, _ => []
  | w + 1, n => BitVec.ofNat 8 n :: leBytes w (n / 256)

def ofLeBytes : List Byte → ℕ
  | [] => 0
  | b :: bs => b.toNat + 256 * ofLeBytes bs

@[simp] theorem length_leBytes (w n : ℕ) : (leBytes w n).length = w := by
  induction w generalizing n with
  | zero => rfl
  | succ w ih => rw [leBytes, List.length_cons, ih]

theorem ofLeBytes_leBytes (w n : ℕ) : ofLeBytes (leBytes w n) = n % 256 ^ w := by
  induction w generalizing n with
  | zero => simp [leBytes, ofLeBytes, Nat.mod_one]
  | succ w ih =>
      have hb : (BitVec.ofNat 8 n).toNat = n % 256 := BitVec.toNat_ofNat n 8
      rw [leBytes, ofLeBytes, ih, hb, pow_succ', Nat.mod_mul]

theorem ofLeBytes_lt (bs : List Byte) : ofLeBytes bs < 256 ^ bs.length := by
  induction bs with
  | nil => simp [ofLeBytes]
  | cons b bs ih =>
      have hb := b.isLt
      rw [ofLeBytes, List.length_cons, pow_succ']
      omega

theorem leBytes_ofLeBytes (bs : List Byte) :
    leBytes bs.length (ofLeBytes bs) = bs := by
  induction bs with
  | nil => rfl
  | cons b bs ih =>
      have hb := b.isLt
      have hlow : BitVec.ofNat 8 (b.toNat + 256 * ofLeBytes bs) = b := by
        apply BitVec.eq_of_toNat_eq
        rw [BitVec.toNat_ofNat]
        omega
      have hhigh : (b.toNat + 256 * ofLeBytes bs) / 256 = ofLeBytes bs := by omega
      rw [List.length_cons, leBytes, ofLeBytes, hlow, hhigh, ih]

/-- The field of `w` bytes at offset `off` of a record. -/
def leField (off w : ℕ) (bs : List Byte) : ℕ :=
  ofLeBytes ((bs.drop off).take w)

theorem leBytes_leField {off w : ℕ} {bs : List Byte} (h : off + w ≤ bs.length) :
    leBytes w (leField off w bs) = (bs.drop off).take w := by
  have hlen : ((bs.drop off).take w).length = w := by
    rw [List.length_take, List.length_drop]
    omega
  have hbytes := leBytes_ofLeBytes ((bs.drop off).take w)
  rwa [hlen] at hbytes

theorem leField_lt (off w : ℕ) (bs : List Byte) : leField off w bs < 256 ^ w := by
  refine lt_of_lt_of_le (ofLeBytes_lt _) (Nat.pow_le_pow_right (by decide) ?_)
  rw [List.length_take]
  exact min_le_left _ _

theorem leField_append_left {a : List Byte} {off w : ℕ} (b : List Byte)
    (hoff : a.length ≤ off) :
    leField off w (a ++ b) = leField (off - a.length) w b := by
  rw [leField, leField, List.drop_append, List.drop_eq_nil_of_le hoff,
    List.nil_append]

theorem leField_leBytes_append (w n : ℕ) (b : List Byte) :
    leField 0 w (leBytes w n ++ b) = n % 256 ^ w := by
  rw [leField, List.drop_zero, List.take_left' (length_leBytes w n),
    ofLeBytes_leBytes]

theorem leField_leBytes (w n : ℕ) : leField 0 w (leBytes w n) = n % 256 ^ w := by
  simpa using leField_leBytes_append w n []

end Posix
