import HaclStar.Lib.Endianness

/-! Numbers of up to 128 bits in buffers. -/

namespace HaclStar.SecureApi

open Endianness

/-- The number in the first `len` bytes of a buffer, the lowest byte first. -/
def loadUint128 : Nat → Bytes → BitVec 128
  | 0, _ => 0
  | len + 1, buf =>
    let n := loadUint128 len (buf.drop 1)
    let b := buf.getD 0 0
    BitVec.ofNat 128 b.toNat + n <<< 8

/-- The number is the one the bytes stand for; of more than sixteen bytes the higher ones are lost. -/
theorem loadUint128_eq {len : Nat} {buf : Bytes} (within : len ≤ buf.length) :
    loadUint128 len buf = BitVec.ofNat 128 (littleEndian (buf.take len)) := by
  induction len generalizing buf with
  | zero => rfl
  | succ len ih =>
    cases buf with
    | nil => exact absurd within (Nat.not_succ_le_zero len)
    | cons b buf =>
      have rest := @ih buf (Nat.le_of_succ_le_succ within)
      rw [loadUint128, List.drop_one, List.tail_cons, rest, List.getD_cons_zero, List.take_succ_cons, littleEndian]
      apply BitVec.eq_of_toNat_eq
      simp only [BitVec.toNat_add, BitVec.toNat_ofNat, BitVec.toNat_shiftLeft, Nat.shiftLeft_eq]
      omega

/-- Up to sixteen bytes, nothing is lost. -/
theorem loadUint128_toNat {len : Nat} {buf : Bytes} (within : len ≤ buf.length) (short : len ≤ 16) :
    (loadUint128 len buf).toNat = littleEndian (buf.take len) := by
  have bound := littleEndian_lt (buf.take len)
  have most : 2 ^ (8 * (buf.take len).length) ≤ 2 ^ 128 :=
    Nat.pow_le_pow_right Nat.two_pos (by rw [List.length_take]; omega)
  rw [loadUint128_eq within, BitVec.toNat_ofNat, Nat.mod_eq_of_lt (bound.trans_le most)]

end HaclStar.SecureApi
