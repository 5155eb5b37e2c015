import HaclStar.Correctness.BignumQ
import HaclStar.Impl.Ed25519BasePoint

/-! The Ed25519 implementation of verification: the range test of the scalar on limbs of 56 bits, and the test of the
equation. -/

namespace HaclStar.Impl.BignumQ

open Endianness

/-- The seven bytes at an offset, from a word that overlaps the next ones. -/
def hload56Le (b : Bytes) (off : Nat) : BitVec 64 :=
  BitVec.ofNat 64 (littleEndian ((b.drop off).take 8)) &&& 0xffffffffffffff

/-- Thirty-two bytes as limbs of 56 bits. -/
def load32Bytes (b : Bytes) : Qelem where
  q0 := hload56Le b 0
  q1 := hload56Le b 7
  q2 := hload56Le b 14
  q3 := hload56Le b 21
  q4 := BitVec.ofNat 64 (littleEndian ((b.drop 28).take 4))

/-- Whether limbs are at least those of the order, compared from the highest one on. -/
def gteQ (s : Qelem) : Bool :=
  if s.q4 > 0x00000010000000 then true
  else if s.q4 < 0x00000010000000 then false
  else if s.q3 > 0x00000000000000 then true
  else if s.q2 > 0x000000000014de then true
  else if s.q2 < 0x000000000014de then false
  else if s.q1 > 0xf9dea2f79cd658 then true
  else if s.q1 < 0xf9dea2f79cd658 then false
  else if s.q0 ≥ 0x12631a5cf5d3ed then true
  else false

theorem hload56Le_toNat {b : Bytes} {off : Nat} (within : off + 8 ≤ b.length) :
    (hload56Le b off).toNat = littleEndian b / 2 ^ (8 * off) % 2 ^ 56 := by
  have word : littleEndian ((b.drop off).take 8) = littleEndian b / 2 ^ (8 * off) % 2 ^ (8 * 8) :=
    littleEndian_slice b off within
  rw [hload56Le, Limbs.toNat_and_mask' 56 rfl, BitVec.toNat_ofNat, word]
  omega

/-- The limbs have 56 bits, and their number is that of the bytes. -/
theorem load32Bytes_spec {b : Bytes} (size : b.length = 32) :
    Within56 (load32Bytes b) ∧ evalQ (load32Bytes b) = littleEndian b := by
  have limb0 := hload56Le_toNat (show 0 + 8 ≤ b.length by omega)
  have limb1 := hload56Le_toNat (show 7 + 8 ≤ b.length by omega)
  have limb2 := hload56Le_toNat (show 14 + 8 ≤ b.length by omega)
  have limb3 := hload56Le_toNat (show 21 + 8 ≤ b.length by omega)
  have tail : littleEndian ((b.drop 28).take 4) = littleEndian b / 2 ^ (8 * 28) % 2 ^ (8 * 4) :=
    littleEndian_slice b 28 (by omega)
  have limb4 : (load32Bytes b).q4.toNat = littleEndian b / 2 ^ (8 * 28) % 2 ^ (8 * 4) := by
    rw [load32Bytes, BitVec.toNat_ofNat, tail]
    omega
  have bound := littleEndian_lt b
  rw [size] at bound
  change (load32Bytes b).q0.toNat = _ at limb0
  change (load32Bytes b).q1.toNat = _ at limb1
  change (load32Bytes b).q2.toNat = _ at limb2
  change (load32Bytes b).q3.toNat = _ at limb3
  generalize littleEndian b = n at limb0 limb1 limb2 limb3 limb4 bound ⊢
  refine ⟨⟨?_, ?_, ?_, ?_, ?_⟩, ?_⟩
  · omega
  · omega
  · omega
  · omega
  · omega
  · rw [evalQ, limb0, limb1, limb2, limb3, limb4]
    omega

/-- The comparison decides whether the number is at least the order. -/
theorem gteQ_eq {s : Qelem} (within : Within56 s) : gteQ s = decide (Spec.Ed25519.q ≤ evalQ s) := by
  obtain ⟨q0, q1, q2, q3, q4⟩ := within
  have order : Spec.Ed25519.q = 0x12631a5cf5d3ed + 2 ^ 56 * 0xf9dea2f79cd658 + 2 ^ 112 * 0x14de + 2 ^ 224 * 0x10000000 := by
    decide
  rw [Bool.eq_iff_iff, decide_eq_true_eq, order, evalQ, gteQ]
  simp only [gt_iff_lt, ge_iff_le, BitVec.lt_def, BitVec.le_def, BitVec.ofNat_eq_ofNat, BitVec.toNat_ofNat]
  repeat' split
  all_goals simp only [Bool.false_eq_true, true_iff, false_iff]
  all_goals omega

end HaclStar.Impl.BignumQ

namespace HaclStar.Impl.Ed25519

open Endianness

/-- Verification on the limbs of its points and scalars, for the string of the challenge that its second step writes. -/
def verify_ (public' signature h' : Bytes) : Bool :=
  let empty : Point := ⟨Bignum25519.zero, Bignum25519.zero, Bignum25519.zero, Bignum25519.zero⟩
  let a' := pointDecompress empty public'
  if a'.1 then
    let r' := pointDecompress empty (signature.take 32)
    if r'.1 then
      let s := BignumQ.load32Bytes ((signature.drop 32).take 32)
      if BignumQ.gteQ s then false
      else verifyStep4 ((signature.drop 32).take 32) h' a'.2 r'.2
    else false
  else false

end HaclStar.Impl.Ed25519
