import HaclStar.Impl.Bignum25519
import HaclStar.Lib.Endianness

/-! Field elements of Curve25519 as strings of thirty-two bytes. -/

namespace HaclStar.Impl.Format25519

open Bignum25519 FiveLimbs Limbs Endianness
open Spec.Curve25519 (modulus)

/-- Load eight bytes as a limb. -/
def load64Le (b : Bytes) : Limb := BitVec.ofNat 64 (littleEndian b)

/-- The bytes of a limb. -/
def store64Le (z : Limb) : Bytes := littleBytes 8 z.toNat

/-- Eight bytes within a string. -/
def slice8 (input : Bytes) (start : Nat) : Bytes := (input.drop start).take 8

/-- Expand a string into limbs, from words that overlap. -/
def fexpand (input : Bytes) : Felem :=
  let i0 := load64Le (slice8 input 0)
  let i1 := load64Le (slice8 input 6)
  let i2 := load64Le (slice8 input 12)
  let i3 := load64Le (slice8 input 19)
  let i4 := load64Le (slice8 input 24)
  let output0 := i0 &&& mask51
  let output1 := i1 >>> 3 &&& mask51
  let output2 := i2 >>> 6 &&& mask51
  let output3 := i3 >>> 1 &&& mask51
  let output4 := i4 >>> 12 &&& mask51
  upd5 output0 output1 output2 output3 output4

/-- Four words, one behind the other. -/
def store4 (v0 v1 v2 v3 : Limb) : Bytes := store64Le v0 ++ store64Le v1 ++ store64Le v2 ++ store64Le v3

/-- Join the limbs to four words. -/
def fcontractStore (input : Felem) : Bytes :=
  let t0 := input.get limb0
  let t1 := input.get limb1
  let t2 := input.get limb2
  let t3 := input.get limb3
  let t4 := input.get limb4
  let o0 := t1 <<< 51 ||| t0
  let o1 := t2 <<< 38 ||| t1 >>> 13
  let o2 := t3 <<< 25 ||| t2 >>> 26
  let o3 := t4 <<< 12 ||| t3 >>> 39
  store4 o0 o1 o2 o3

/-- Reduce an element, and write it as a string. -/
def fcontract (input : Felem) : Bytes := fcontractStore (reduce input)

/-- A limb within a string, from the word that holds its bits. -/
theorem load_limb {input : Bytes} (size : input.length = 32) (start shift offset : Nat)
    (within : start + 8 ≤ 32) (position : 8 * start + shift = offset) (room : shift + 51 ≤ 64) :
    (load64Le (slice8 input start) >>> shift &&& mask51).toNat = littleEndian input / 2 ^ offset % 2 ^ 51 := by
  have word : (load64Le (slice8 input start)).toNat = littleEndian input / 2 ^ (8 * start) % 2 ^ 64 := by
    rw [load64Le, slice8, littleEndian_slice _ _ (by omega), BitVec.toNat_ofNat, Nat.mod_mod]
  have split : 2 ^ 64 = 2 ^ shift * 2 ^ (64 - shift) := by
    rw [← Nat.pow_add]
    congr 1
    omega
  -- The bits above the limb are cut by the mask, the ones below by the shift.
  rw [toNat_and_mask' 51 rfl, BitVec.toNat_ushiftRight, word, Nat.shiftRight_eq_div_pow, split,
    Nat.mod_mul_right_div_self, Nat.mod_mod_of_dvd _ (Nat.pow_dvd_pow 2 (by omega)), Nat.div_div_eq_div_mul,
    ← Nat.pow_add, position]

/-- The limbs are those of the string without its highest bit. -/
theorem fexpand_spec {input : Bytes} (size : input.length = 32) :
    Below p51 (fexpand input) ∧ field.seval (fexpand input) = littleEndian input % 2 ^ 255 := by
  have limb0 := load_limb size 0 0 0 (by decide) rfl (by decide)
  have limb1 := load_limb size 6 3 51 (by decide) rfl (by decide)
  have limb2 := load_limb size 12 6 102 (by decide) rfl (by decide)
  have limb3 := load_limb size 19 1 153 (by decide) rfl (by decide)
  have limb4 := load_limb size 24 12 204 (by decide) rfl (by decide)
  have bound : p51 = 2 ^ 51 := rfl
  rw [BitVec.ushiftRight_zero] at limb0
  generalize littleEndian input = n at limb0 limb1 limb2 limb3 limb4 ⊢
  constructor
  · exact below_upd5.mpr ⟨by omega, by omega, by omega, by omega, by omega⟩
  · rw [seval_eq]
    show (load64Le (slice8 input 0) &&& mask51).toNat + 2 ^ 51 * (load64Le (slice8 input 6) >>> 3 &&& mask51).toNat +
      2 ^ 102 * (load64Le (slice8 input 12) >>> 6 &&& mask51).toNat +
      2 ^ 153 * (load64Le (slice8 input 19) >>> 1 &&& mask51).toNat +
      2 ^ 204 * (load64Le (slice8 input 24) >>> 12 &&& mask51).toNat = _
    rw [limb0, limb1, limb2, limb3, limb4]
    omega

/-- A limb moved up, and the low bits below it. -/
theorem toNat_join (high : Limb) {low : Limb} (k : Nat) (room : k ≤ 64) (small : low.toNat < 2 ^ k) :
    (high <<< k ||| low).toNat = high.toNat % 2 ^ (64 - k) * 2 ^ k + low.toNat := by
  have split : 2 ^ 64 = 2 ^ (64 - k) * 2 ^ k := by
    rw [← Nat.pow_add]
    congr 1
    omega
  rw [BitVec.toNat_or, BitVec.toNat_shiftLeft, Nat.shiftLeft_eq, split, Nat.mul_mod_mul_right, mul_or_eq_add small]

/-- The words of a value. -/
theorem littleBytes_words (n : Nat) :
    littleBytes 32 n = littleBytes 8 (n % 2 ^ 64) ++ littleBytes 8 (n / 2 ^ 64 % 2 ^ 64) ++
      littleBytes 8 (n / 2 ^ 128 % 2 ^ 64) ++ littleBytes 8 (n / 2 ^ 192 % 2 ^ 64) := by
  have word (m : Nat) : littleBytes 8 (m % 2 ^ 64) = littleBytes 8 m := littleBytes_mod 8 m
  have first := littleBytes_add 8 24 n
  have second := littleBytes_add 8 16 (n / 2 ^ 64)
  have third := littleBytes_add 8 8 (n / 2 ^ 128)
  rw [Nat.div_div_eq_div_mul, ← Nat.pow_add] at second third
  rw [word, word, word, word, List.append_assoc, List.append_assoc, ← third, ← second, ← first]

/-- Limbs in range are stored as the bytes of their value. -/
theorem fcontractStore_spec {a : Felem} (below : Below p51 a) : fcontractStore a = littleBytes 32 (field.seval a) := by
  obtain ⟨t0, t1, t2, t3, t4, rfl⟩ := five a
  obtain ⟨below0, below1, below2, below3, below4⟩ := below_upd5.mp below
  have bound : p51 = 2 ^ 51 := rfl
  have shifted (x : Limb) (k : Nat) : (x >>> k).toNat = x.toNat / 2 ^ k := by
    rw [BitVec.toNat_ushiftRight, Nat.shiftRight_eq_div_pow]
  have o0 := @toNat_join t1 t0 51 (by decide) (by omega)
  have o1 := @toNat_join t2 (t1 >>> 13) 38 (by decide) (by rw [shifted]; omega)
  have o2 := @toNat_join t3 (t2 >>> 26) 25 (by decide) (by rw [shifted]; omega)
  have o3 := @toNat_join t4 (t3 >>> 39) 12 (by decide) (by rw [shifted]; omega)
  rw [shifted] at o1 o2 o3
  have value : field.seval (upd5 t0 t1 t2 t3 t4) = t0.toNat + 2 ^ 51 * t1.toNat + 2 ^ 102 * t2.toNat +
      2 ^ 153 * t3.toNat + 2 ^ 204 * t4.toNat := seval_eq _
  generalize field.seval (upd5 t0 t1 t2 t3 t4) = n at value ⊢
  -- A word holds what its predecessor left of one limb, and above it the start of the next limb.
  have word0 : n % 2 ^ 64 = (t1 <<< 51 ||| t0).toNat := by omega
  have word1 : n / 2 ^ 64 % 2 ^ 64 = (t2 <<< 38 ||| t1 >>> 13).toNat := by omega
  have word2 : n / 2 ^ 128 % 2 ^ 64 = (t3 <<< 25 ||| t2 >>> 26).toNat := by omega
  have word3 : n / 2 ^ 192 % 2 ^ 64 = (t4 <<< 12 ||| t3 >>> 39).toNat := by omega
  rw [littleBytes_words, word0, word1, word2, word3]
  rfl

/-- An element is written as the bytes of its residue. -/
theorem fcontract_spec {a : Felem} (below : Below p513 a) :
    fcontract a = littleBytes 32 (field.seval a % modulus) := by
  obtain ⟨below', value⟩ := reduce_spec below
  rw [fcontract, fcontractStore_spec below', value, field_prime]

end HaclStar.Impl.Format25519
