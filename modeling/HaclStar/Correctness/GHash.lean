import HaclStar.Impl.GF128Bytes
import HaclStar.Spec.GF128Field

/-! When the two implementations of the polynomial hash agree with its definition. -/

namespace HaclStar.Correctness.GHash

open Endianness Spec.GF128 Spec.Chacha20Poly1305

/-- Both implementations give the specified hash. -/
def Agree (authKey ad : Bytes) (adlen : UInt32) (ciphertext : Bytes) (len : UInt32) : Prop :=
  Impl.GCM.ghash authKey ad adlen ciphertext len = decode (ghash (encode authKey) ad ciphertext) ∧
    Impl.GCM.ghash authKey ad adlen ciphertext len = Impl.GF128Bytes.ghash authKey ad adlen ciphertext len

variable {authKey ad ciphertext : Bytes} {adlen len : UInt32}

/-- The second implementation is right, so only the first one can be wrong. -/
theorem agree_iff_specified (sizeK : authKey.length = 16) (sizeA : adlen.toNat = ad.length)
    (sizeC : len.toNat = ciphertext.length) :
    Agree authKey ad adlen ciphertext len ↔
      Impl.GCM.ghash authKey ad adlen ciphertext len = decode (ghash (encode authKey) ad ciphertext) := by
  rw [Agree, Impl.GF128Bytes.ghash_eq sizeK sizeA sizeC, and_self]

/-- Multiplying an accumulator once more makes no difference for the hash only when the accumulator is
zero, or the hash key is zero or one. -/
theorem extra_multiplication (block acc r : Elem) :
    fmul (fadd block (fmul acc r)) r = fmul (fadd block acc) r ↔ acc = zero ∨ r = zero ∨ r = one := by
  -- The difference of both sides is a product of two factors.
  have difference : fmul (fadd block (fmul acc r)) r = fmul (fadd block acc) r ↔
      fmul (fadd (fmul acc r) acc) r = zero := by
    rw [← fadd_eq_zero, ← fmul_fadd]
    have cancel : fadd (fadd block (fmul acc r)) (fadd block acc) = fadd (fmul acc r) acc := by
      rw [fadd_comm block, fadd_assoc, ← fadd_assoc block, fadd_self, zero_fadd]
    rw [cancel]
  rw [difference, fmul_eq_zero, fadd_eq_zero, fmul_eq_left, or_assoc, or_comm (a := r = one)]

/-- Without a ciphertext, the extra multiplication decides. -/
theorem agree_nil_iff (sizeK : authKey.length = 16) (sizeA : adlen.toNat = ad.length) :
    Agree authKey ad adlen [] 0 ↔
      poly (encodeBytes (pad16 ad)) (encode authKey) = zero ∨ encode authKey = zero ∨ encode authKey = one := by
  have accumulated : poly (encodeBytes (pad16 ad)) (encode authKey) =
      polyFrom zero (encodeBytes ad) (encode authKey) := by rw [poly_eq_polyFrom, polyFrom_pad16]
  have specified := ghash_eq (encode authKey) ad []
  have injective : ∀ x y : Elem, decode x = decode y ↔ x = y := by
    intro x y
    constructor
    · intro same
      rw [← encode_decode x, same, encode_decode]
    · exact congrArg decode
  rw [encodeBytes, encodeBytes, Spec.Poly1305.encodeBytes_nil, polyFrom_nil, ← encodeBytes] at specified
  rw [agree_iff_specified sizeK sizeA (by rfl), Impl.GCM.ghash_nil sizeK sizeA, specified, injective, accumulated,
    List.length_nil, Nat.mul_zero, extra_multiplication]

/-- The implementations agree exactly when there is a ciphertext, or the additional data hash to zero, or
the hash key is zero or one. -/
theorem ghash_agree_iff (sizeK : authKey.length = 16) (sizeA : adlen.toNat = ad.length)
    (sizeC : len.toNat = ciphertext.length) :
    Agree authKey ad adlen ciphertext len ↔
      ciphertext ≠ [] ∨ poly (encodeBytes (pad16 ad)) (encode authKey) = zero ∨
        encode authKey = zero ∨ encode authKey = one := by
  cases ciphertext with
  | nil =>
    have empty : len = 0 := UInt32.toNat_inj.mp sizeC
    rw [empty, agree_nil_iff sizeK sizeA]
    simp
  | cons x rest =>
    -- Every block of the ciphertext is absorbed once, and nothing else.
    rw [agree_iff_specified sizeK sizeA sizeC, Impl.GCM.ghash_eq sizeK sizeA sizeC (List.cons_ne_nil x rest)]
    simp

theorem ghash_agree_iff_short :
    Agree (64 :: List.replicate 15 0) [1, 2, 3] 3 [4] 1 ↔
      [4] ≠ ([] : Bytes) ∨ poly (encodeBytes (pad16 [1, 2, 3])) (encode (64 :: List.replicate 15 0)) = zero ∨
        encode (64 :: List.replicate 15 0) = zero ∨ encode (64 :: List.replicate 15 0) = one :=
  ghash_agree_iff (by decide) (by decide) (by decide)

/-- One byte of additional data and no ciphertext, under the indeterminate as the key. -/
theorem ghash_empty_ciphertext_diverges : ¬ Agree (64 :: List.replicate 15 0) [1] 1 [] 0 := by
  rw [agree_nil_iff (by decide) (by decide)]
  have block : encodeBytes (pad16 [1]) = [1 :: List.replicate 15 0] :=
    Spec.Poly1305.encodeBytes_short (by decide) (by decide)
  rw [block]
  decide +kernel

end HaclStar.Correctness.GHash
