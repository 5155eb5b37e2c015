import HaclStar.Correctness.Ed25519Ladder
import HaclStar.Correctness.Ed25519Signatures
import HaclStar.Impl.Ed25519Verify

/-! Multiples of the base point on limbs are the strings of public keys and nonces, and verification on limbs is that of
the specification. -/

namespace HaclStar.Correctness.Ed25519BasePoint

open Endianness
open HaclStar.Spec.Ed25519
open HaclStar.Impl.Ed25519 (PointInv makeG makeG_inv pointMulG pointMulGCompress verifyStep4 pointAdd_inv pointMul_inv
  pointCompress_spec pointEqual_spec)
open HaclStar.Correctness.Ed25519Signatures

variable {p : Impl.Ed25519.Point} {e : ExtPoint}

/-- Multiplication by a scalar of thirty-two bytes is that of the specification. -/
theorem pointMul_inv_spec {k : Bytes} (size : k.length = 32) (inv : PointInv p e) :
    PointInv (Impl.Ed25519.pointMul k p) (pointMul k e) := by
  have turns := pointMul_inv (b := Ed25519Ladder.initialBuffer p) size Ed25519Ladder.makePointInf_inv inv (le_refl 256)
  have result : Impl.Ed25519.pointMul k p = (Impl.Ed25519.pointMul_ (Ed25519Ladder.initialBuffer p) k 256).nq := rfl
  rw [result, pointMul, size]
  exact turns.1

/-- The string of a multiple is that of the specification. -/
theorem pointMulGCompress_spec {k : Bytes} (size : k.length = 32) :
    pointMulGCompress k = pointCompress (pointMul k g) :=
  pointCompress_spec (pointMul_inv_spec size makeG_inv)

/-- Equal strings of multiples are strings of equal points. -/
theorem multiple_unique {k k' : Bytes} (same : pointCompress (pointMul k g) = pointCompress (pointMul k' g)) :
    littleEndian k • base = littleEndian k' • base := by
  obtain ⟨e, run, denotes⟩ := decodes_multiple k'
  have decodes := decodes_multiple k
  rw [same] at decodes
  exact decodes.unique run denotes

/--
The limbs compute the strings of the multiples of the base point.

The string is that of the specification, it decompresses to the multiple, and two scalars give the same string exactly
when they are congruent modulo the order.
-/
theorem base_multiples (k : Bytes) (size : k.length = 32) :
    pointMulGCompress k = pointCompress (pointMul k g) ∧ Decodes (pointMulGCompress k) (littleEndian k • base) ∧
      ∀ k' : Bytes, k'.length = 32 →
        (pointMulGCompress k = pointMulGCompress k' ↔ littleEndian k ≡ littleEndian k' [MOD q]) := by
  have string := pointMulGCompress_spec size
  refine ⟨string, ?_, fun k' size' => ?_⟩
  · rw [string]
    exact decodes_multiple k
  · rw [string, pointMulGCompress_spec size', ← addOrderOf_base, ← nsmul_eq_nsmul_iff_modEq]
    constructor
    · exact multiple_unique
    · intro equal
      have product := pointMul_denotes k denotes_g
      rw [equal] at product
      exact pointCompress_unique product (pointMul_denotes k' denotes_g)

/-- The scalar two. -/
theorem base_multiples_two :
    pointMulGCompress (2 :: List.replicate 31 0) = pointCompress (pointMul (2 :: List.replicate 31 0) g) ∧
      Decodes (pointMulGCompress (2 :: List.replicate 31 0)) (littleEndian (2 :: List.replicate 31 0) • base) ∧
      ∀ k' : Bytes, k'.length = 32 → (pointMulGCompress (2 :: List.replicate 31 0) = pointMulGCompress k' ↔
        littleEndian (2 :: List.replicate 31 0) ≡ littleEndian k' [MOD q]) :=
  base_multiples (2 :: List.replicate 31 0) (by decide)

/-- The last test on limbs is that of the specification. -/
theorem verifyStep4_spec {s h' : Bytes} {a' r' : Impl.Ed25519.Point} {key nonce : ExtPoint} (size : s.length = 32)
    (size' : h'.length = 32) (invA : PointInv a' key) (invR : PointInv r' nonce) :
    verifyStep4 s h' a' r' = pointEqual (pointMul s g) (pointAdd nonce (pointMul h' key)) :=
  pointEqual_spec (pointMul_inv_spec size makeG_inv) (pointAdd_inv invR (pointMul_inv_spec size' invA))

/-- The range test on limbs is that of the specification. -/
theorem gteQ_load {s : Bytes} (size : s.length = 32) :
    Impl.BignumQ.gteQ (Impl.BignumQ.load32Bytes s) = decide (q ≤ littleEndian s) := by
  obtain ⟨within, value⟩ := Impl.BignumQ.load32Bytes_spec size
  rw [Impl.BignumQ.gteQ_eq within, value]

/-- Verification on limbs decides what the specification decides, for all keys and signatures, also those that do not
decompress and those whose scalar is too large. -/
theorem verify_agrees (pub msg signature : Bytes) (size : pub.length = 32) (size' : signature.length = 64) :
    Impl.Ed25519.verify_ pub signature (littleBytes 32 (challenge pub msg signature)) = verify pub msg signature := by
  have half : (signature.take 32).length = 32 := by rw [List.length_take, size']; rfl
  have half' : ((signature.drop 32).take 32).length = 32 := by rw [List.length_take, List.length_drop, size']; rfl
  -- A scalar below the order is that of its bytes.
  have scalar (small : littleEndian ((signature.drop 32).take 32) < q) :
      littleBytes 32 (littleEndian ((signature.drop 32).take 32)) = (signature.drop 32).take 32 := by
    have bytes := littleBytes_littleEndian ((signature.drop 32).take 32)
    rwa [half'] at bytes
  have decompressed := Impl.Ed25519.pointDecompress_spec
    ⟨Impl.Bignum25519.zero, Impl.Bignum25519.zero, Impl.Bignum25519.zero, Impl.Bignum25519.zero⟩ size
  have decompressed' := Impl.Ed25519.pointDecompress_spec
    ⟨Impl.Bignum25519.zero, Impl.Bignum25519.zero, Impl.Bignum25519.zero, Impl.Bignum25519.zero⟩ half
  rw [verify]
  simp only [Impl.Ed25519.verify_, gteQ_load half']
  cases key : pointDecompress pub with
  | none =>
    simp only [key] at decompressed
    rw [decompressed]
    rfl
  | some a =>
    simp only [key] at decompressed
    obtain ⟨a', run, invA⟩ := decompressed
    rw [run, if_pos rfl]
    cases nonce : pointDecompress (signature.take 32) with
    | none =>
      simp only [nonce] at decompressed'
      simp only [decompressed', Bool.false_eq_true, if_false]
    | some r =>
      simp only [nonce] at decompressed'
      obtain ⟨r', run', invR⟩ := decompressed'
      simp only [run', if_true, decide_eq_true_eq]
      by_cases large : littleEndian ((signature.drop 32).take 32) ≥ q
      · rw [if_pos large, if_pos large]
      · rw [if_neg large, if_neg large, verifyStep4_spec half' (littleBytes_length 32 _) invA invR,
          scalar (not_le.mp large)]
        rfl

/-- Strings of zeros. -/
theorem verify_agrees_zeros :
    Impl.Ed25519.verify_ (List.replicate 32 0) (List.replicate 64 0)
        (littleBytes 32 (challenge (List.replicate 32 0) [] (List.replicate 64 0))) =
      verify (List.replicate 32 0) [] (List.replicate 64 0) :=
  verify_agrees (List.replicate 32 0) [] (List.replicate 64 0) List.length_replicate List.length_replicate

end HaclStar.Correctness.Ed25519BasePoint
