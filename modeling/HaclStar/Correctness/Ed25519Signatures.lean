import HaclStar.Spec.Ed25519Encoding
import HaclStar.Spec.Ed25519Order

/-! Ed25519 signatures: the equation that verification decides, completeness, and the strictness of the encoding. -/

namespace HaclStar.Correctness.Ed25519Signatures

open Endianness
open HaclStar.Spec.Ed25519

/-- A string decompresses to a point of the curve. -/
def Decodes (s : Bytes) (a : Edwards.Point curve) : Prop := ∃ p, pointDecompress s = some p ∧ Denotes p a

/-- The scalar that the second half of a signature encodes. -/
def scalarOf (signature : Bytes) : Nat := littleEndian ((signature.drop 32).take 32)

/-- The hash of the point of the signature, the public key and the message. -/
def challenge (pub msg signature : Bytes) : Nat := sha512Modq (signature.take 32 ++ pub ++ msg)

/-- What decompresses is a point of the curve. -/
theorem exists_decodes {s : Bytes} {p : ExtPoint} (run : pointDecompress s = some p) :
    ∃ a, Denotes p a ∧ Decodes s a := by
  obtain ⟨x, recovers, rfl⟩ := (pointDecompress_eq_some_iff s p).mp run
  obtain ⟨a, denotes, -⟩ := denotes_decompressed recovers
  exact ⟨a, denotes, _, run, denotes⟩

/-- Points with the same coordinates are the same. -/
theorem Decodes.unique {s : Bytes} {p : ExtPoint} {a b : Edwards.Point curve} (decodes : Decodes s a)
    (run : pointDecompress s = some p) (denotes : Denotes p b) : a = b := by
  obtain ⟨p', run', denotes'⟩ := decodes
  obtain rfl : p' = p := Option.some.inj (run'.symm.trans run)
  -- A point is equal to itself under the test that compares the points they denote.
  have reflexive : pointEqual p' p' = true := by
    simp only [pointEqual, ne_eq, not_true_eq_false, if_false]
  exact (denotes'.pointEqual_iff denotes).mp reflexive

theorem sha512Modq_lt (s : Bytes) : sha512Modq s < q := Nat.mod_lt _ q_prime.pos

/-- The last test of verification compares points of the curve. -/
theorem pointEqual_equation {a' r' : ExtPoint} {A R : Edwards.Point curve} (key : Denotes a' A)
    (nonce : Denotes r' R) {s c : Nat} (small : s < q) (small' : c < q) :
    pointEqual (pointMul (littleBytes 32 s) g) (pointAdd r' (pointMul (littleBytes 32 c) a')) = true ↔
      s • base = R + c • A := by
  have left := pointMul_denotes (littleBytes 32 s) denotes_g
  have right := nonce.add (pointMul_denotes (littleBytes 32 c) key)
  rw [littleEndian_scalar small.le] at left
  rw [littleEndian_scalar small'.le] at right
  exact left.pointEqual_iff right

/-- What is accepted decompresses, has a scalar below the order and satisfies the equation of the group. -/
theorem equation_of_verify {pub msg signature : Bytes} (accepted : verify pub msg signature = true) :
    ∃ A R, Decodes pub A ∧ Decodes (signature.take 32) R ∧ scalarOf signature < q ∧
      scalarOf signature • base = R + challenge pub msg signature • A := by
  rw [verify] at accepted
  cases key : pointDecompress pub with
  | none =>
    rw [key] at accepted
    cases accepted
  | some a' =>
    rw [key] at accepted
    cases nonce : pointDecompress (signature.take 32) with
    | none =>
      simp only [nonce] at accepted
      cases accepted
    | some r' =>
      simp only [nonce] at accepted
      obtain ⟨A, denotesA, decodesA⟩ := exists_decodes key
      obtain ⟨R, denotesR, decodesR⟩ := exists_decodes nonce
      by_cases large : littleEndian ((signature.drop 32).take 32) ≥ q
      · rw [if_pos large] at accepted
        cases accepted
      · have small := not_le.mp large
        rw [if_neg large] at accepted
        exact ⟨A, R, decodesA, decodesR, small,
          (pointEqual_equation denotesA denotesR small (sha512Modq_lt _)).mp accepted⟩

/-- What satisfies the equation is accepted. -/
theorem verify_of_equation {pub msg signature : Bytes} {A R : Edwards.Point curve} (key : Decodes pub A)
    (nonce : Decodes (signature.take 32) R) (small : scalarOf signature < q)
    (equation : scalarOf signature • base = R + challenge pub msg signature • A) :
    verify pub msg signature = true := by
  obtain ⟨a', runA, denotesA⟩ := key
  obtain ⟨r', runR, denotesR⟩ := nonce
  have canonical : ¬ littleEndian ((signature.drop 32).take 32) ≥ q := not_le.mpr small
  rw [verify, runA]
  simp only [runR]
  rw [if_neg canonical]
  exact (pointEqual_equation denotesA denotesR small (sha512Modq_lt _)).mpr equation

/--
Verification decides the equation of the group.

A signature is accepted exactly when the key and its first half decompress, its scalar is below the order, and the
scalar times the base point is the first point plus the challenge times the key.
-/
theorem verify_iff_equation (pub msg signature : Bytes) :
    verify pub msg signature = true ↔
      ∃ A R, Decodes pub A ∧ Decodes (signature.take 32) R ∧ scalarOf signature < q ∧
        scalarOf signature • base = R + challenge pub msg signature • A := by
  constructor
  · exact equation_of_verify
  · rintro ⟨A, R, key, nonce, small, equation⟩
    exact verify_of_equation key nonce small equation

/-- The point of a multiple of the base point comes back from its string. -/
theorem decodes_multiple (scalar : Bytes) :
    Decodes (pointCompress (pointMul scalar g)) (littleEndian scalar • base) :=
  pointDecompress_compress (pointMul_denotes scalar denotes_g)

/-- The scalar of a signature, of the nonce `r`, the challenge `c` and the secret `a`. -/
theorem response_nsmul (r c a : Nat) : ((r + c * a % q) % q) • base = r • base + c • a • base := by
  calc ((r + c * a % q) % q) • base = (r + c * a % q) • base := mod_nsmul_base _
    _ = r • base + (c * a % q) • base := add_nsmul base r _
    _ = r • base + (c * a) • base := by rw [mod_nsmul_base]
    _ = r • base + c • a • base := by rw [mul_comm c a, mul_nsmul]

/-- What is signed is accepted under the public key of the secret, for every secret and every message. -/
theorem sign_verifies (secret msg : Bytes) : verify (secretToPublic secret) msg (sign secret msg) = true := by
  set a := littleEndian (secretExpand secret).1 with secretScalar
  set r := sha512Modq ((secretExpand secret).2 ++ msg) with nonceScalar
  set rs := pointCompress (pointMul (littleBytes 32 r) g) with nonceString
  set c := sha512Modq (rs ++ secretToPublic secret ++ msg) with challengeScalar
  set s := (r + c * a % q) % q with responseScalar
  have signed : sign secret msg = rs ++ littleBytes 32 s := rfl
  have width : rs.length = 32 := littleBytes_length 32 _
  have small : s < q := Nat.mod_lt _ q_prime.pos
  -- The signature falls apart into the halves it was made of.
  have first : (sign secret msg).take 32 = rs := by rw [signed, ← width, List.take_left]
  have second : scalarOf (sign secret msg) = s := by
    have rest : (rs ++ littleBytes 32 s).drop 32 = littleBytes 32 s := by rw [← width, List.drop_left]
    rw [scalarOf, signed, rest, List.take_of_length_le (littleBytes_length 32 s).le, littleEndian_scalar small.le]
  have key : Decodes (secretToPublic secret) (a • base) := decodes_multiple _
  have nonce : Decodes rs (r • base) := by
    have multiple := decodes_multiple (littleBytes 32 r)
    rwa [littleEndian_scalar (sha512Modq_lt _).le] at multiple
  refine verify_of_equation (A := a • base) (R := r • base) key ?_ ?_ ?_
  · rw [first]
    exact nonce
  · rw [second]
    exact small
  · rw [second, challenge, first]
    exact response_nsmul r c a

/-- The scalar of a signature of two halves. -/
theorem scalarOf_append {rs s : Bytes} (width : rs.length = 32) (width' : s.length = 32) :
    scalarOf (rs ++ s) = littleEndian s := by
  rw [scalarOf, ← width, List.drop_left, width, ← width', List.take_length]

/-- The first half of a signature of two halves. -/
theorem take_append {rs : Bytes} (width : rs.length = 32) (s : Bytes) : (rs ++ s).take 32 = rs := by
  rw [← width, List.take_left]

/-- Two accepted signatures with one first half have one scalar. -/
theorem scalar_unique {pub msg rs s s' : Bytes} (width : rs.length = 32) (width' : s.length = 32)
    (width'' : s'.length = 32) (accepted : verify pub msg (rs ++ s) = true)
    (accepted' : verify pub msg (rs ++ s') = true) : littleEndian s = littleEndian s' := by
  obtain ⟨A, R, ⟨p, key, denotesA⟩, ⟨p', nonce, denotesR⟩, small, equation⟩ := equation_of_verify accepted
  obtain ⟨A', R', decodesA, decodesR, small', equation'⟩ := equation_of_verify accepted'
  rw [take_append width] at nonce decodesR
  rw [scalarOf_append width width'] at small equation
  rw [scalarOf_append width width''] at small' equation'
  have challenges : challenge pub msg (rs ++ s) = challenge pub msg (rs ++ s') := by
    rw [challenge, challenge, take_append width, take_append width]
  -- Both equations have the same right side.
  rw [decodesA.unique key denotesA, decodesR.unique nonce denotesR, ← challenges, ← equation] at equation'
  exact nsmul_base_injective small small' equation'.symm

/--
Signatures are strictly encoded.

At most one second half completes a first half; adding the order to an accepted scalar gives a rejected signature; and
the first half of an accepted signature is the one string of its point, with a canonical second coordinate and the
sign zero for the first coordinate zero.
-/
theorem signatures_strict (pub msg rs s : Bytes) (width : rs.length = 32) (width' : s.length = 32)
    (accepted : verify pub msg (rs ++ s) = true) :
    (∀ s' : Bytes, s'.length = 32 → verify pub msg (rs ++ s') = true → s' = s) ∧
      verify pub msg (rs ++ littleBytes 32 (littleEndian s + q)) = false ∧
      ∃ p, pointDecompress rs = some p ∧ OnCurve p ∧ pointCompress p = rs ∧ yOf rs < Spec.Curve25519.prime ∧
        (p.x = 0 → signOf rs = false) := by
  obtain ⟨A, R, -, ⟨p, nonce, denotes⟩, small, -⟩ := equation_of_verify accepted
  rw [take_append width] at nonce
  rw [scalarOf_append width width'] at small
  refine ⟨fun s' width'' accepted' => ?_, ?_, p, nonce, (onCurve_iff p).mpr ⟨R, denotes⟩, ?_⟩
  · exact littleEndian_injective (width''.trans width'.symm) (scalar_unique width width'' width' accepted' accepted)
  · -- The sum still fits thirty-two bytes, and is at least the order.
    rw [Bool.eq_false_iff]
    intro accepted'
    obtain ⟨-, -, -, -, small', -⟩ := equation_of_verify accepted'
    have fits : 2 * q < 2 ^ (8 * 32) := by decide
    rw [scalarOf_append width (littleBytes_length 32 _), littleEndian_littleBytes,
      Nat.mod_eq_of_lt (by omega)] at small'
    omega
  · obtain ⟨x, recovers, rfl⟩ := (pointDecompress_eq_some_iff rs p).mp nonce
    refine ⟨pointCompress_decompressed width recovers, recovers.canonical, ?_⟩
    intro zero
    have parity := recovers.parity
    rw [show x = 0 from zero] at parity
    exact parity.symm

/-- The neutral point as key and first half, with the scalar zero, is accepted; so no other scalar is. -/
theorem signatures_strict_neutral :
    (∀ s' : Bytes, s'.length = 32 → verify (1 :: List.replicate 31 0) [] (1 :: List.replicate 31 0 ++ s') = true →
        s' = List.replicate 32 0) ∧
      verify (1 :: List.replicate 31 0) []
          (1 :: List.replicate 31 0 ++ littleBytes 32 (littleEndian (List.replicate 32 0) + q)) = false ∧
      ∃ p, pointDecompress (1 :: List.replicate 31 0) = some p ∧ OnCurve p ∧
        pointCompress p = 1 :: List.replicate 31 0 ∧ yOf (1 :: List.replicate 31 0) < Spec.Curve25519.prime ∧
        (p.x = 0 → signOf (1 :: List.replicate 31 0) = false) := by
  refine signatures_strict (1 :: List.replicate 31 0) [] (1 :: List.replicate 31 0) (List.replicate 32 0)
    (by decide) (by decide) ?_
  have neutral : Decodes (1 :: List.replicate 31 0) 0 := by
    have decodes : Decodes (pointCompress ⟨0, 1, 1, 0⟩) 0 := pointDecompress_compress denotes_zero
    have string : pointCompress ⟨0, 1, 1, 0⟩ = 1 :: List.replicate 31 0 := by decide +kernel
    rwa [string] at decodes
  have scalar : scalarOf (1 :: List.replicate 31 0 ++ List.replicate 32 0) = 0 := by decide
  have first : (1 :: List.replicate 31 0 ++ List.replicate 32 0 : Bytes).take 32 = 1 :: List.replicate 31 0 := by
    decide
  refine verify_of_equation neutral (R := 0) ?_ ?_ ?_
  · rw [first]
    exact neutral
  · rw [scalar]
    exact q_prime.pos
  · rw [scalar, zero_nsmul, nsmul_zero, add_zero]

end HaclStar.Correctness.Ed25519Signatures
