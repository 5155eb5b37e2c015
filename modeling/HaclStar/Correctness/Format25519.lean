import HaclStar.Impl.Format25519

/-! The strings of field elements are canonical. -/

namespace HaclStar.Correctness.Format25519

open HaclStar.Impl Bignum25519 Format25519 Endianness
open HaclStar.Spec.Curve25519 (modulus)

/-- A residue has one string of its own. -/
theorem littleEndian_residue (n : Nat) : littleEndian (littleBytes 32 (n % modulus)) = n % modulus := by
  have small : n % modulus < modulus := Nat.mod_lt n (by decide)
  have width : modulus < 2 ^ (8 * 32) := by decide
  rw [littleEndian_littleBytes, Nat.mod_eq_of_lt (small.trans width)]

/--
Contraction writes the residue of an element, and depends on nothing else.

A string that is expanded and contracted comes back reduced.
-/
theorem encoding_canonical (a b : Felem) (s : Bytes) (below : FiveLimbs.Below p513 a)
    (below' : FiveLimbs.Below p513 b) (size : s.length = 32) :
    fcontract a = littleBytes 32 (field.seval a % modulus) ∧
      littleEndian (fcontract a) < modulus ∧
      (field.seval a ≡ field.seval b [MOD modulus] → fcontract a = fcontract b) ∧
      FiveLimbs.Below p513 (fexpand s) ∧
      (littleEndian s < modulus → fcontract (fexpand s) = s) ∧
      fcontract (fexpand s) = littleBytes 32 (littleEndian s % 2 ^ 255 % modulus) := by
  obtain ⟨expanded, value⟩ := fexpand_spec size
  have expanded' : FiveLimbs.Below p513 (fexpand s) := expanded.mono (by decide)
  have through := fcontract_spec expanded'
  rw [value] at through
  refine ⟨fcontract_spec below, ?_, ?_, expanded', ?_, through⟩
  · rw [fcontract_spec below, littleEndian_residue]
    exact Nat.mod_lt _ (by decide)
  · intro same
    rw [fcontract_spec below, fcontract_spec below', same]
  · -- A value below the prime has no highest bit, and is its own residue.
    intro small
    have bit : modulus < 2 ^ 255 := by decide
    rw [through, Nat.mod_eq_of_lt (small.trans bit), Nat.mod_eq_of_lt small, ← size, littleBytes_littleEndian]

/-- The prime itself is a second form of zero. -/
theorem encoding_canonical_prime :
    fcontract (FiveLimbs.upd5 p51m19 p51m1 p51m1 p51m1 p51m1) = fcontract zero :=
  (encoding_canonical (FiveLimbs.upd5 p51m19 p51m1 p51m1 p51m1 p51m1) zero (List.replicate 32 0)
    (FiveLimbs.below_upd5.mpr (by decide)) (FiveLimbs.below_upd5.mpr (by decide))
    (List.length_replicate ..)).2.2.1 (by decide)

end HaclStar.Correctness.Format25519
