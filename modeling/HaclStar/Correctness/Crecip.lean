import HaclStar.Impl.Crecip

/-! The two addition chains of Curve25519 raise a field element to the powers of an inverse and of a square root. -/

namespace HaclStar.Correctness.Crecip

open HaclStar.Impl
open HaclStar.Impl.Bignum25519 (Felem Holds p513 seval seval_eq_of_holds holds_seval)
open HaclStar.Impl.FiveLimbs (Below)
open HaclStar.Spec.Curve25519

/-- Limbs that stand for a power of an element have the value that the specification computes. -/
theorem seval_pow {z r : Felem} {n : Nat} (positive : 0 < n) (power : Holds p513 r ((seval z : ZMod modulus) ^ n)) :
    seval r = pow (seval z) n :=
  seval_eq_of_holds (power.congr (cast_pow (seval z) positive).symm) (reduced_pow (reduced_mod _) n)

/-- An element times the power that is two less than the modulus is one, unless it is zero. -/
theorem fmul_pow_inverse {e : Int} (reduced : Reduced e) (some : e ≠ 0) : fmul e (pow e (2 ^ 255 - 21)) = 1 := by
  -- In the field the power is the inverse, by Fermat's theorem.
  have apart : (e : ZMod modulus) ≠ 0 := by
    intro zero
    have reducedZero : Reduced 0 := ⟨le_refl 0, by decide⟩
    exact some ((reduced.eq_iff reducedZero).mpr (by rw [zero, Int.cast_zero]))
  have exponent : (2 ^ 255 - 21 : Nat) = (prime - 2).toNat := by decide +kernel
  have reducedOne : Reduced 1 := ⟨by decide, by decide⟩
  refine ((reduced_fmul _ _).eq_iff reducedOne).mpr ?_
  rw [cast_fmul, exponent, cast_inverse, mul_inv_cancel₀ apart, Int.cast_one]

/-- The chains take the powers of the inverse and of the square root, and stay within the bound of products. -/
theorem crecip_powers {z : Felem} (below : Below p513 z) :
    (Below p513 (Crecip.crecip z) ∧ seval (Crecip.crecip z) = pow (seval z) (2 ^ 255 - 21)) ∧
      (Below p513 (Crecip.crecip' z) ∧ seval (Crecip.crecip' z) = pow (seval z) (2 ^ 252 - 2)) ∧
      (seval z ≠ 0 → fmul (seval z) (seval (Crecip.crecip z)) = 1) ∧
      (prime + 3) / 8 = 2 ^ 252 - 2 := by
  have first := Bignum25519.crecip_holds (holds_seval below)
  have second := Bignum25519.crecip'_holds (holds_seval below)
  rw [← Impl.Crecip.crecip_eq] at first
  rw [← Impl.Crecip.crecip'_eq] at second
  have value := seval_pow (by norm_num) first
  refine ⟨⟨first.below, value⟩, ⟨second.below, seval_pow (by norm_num) second⟩, fun some => ?_, by decide⟩
  rw [value]
  exact fmul_pow_inverse (reduced_mod _) some

theorem crecip_powers_two :
    fmul (seval (FiveLimbs.upd5 2 0 0 0 0)) (seval (Crecip.crecip (FiveLimbs.upd5 2 0 0 0 0))) = 1 :=
  (crecip_powers (FiveLimbs.below_upd5.mpr (by decide))).2.2.1 (by decide)

end HaclStar.Correctness.Crecip
