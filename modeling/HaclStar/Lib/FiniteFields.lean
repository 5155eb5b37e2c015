import Mathlib

/-! Irreducible polynomials over finite fields. -/

namespace FiniteFields

open Polynomial

variable {K : Type} [Field K]

/-- A polynomial whose class is zero is a multiple of the modulus. -/
theorem mk_dvd {f p : K[X]} (vanishes : AdjoinRoot.mk f p = 0) : f ∣ p :=
  AdjoinRoot.mk_eq_zero.mp vanishes

/-- A polynomial is coprime to one whose class has an inverse. -/
theorem mk_coprime {f p q : K[X]} (inverse : AdjoinRoot.mk f q * AdjoinRoot.mk f p = 1) : IsCoprime f p := by
  obtain ⟨c, multiple⟩ := mk_dvd (f := f) (p := q * p - 1) (by rw [map_sub, map_mul, inverse, map_one, sub_self])
  exact ⟨-c, q, by linear_combination multiple⟩

/-- A polynomial whose degree is a power of two is irreducible when its roots are in the field of that
degree, and no factor has roots in the field of half the degree. -/
theorem irreducible_of_halves [Finite K] {f : K[X]} {n : Nat} (degree : f.natDegree = 2 ^ (n + 1))
    (full : f ∣ X ^ Nat.card K ^ 2 ^ (n + 1) - X) (half : IsCoprime f (X ^ Nat.card K ^ 2 ^ n - X)) :
    Irreducible f := by
  have some : f ≠ 0 := by
    rintro rfl
    rw [natDegree_zero] at degree
    exact absurd degree.symm (by positivity)
  have proper : ¬ IsUnit f := fun unit => by
    rw [natDegree_eq_zero_of_isUnit unit] at degree
    exact absurd degree.symm (by positivity)
  obtain ⟨g, irreducible, ⟨h, product⟩⟩ := WfDvdMonoid.exists_irreducible_factor proper some
  have divides : g ∣ f := ⟨h, product⟩
  -- The degree of an irreducible factor is a power of two.
  have factor := irreducible.natDegree_dvd_of_dvd_X_pow_card_pow_sub_X (divides.trans full)
  obtain ⟨k, below, power⟩ := (Nat.dvd_prime_pow Nat.prime_two).mp factor
  by_cases last : k = n + 1
  · -- The factor has the whole degree: what is left is a constant.
    have others : h.natDegree = 0 := by
      have sum := natDegree_mul irreducible.ne_zero (right_ne_zero_of_mul (product ▸ some))
      rw [← product, degree, power, last] at sum
      omega
    have unit : IsUnit h := by
      rw [isUnit_iff_degree_eq_zero, degree_eq_natDegree (right_ne_zero_of_mul (product ▸ some)), others]
      rfl
    rw [product]
    exact (irreducible_mul_isUnit unit).mpr irreducible
  · -- Otherwise it divides both polynomials.
    have smaller : g.natDegree ∣ 2 ^ n := by
      rw [power]
      exact pow_dvd_pow 2 (by omega)
    have both := irreducible.natDegree_dvd_iff_dvd_X_pow_card_pow_sub_X.mp smaller
    exact absurd (half.isUnit_of_dvd' divides both) irreducible.not_isUnit

end FiniteFields
