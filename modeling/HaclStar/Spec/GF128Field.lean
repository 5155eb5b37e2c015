import HaclStar.Lib.BinaryPolynomials
import HaclStar.Lib.FiniteFields
import HaclStar.Spec.GF128

/-! The polynomials of degree below 128 are a field. -/

namespace HaclStar.Spec.GF128

open Polynomial FiniteFields

noncomputable section

-- The field of two elements is a variable: its operations are never unfolded.
variable (K : Type) [Field K]

/-- The irreducible polynomial. -/
def modulus : K[X] := X ^ 128 + (X ^ 7 + X ^ 2 + X + 1)

/-- The polynomial of an element: its coefficients are the bits from the left. -/
def toPoly (a : Elem) : K[X] := ∑ n ∈ Finset.range 128, if a.getMsbD n then X ^ n else 0

/-- The class of an element modulo the irreducible polynomial. -/
def toField (a : Elem) : AdjoinRoot (modulus K) := AdjoinRoot.mk (modulus K) (toPoly K a)

/-- The neutral element of multiplication. -/
def one : Elem := 0x80000000000000000000000000000000

/-- The indeterminate. -/
def indeterminate : Elem := 0x40000000000000000000000000000000

def fsquare (a : Elem) : Elem := fmul a a

/-- The indeterminate after 64 squarings. -/
def halfway : Elem := 0x6f9945a9e519a7229d4c1ad657f8a686

/-- The inverse of the sum of the last two. -/
def halfwayInverse : Elem := 0x180da934bf53158251c13dbb149f5279

theorem fsquare_indeterminate : fsquare^[64] indeterminate = halfway := by decide +kernel

theorem fsquare_halfway : fsquare^[64] halfway = indeterminate := by decide +kernel

theorem fmul_halfwayInverse : fmul halfwayInverse (fadd halfway indeterminate) = one := by decide +kernel

theorem modulus_natDegree : (modulus K).natDegree = 128 := by
  unfold modulus
  compute_degree!

theorem modulus_monic : (modulus K).Monic := by
  unfold modulus
  monicity!

/-- The polynomial is that of the bit vector. -/
theorem toPoly_eq (a : Elem) : toPoly K a = BinaryPolynomials.toPoly K a := rfl

@[simp] theorem toField_zero : toField K zero = 0 := by
  have none : toPoly K zero = 0 := BinaryPolynomials.toPoly_zero K
  rw [toField, none, map_zero]

theorem toPoly_irr : toPoly K irr = X ^ 7 + X ^ 2 + X + 1 := by
  -- Only four bits are set.
  have bits : (Finset.range 128).filter (fun n => irr.getMsbD n = true) = {0, 1, 2, 7} := by decide
  rw [toPoly, ← Finset.sum_filter, bits, Finset.sum_insert (by decide), Finset.sum_insert (by decide),
    Finset.sum_insert (by decide), Finset.sum_singleton]
  ring

theorem toField_one : toField K one = 1 := by
  have bits : (Finset.range 128).filter (fun n => one.getMsbD n = true) = {0} := by decide
  rw [toField, toPoly, ← Finset.sum_filter, bits, Finset.sum_singleton, pow_zero, map_one]

theorem toField_indeterminate : toField K indeterminate = AdjoinRoot.root (modulus K) := by
  have bits : (Finset.range 128).filter (fun n => indeterminate.getMsbD n = true) = {1} := by decide
  rw [toField, toPoly, ← Finset.sum_filter, bits, Finset.sum_singleton, pow_one, AdjoinRoot.mk_X]

section CharTwo

variable [CharP K 2]

/-- The power that is reduced is equal to the polynomial of its other terms. -/
theorem reduces : BinaryPolynomials.Reduces K (modulus K) irr where
  monic := modulus_monic K
  natDegree := modulus_natDegree K
  top := by
    have sum : (X : K[X]) ^ 128 - BinaryPolynomials.toPoly K irr = modulus K := by
      have terms : BinaryPolynomials.toPoly K irr = X ^ 7 + X ^ 2 + X + 1 := toPoly_irr K
      unfold modulus
      rw [CharTwo.sub_eq_add, terms]
    rw [← sub_eq_zero, ← map_sub, sum, AdjoinRoot.mk_self]

theorem toField_fadd (a b : Elem) : toField K (fadd a b) = toField K a + toField K b := by
  rw [toField, toPoly_eq, fadd, BinaryPolynomials.toPoly_xor, map_add, toField, toField, toPoly_eq, toPoly_eq]

/-- Distinct elements have distinct classes. -/
theorem toField_injective {a b : Elem} (same : toField K a = toField K b) : a = b :=
  (reduces K).mk_injective same

/-- Only zero has the class of zero. -/
theorem toField_eq_zero {a : Elem} : toField K a = 0 ↔ a = zero := by
  constructor
  · intro vanishes
    exact toField_injective K (by rw [vanishes, toField_zero])
  · rintro rfl
    exact toField_zero K

/-- The product is that of bit vectors. -/
theorem fmul_eq (a b : Elem) : fmul a b = BinaryPolynomials.mul irr a b := by
  have loop (rest : Nat) (a : Elem) : fmulLoop a b rest = BinaryPolynomials.mulLast irr a b rest := by
    -- Induction on the number of bits.
    induction rest generalizing a with
    | zero => rfl
    | succ rest ih =>
      have position : 127 - rest = 128 - (rest + 1) := by omega
      rw [fmulLoop, ih, position]
      rfl
  exact loop 128 a

/-- Multiplying elements multiplies their classes. -/
theorem toField_fmul (a b : Elem) : toField K (fmul a b) = toField K a * toField K b := by
  rw [fmul_eq]
  exact (reduces K).mk_mul a b

theorem toField_fsquare (a : Elem) (k : Nat) : toField K (fsquare^[k] a) = toField K a ^ 2 ^ k := by
  -- Induction on the number of squarings.
  induction k generalizing a with
  | zero => rw [Function.iterate_zero, id_eq, pow_zero, pow_one]
  | succ k ih => rw [Function.iterate_succ_apply, ih, fsquare, toField_fmul, ← sq, ← pow_mul, ← pow_succ']

/-- The indeterminate comes back after 128 squarings, and after 64 of them its distance has an inverse. -/
theorem modulus_irreducible (size : Nat.card K = 2) : Irreducible (modulus K) := by
  have : Finite K := Nat.finite_of_card_ne_zero (by rw [size]; decide)
  have halves : AdjoinRoot.root (modulus K) ^ 2 ^ 64 = toField K halfway := by
    rw [← toField_indeterminate, ← toField_fsquare, fsquare_indeterminate]
  have back : toField K halfway ^ 2 ^ 64 = AdjoinRoot.root (modulus K) := by
    rw [← toField_fsquare, fsquare_halfway, toField_indeterminate]
  have inverse : toField K halfwayInverse * toField K (fadd halfway indeterminate) = 1 := by
    rw [← toField_fmul, fmul_halfwayInverse, toField_one]
  apply irreducible_of_halves (n := 6) (modulus_natDegree K)
  · apply mk_dvd
    rw [map_sub, map_pow, AdjoinRoot.mk_X, size, show 2 ^ (6 + 1) = 64 + 64 by rfl, pow_add, pow_mul, halves, back,
      sub_self]
  · have distance : AdjoinRoot.mk (modulus K) (X ^ Nat.card K ^ 2 ^ 6 - X) = toField K (fadd halfway indeterminate) := by
      rw [map_sub, map_pow, AdjoinRoot.mk_X, size, show 2 ^ 6 = 64 by rfl, halves, toField_fadd,
        toField_indeterminate]
      have twice : AdjoinRoot.root (modulus K) + AdjoinRoot.root (modulus K) = 0 := by
        rw [← toField_indeterminate, ← toField_fadd, fadd_self, toField_zero]
      linear_combination -twice
    apply mk_coprime (q := toPoly K halfwayInverse)
    rw [distance, ← toField, inverse]

end CharTwo

end

/-- A product is zero only when a factor is. -/
theorem fmul_eq_zero {a b : Elem} : fmul a b = zero ↔ a = zero ∨ b = zero := by
  have irreducible : Fact (Irreducible (modulus (ZMod 2))) := ⟨modulus_irreducible (ZMod 2) (Nat.card_zmod 2)⟩
  rw [← toField_eq_zero (ZMod 2), toField_fmul, mul_eq_zero, toField_eq_zero, toField_eq_zero]

/-- A product is its first factor only when that is zero or the other is one. -/
theorem fmul_eq_left {a b : Elem} : fmul a b = a ↔ a = zero ∨ b = one := by
  have irreducible : Fact (Irreducible (modulus (ZMod 2))) := ⟨modulus_irreducible (ZMod 2) (Nat.card_zmod 2)⟩
  constructor
  · intro same
    have product := toField_fmul (ZMod 2) a b
    rw [same, eq_comm] at product
    by_cases none : a = zero
    · exact Or.inl none
    · have some : toField (ZMod 2) a ≠ 0 := fun vanishes => none ((toField_eq_zero (ZMod 2)).mp vanishes)
      have neutral := mul_left_cancel₀ some (product.trans (mul_one _).symm)
      exact Or.inr (toField_injective (ZMod 2) (by rw [neutral, toField_one]))
  · rintro (rfl | rfl)
    · exact zero_fmul b
    · apply toField_injective (ZMod 2)
      rw [toField_fmul, toField_one, mul_one]

end HaclStar.Spec.GF128
