import Mathlib

/-! Bit vectors as polynomials over the field of two elements, the leftmost bit the constant term, and their product
modulo a polynomial by shifts and additions. -/

namespace BinaryPolynomials

open Polynomial

variable {n : Nat}

/-- Multiply by the indeterminate: a term that leaves on the right is replaced by the polynomial it is equal to. -/
def shiftReduce (irred a : BitVec n) : BitVec n :=
  if a.getMsbD (n - 1) then a >>> 1 ^^^ irred else a >>> 1

/-- The multiples of `a` that the last `rest` bits of `b` select. -/
def mulLast (irred a b : BitVec n) : Nat → BitVec n
  | 0 => 0#n
  | rest + 1 =>
    let behind := mulLast irred (shiftReduce irred a) b rest
    if b.getMsbD (n - (rest + 1)) then behind ^^^ a else behind

/-- The product. -/
def mul (irred a b : BitVec n) : BitVec n := mulLast irred a b n

noncomputable section

-- The field of two elements is a variable: its operations are never unfolded.
variable (K : Type) [Field K]

/-- The polynomial of a bit vector: its coefficients are the bits from the left. -/
def toPoly (a : BitVec n) : K[X] := ∑ i ∈ Finset.range n, if a.getMsbD i then X ^ i else 0

theorem coeff_toPoly (a : BitVec n) (i : Nat) : (toPoly K a).coeff i = if a.getMsbD i then 1 else 0 := by
  rw [toPoly, finsetSum_coeff]
  by_cases inside : i < n
  · -- Only the term of this degree counts.
    rw [Finset.sum_eq_single i]
    · split
      · rw [coeff_X_pow_self]
      · rw [coeff_zero]
    · intro m _ other
      split
      · rw [coeff_X_pow, if_neg (Ne.symm other)]
      · rw [coeff_zero]
    · intro outside
      exact absurd (Finset.mem_range.mpr inside) outside
  · have clear : a.getMsbD i = false := BitVec.getMsbD_of_ge a i (by omega)
    rw [clear, if_neg (by simp)]
    apply Finset.sum_eq_zero
    intro m below
    have other : i ≠ m := by
      have := Finset.mem_range.mp below
      omega
    split
    · rw [coeff_X_pow, if_neg other]
    · rw [coeff_zero]

theorem toPoly_degree (a : BitVec n) : (toPoly K a).degree < n := by
  rw [degree_lt_iff_coeff_zero]
  intro i above
  rw [coeff_toPoly, BitVec.getMsbD_of_ge a i above, if_neg (by simp)]

@[simp] theorem toPoly_zero : toPoly K 0#n = 0 := by
  ext i
  rw [coeff_toPoly, BitVec.getMsbD_zero, coeff_zero, if_neg (by simp)]

/-- A bit vector is determined by its polynomial. -/
theorem toPoly_injective {a b : BitVec n} (same : toPoly K a = toPoly K b) : a = b := by
  apply BitVec.eq_of_getMsbD_eq
  intro i _
  have coefficient := congrArg (coeff · i) same
  simp only [coeff_toPoly] at coefficient
  cases first : a.getMsbD i <;> cases second : b.getMsbD i <;> simp [first, second] at coefficient ⊢

/-- Only one bit is set. -/
theorem toPoly_single {a : BitVec n} {i : Nat} (bits : ∀ j, a.getMsbD j = decide (j = i)) : toPoly K a = X ^ i := by
  ext j
  rw [coeff_toPoly, bits, coeff_X_pow]
  simp only [decide_eq_true_eq]

/-- Polynomials whose coefficients are zeros and ones come from bit vectors. -/
theorem toPoly_surjective (binary : ∀ x : K, x = 0 ∨ x = 1) {p : K[X]} (below : p.degree < n) :
    ∃ a : BitVec n, toPoly K a = p := by
  classical
  refine ⟨BitVec.ofFnBE fun i => decide (p.coeff i = 1), ?_⟩
  ext i
  rw [coeff_toPoly]
  by_cases inside : i < n
  · rw [BitVec.getMsbD_ofFnBE, dif_pos inside]
    rcases binary (p.coeff i) with value | value <;> simp [value]
  · rw [BitVec.getMsbD_of_ge _ i (by omega), if_neg (by simp)]
    exact ((degree_lt_iff_coeff_zero p n).mp below i (by omega)).symm

/-- The shifted polynomial, and the term that leaves on the right. -/
theorem X_mul_toPoly (a : BitVec n) :
    X * toPoly K a = toPoly K (a >>> 1) + if a.getMsbD (n - 1) then X ^ n else 0 := by
  ext i
  cases i with
  | zero =>
    rw [coeff_X_mul_zero, coeff_add, coeff_toPoly, BitVec.getMsbD_ushiftRight]
    by_cases none : n = 0
    · rw [BitVec.getMsbD_of_ge a (n - 1) (by omega)]
      simp
    · have constant : ¬ 0 = n := by omega
      cases a.getMsbD (n - 1) <;> simp [coeff_X_pow, constant]
  | succ i =>
    rw [coeff_X_mul, coeff_add, coeff_toPoly, coeff_toPoly, BitVec.getMsbD_ushiftRight, Nat.add_sub_cancel,
      decide_eq_false (by omega : ¬ i + 1 < 1), Bool.not_false, Bool.true_and]
    by_cases inside : i + 1 < n
    · rw [decide_eq_true inside, Bool.true_and]
      have other : ¬ i + 1 = n := by omega
      cases a.getMsbD (n - 1) <;> simp [coeff_X_pow, other]
    · rw [decide_eq_false inside, Bool.false_and]
      by_cases last : i + 1 = n
      · have position : n - 1 = i := by omega
        rw [position]
        cases a.getMsbD i <;> simp [last]
      · rw [BitVec.getMsbD_of_ge a i (by omega)]
        cases a.getMsbD (n - 1) <;> simp [coeff_X_pow, last]

/-- A monic polynomial modulo which the power that leaves on the right is equal to that of a bit vector. -/
structure Reduces (m : K[X]) (irred : BitVec n) : Prop where
  monic : m.Monic
  natDegree : m.natDegree = n
  top : AdjoinRoot.mk m (X ^ n) = AdjoinRoot.mk m (toPoly K irred)

variable {K} {m : K[X]} {irred : BitVec n}

/-- Every class has a bit vector: the remainder of its polynomials. -/
theorem Reduces.mk_surjective (reduces : Reduces K m irred) (binary : ∀ x : K, x = 0 ∨ x = 1) (y : AdjoinRoot m) :
    ∃ a : BitVec n, AdjoinRoot.mk m (toPoly K a) = y := by
  obtain ⟨p, rfl⟩ := AdjoinRoot.mk_surjective y
  have below : (p %ₘ m).degree < n := by
    have bound := degree_modByMonic_lt p reduces.monic
    rwa [degree_eq_natDegree reduces.monic.ne_zero, reduces.natDegree] at bound
  obtain ⟨a, same⟩ := toPoly_surjective K binary below
  refine ⟨a, ?_⟩
  have divided := congrArg (AdjoinRoot.mk m) (modByMonic_add_div p m)
  rw [map_add, map_mul, AdjoinRoot.mk_self, zero_mul, add_zero] at divided
  rw [same, divided]

section CharTwo

variable [CharP K 2]

/-- Exclusive or adds polynomials. -/
theorem toPoly_xor (a b : BitVec n) : toPoly K (a ^^^ b) = toPoly K a + toPoly K b := by
  have twice : (1 : K) + 1 = 0 := CharTwo.add_self_eq_zero 1
  ext i
  rw [coeff_add, coeff_toPoly, coeff_toPoly, coeff_toPoly, BitVec.getMsbD_xor]
  cases a.getMsbD i <;> cases b.getMsbD i <;> simp [twice]

/-- The leading term and a polynomial of smaller degree. -/
theorem reduces_sum (irred : BitVec n) : Reduces K (X ^ n + toPoly K irred) irred where
  monic := monic_X_pow_add (toPoly_degree K irred)
  natDegree := by
    have degree : (X ^ n + toPoly K irred).degree = (n : WithBot ℕ) := by
      rw [degree_add_eq_left_of_degree_lt (by rw [degree_X_pow]; exact toPoly_degree K irred), degree_X_pow]
    exact natDegree_eq_of_degree_eq_some degree
  top := by
    rw [AdjoinRoot.mk_eq_mk, CharTwo.sub_eq_add]

namespace Reduces

variable (reduces : Reduces K m irred)
include reduces

/-- Distinct bit vectors have distinct classes: no other polynomial of their degree is a multiple of the modulus. -/
theorem mk_injective {a b : BitVec n} (same : AdjoinRoot.mk m (toPoly K a) = AdjoinRoot.mk m (toPoly K b)) : a = b := by
  have vanishes : AdjoinRoot.mk m (toPoly K (a ^^^ b)) = 0 := by
    rw [toPoly_xor, map_add, same, ← map_add, CharTwo.add_self_eq_zero, map_zero]
  have below : (toPoly K (a ^^^ b)).degree < m.degree := by
    rw [degree_eq_natDegree reduces.monic.ne_zero, reduces.natDegree]
    exact toPoly_degree K _
  have zero : toPoly K (a ^^^ b) = 0 := by
    by_contra some
    exact AdjoinRoot.mk_ne_zero_of_degree_lt reduces.monic some below vanishes
  rw [toPoly_xor, CharTwo.add_eq_zero] at zero
  exact toPoly_injective K zero

/-- Multiplying by the indeterminate, and reducing. -/
theorem mk_shiftReduce (a : BitVec n) :
    AdjoinRoot.mk m (toPoly K (shiftReduce irred a)) = AdjoinRoot.root m * AdjoinRoot.mk m (toPoly K a) := by
  rw [← AdjoinRoot.mk_X, ← map_mul, X_mul_toPoly, shiftReduce, map_add]
  split
  · rw [reduces.top, toPoly_xor, map_add]
  · rw [map_zero, add_zero]

/-- The multiples that the bits of the second factor select. -/
theorem mk_mulLast (a b : BitVec n) {rest : Nat} (inside : rest ≤ n) :
    AdjoinRoot.mk m (toPoly K (mulLast irred a b rest)) =
      AdjoinRoot.mk m (toPoly K a) * ∑ i ∈ Finset.range rest,
        if b.getMsbD (n - rest + i) then AdjoinRoot.root m ^ i else 0 := by
  -- Induction on the number of bits: those behind the first are multiplied once more.
  induction rest generalizing a with
  | zero => rw [mulLast, toPoly_zero, map_zero, Finset.sum_range_zero, mul_zero]
  | succ rest ih =>
    have moved : ∀ i ∈ Finset.range rest,
        (if b.getMsbD (n - (rest + 1) + (i + 1)) then AdjoinRoot.root m ^ (i + 1) else 0) =
          AdjoinRoot.root m * if b.getMsbD (n - rest + i) then AdjoinRoot.root m ^ i else 0 := by
      intro i _
      have position : n - (rest + 1) + (i + 1) = n - rest + i := by omega
      rw [position, mul_ite, mul_zero, pow_succ']
    rw [Finset.sum_range_succ', Finset.sum_congr rfl moved, ← Finset.mul_sum, mul_add,
      Nat.add_zero, pow_zero, mulLast]
    have behind := ih (shiftReduce irred a) (by omega)
    rw [reduces.mk_shiftReduce] at behind
    split
    · rw [toPoly_xor, map_add, behind, if_pos (by assumption), mul_one]
      ring
    · rw [behind, if_neg (by assumption), mul_zero, add_zero]
      ring

/-- The product of bit vectors is that of their classes. -/
theorem mk_mul (a b : BitVec n) :
    AdjoinRoot.mk m (toPoly K (mul irred a b)) = AdjoinRoot.mk m (toPoly K a) * AdjoinRoot.mk m (toPoly K b) := by
  have bits : AdjoinRoot.mk m (toPoly K b) =
      ∑ i ∈ Finset.range n, if b.getMsbD (n - n + i) then AdjoinRoot.root m ^ i else 0 := by
    rw [toPoly, map_sum]
    apply Finset.sum_congr rfl
    intro i _
    rw [Nat.sub_self, Nat.zero_add]
    split
    · rw [map_pow, AdjoinRoot.mk_X]
    · rw [map_zero]
  rw [mul, reduces.mk_mulLast a b le_rfl, ← bits]

end Reduces

end CharTwo

end

end BinaryPolynomials
