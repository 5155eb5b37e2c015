import Mathlib

/-! Arithmetic on the first coordinates of the points of a curve `y ^ 2 = x ^ 3 + a * x ^ 2 + x`: doubling, addition
of two points whose difference is known, and the ladder over them. -/

namespace Montgomery

open WeierstrassCurve

variable {F : Type*} [Field F]

/-- The curve with the coefficient `a`. -/
def curve (a : F) : Affine F where
  a₁ := 0
  a₂ := a
  a₃ := 0
  a₄ := 1
  a₆ := 0

/-- The coefficients whose curve has no singular point. -/
structure Smooth (a : F) : Prop where
  two_ne_zero : (2 : F) ≠ 0
  sq_ne_four : a ^ 2 ≠ 4

variable {a x y : F}

theorem equation_iff : (curve a).Equation x y ↔ y ^ 2 = x ^ 3 + a * x ^ 2 + x := by
  rw [Affine.equation_iff]
  simp [curve]

@[simp] theorem negY_eq : (curve a).negY x y = -y := by
  simp [Affine.negY, curve]

@[simp] theorem addX_eq (x₁ x₂ l : F) : (curve a).addX x₁ x₂ l = l ^ 2 - a - x₁ - x₂ := by
  simp [curve]

theorem Smooth.nonsingular (smooth : Smooth a) (on : y ^ 2 = x ^ 3 + a * x ^ 2 + x) : (curve a).Nonsingular x y := by
  rw [Affine.nonsingular_iff']
  refine ⟨equation_iff.mpr on, ?_⟩
  by_contra singular
  obtain ⟨slope, vertical⟩ := not_or.mp singular
  simp only [curve, ne_eq, not_not, zero_mul, zero_sub, neg_eq_zero, add_zero] at slope vertical
  -- Where both derivatives vanish, the abscissa and its opposite are roots of the quadratic factor.
  have low : y = 0 := (mul_eq_zero.mp vertical).resolve_left smooth.two_ne_zero
  have root : x * (x ^ 2 + a * x + 1) = 0 := by
    rw [low] at on
    linear_combination -on
  have some : x ≠ 0 := by
    intro zero
    rw [zero] at slope
    exact one_ne_zero (by linear_combination slope : (1 : F) = 0)
  have factor := (mul_eq_zero.mp root).resolve_left some
  have double : 2 * x + a = 0 := by
    have product : x * (2 * x + a) = 0 := by linear_combination slope - factor
    exact (mul_eq_zero.mp product).resolve_left some
  exact smooth.sq_ne_four (by linear_combination (a + 2 * x) * double - 4 * factor)

/-- A first coordinate as a fraction; it is at infinity where the denominator vanishes. -/
@[ext] structure Coord (F : Type*) where
  x : F
  z : F

namespace Coord

/-- A fraction is the first coordinate of a point. -/
def Represents (c : Coord F) : (curve a).Point → Prop
  | .zero => c.z = 0 ∧ c.x ≠ 0
  | .some x _ _ => c.z ≠ 0 ∧ c.x = x * c.z

/-- The first coordinate of the double of a point. -/
def double (a : F) (c : Coord F) : Coord F :=
  ⟨(c.x ^ 2 - c.z ^ 2) ^ 2, 4 * c.x * c.z * (c.x ^ 2 + a * c.x * c.z + c.z ^ 2)⟩

/-- The first coordinate of the sum of two points, from that of their difference. -/
def add (x : F) (c d : Coord F) : Coord F :=
  ⟨4 * (c.x * d.x - c.z * d.z) ^ 2, 4 * x * (d.x * c.z - c.x * d.z) ^ 2⟩

end Coord

section Formulas

variable [DecidableEq F] {x₁ y₁ x₂ y₂ : F}

/-- Where the tangent meets the curve again. -/
theorem addX_tangent (smooth : Smooth a) (on : y ^ 2 = x ^ 3 + a * x ^ 2 + x) (high : y ≠ 0) :
    (curve a).addX x x ((curve a).slope x x y y) * (4 * y ^ 2) = (x ^ 2 - 1) ^ 2 := by
  have twice : 2 * y ≠ 0 := mul_ne_zero smooth.two_ne_zero high
  have upright : y ≠ (curve a).negY x y := by
    rw [negY_eq]
    intro same
    exact twice (by linear_combination same)
  have slope : (curve a).slope x x y y * (2 * y) = 3 * x ^ 2 + 2 * a * x + 1 := by
    have run : y - (curve a).negY x y = 2 * y := by
      rw [negY_eq]
      ring
    rw [Affine.slope_of_Y_ne rfl upright, run, div_mul_cancel₀ _ twice]
    simp [curve]
  rw [addX_eq]
  linear_combination ((curve a).slope x x y y * (2 * y) + (3 * x ^ 2 + 2 * a * x + 1)) * slope - (4 * a + 8 * x) * on

/-- Where the chords through a point, and through another one or its opposite, meet the curve again. -/
theorem addX_chords (on₁ : y₁ ^ 2 = x₁ ^ 3 + a * x₁ ^ 2 + x₁) (on₂ : y₂ ^ 2 = x₂ ^ 3 + a * x₂ ^ 2 + x₂)
    (apart : x₁ ≠ x₂) :
    (curve a).addX x₁ x₂ ((curve a).slope x₁ x₂ y₁ y₂) * (curve a).addX x₂ x₁ ((curve a).slope x₂ x₁ y₂ (-y₁)) *
      (x₁ - x₂) ^ 2 = (x₁ * x₂ - 1) ^ 2 := by
  have run : x₁ - x₂ ≠ 0 := sub_ne_zero.mpr apart
  have slope : (curve a).slope x₁ x₂ y₁ y₂ * (x₁ - x₂) = y₁ - y₂ := by
    rw [Affine.slope_of_X_ne apart, div_mul_cancel₀ _ run]
  have slope' : (curve a).slope x₂ x₁ y₂ (-y₁) * (x₁ - x₂) = -(y₁ + y₂) := by
    rw [Affine.slope_of_X_ne apart.symm, ← neg_sub x₁ x₂, div_neg, neg_mul, div_mul_cancel₀ _ run]
    ring
  generalize (curve a).slope x₁ x₂ y₁ y₂ = l at slope ⊢
  generalize (curve a).slope x₂ x₁ y₂ (-y₁) = m at slope' ⊢
  rw [addX_eq, addX_eq]
  -- With the denominators cleared, only the squares of the ordinates are left.
  have square : (l ^ 2 - a - x₁ - x₂) * (x₁ - x₂) ^ 2 = (y₁ - y₂) ^ 2 - (a + x₁ + x₂) * (x₁ - x₂) ^ 2 := by
    linear_combination (l * (x₁ - x₂) + (y₁ - y₂)) * slope
  have square' : (m ^ 2 - a - x₂ - x₁) * (x₁ - x₂) ^ 2 = (y₁ + y₂) ^ 2 - (a + x₁ + x₂) * (x₁ - x₂) ^ 2 := by
    linear_combination (m * (x₁ - x₂) - (y₁ + y₂)) * slope'
  have product : ((y₁ - y₂) ^ 2 - (a + x₁ + x₂) * (x₁ - x₂) ^ 2) * ((y₁ + y₂) ^ 2 - (a + x₁ + x₂) * (x₁ - x₂) ^ 2) =
      (x₁ * x₂ - 1) ^ 2 * (x₁ - x₂) ^ 2 := by
    linear_combination (y₁ ^ 2 - y₂ ^ 2 + (x₁ ^ 3 + a * x₁ ^ 2 + x₁) - (x₂ ^ 3 + a * x₂ ^ 2 + x₂)) * (on₁ - on₂) -
      2 * (a + x₁ + x₂) * (x₁ - x₂) ^ 2 * (on₁ + on₂)
  apply mul_right_cancel₀ (pow_ne_zero 2 run)
  rw [← product, ← square, ← square']
  ring

end Formulas

/-- A point of order two has another abscissa than one and minus one. -/
theorem Smooth.sq_ne_one (smooth : Smooth a) (low : x ^ 3 + a * x ^ 2 + x = 0) (some : x ≠ 0) : x ^ 2 ≠ 1 := by
  intro unit
  have product : x * (x ^ 2 + a * x + 1) = 0 := by linear_combination low
  have factor := (mul_eq_zero.mp product).resolve_left some
  have two : a * x = -2 := by linear_combination factor - unit
  exact smooth.sq_ne_four (by linear_combination (a * x - 2) * two - a ^ 2 * unit)

namespace Coord

variable {c d : Coord F} {P Q : (curve a).Point}

@[simp] theorem represents_zero : c.Represents (0 : (curve a).Point) ↔ c.z = 0 ∧ c.x ≠ 0 := Iff.rfl

@[simp] theorem represents_some {h : (curve a).Nonsingular x y} :
    c.Represents (.some x y h) ↔ c.z ≠ 0 ∧ c.x = x * c.z := Iff.rfl

/-- The denominator of the double of an affine point has the ordinate as a factor. -/
theorem double_z (on : y ^ 2 = x ^ 3 + a * x ^ 2 + x) (value : c.x = x * c.z) :
    (double a c).z = 4 * y ^ 2 * c.z ^ 4 := by
  simp only [double, value]
  linear_combination -(4 * c.z ^ 4) * on

theorem double_x (value : c.x = x * c.z) : (double a c).x = (x ^ 2 - 1) ^ 2 * c.z ^ 4 := by
  simp only [double, value]
  ring

/-- The sum of a point at infinity and another one, on either side. -/
theorem add_represents_infinity (smooth : Smooth a) {x₁ y₁ : F} {h₁ : (curve a).Nonsingular x₁ y₁} (some : x₁ ≠ 0)
    (infinite : c.Represents (0 : (curve a).Point)) (finite : d.Represents (Affine.Point.some x₁ y₁ h₁)) :
    (add x₁ c d).Represents (Affine.Point.some x₁ y₁ h₁) ∧ (add x₁ d c).Represents (Affine.Point.some x₁ y₁ h₁) := by
  obtain ⟨z, x⟩ := infinite
  obtain ⟨z', value⟩ := finite
  have denominator : (add x₁ c d).z = x₁ * (2 * (c.x * d.z)) ^ 2 := by
    simp only [add, z]
    ring
  have denominator' : (add x₁ d c).z = x₁ * (2 * (c.x * d.z)) ^ 2 := by
    simp only [add, z]
    ring
  have nonzero : x₁ * (2 * (c.x * d.z)) ^ 2 ≠ 0 :=
    mul_ne_zero some (pow_ne_zero 2 (mul_ne_zero smooth.two_ne_zero (mul_ne_zero x z')))
  rw [represents_some, represents_some, denominator, denominator']
  refine ⟨⟨nonzero, ?_⟩, nonzero, ?_⟩
  · simp only [add, z, value]
    ring
  · simp only [add, z, value]
    ring

variable [DecidableEq F]

theorem double_represents (smooth : Smooth a) (rep : c.Represents P) : (double a c).Represents (P + P) := by
  -- The double is at infinity for the point at infinity and for the points of order two.
  match P with
  | .zero =>
    obtain ⟨z, x⟩ := rep
    refine ⟨?_, ?_⟩
    · simp only [double, z]
      ring
    · simp only [double, z]
      simpa using x
  | .some x y h =>
    obtain ⟨z, value⟩ := rep
    have on := equation_iff.mp h.1
    by_cases low : y = 0
    · rw [Affine.Point.add_self_of_Y_eq (by rw [negY_eq, low, neg_zero]), represents_zero, double_z on value,
        double_x value, low]
      refine ⟨by ring, mul_ne_zero (pow_ne_zero 2 (sub_ne_zero.mpr ?_)) (pow_ne_zero 4 z)⟩
      by_cases origin : x = 0
      · simp [origin]
      · exact smooth.sq_ne_one (by rw [← on, low]; ring) origin
    · have upright : y ≠ (curve a).negY x y := by
        rw [negY_eq]
        intro same
        have twice : 2 * y = 0 := by linear_combination same
        exact low ((mul_eq_zero.mp twice).resolve_left smooth.two_ne_zero)
      have four : (4 : F) ≠ 0 := by
        have square : (4 : F) = 2 ^ 2 := by norm_num
        rw [square]
        exact pow_ne_zero 2 smooth.two_ne_zero
      rw [Affine.Point.add_self_of_Y_ne upright, represents_some, double_z on value, double_x value]
      refine ⟨mul_ne_zero (mul_ne_zero four (pow_ne_zero 2 low)) (pow_ne_zero 4 z), ?_⟩
      rw [← addX_tangent smooth on low]
      ring

/-- The sum of two affine points with different abscissas. -/
theorem add_represents_apart (smooth : Smooth a) {xP yP xQ yQ x₁ y₁ : F} {hP : (curve a).Nonsingular xP yP}
    {hQ : (curve a).Nonsingular xQ yQ} {h₁ : (curve a).Nonsingular x₁ y₁}
    (first : c.Represents (Affine.Point.some xP yP hP)) (second : d.Represents (Affine.Point.some xQ yQ hQ))
    (difference : Affine.Point.some xQ yQ hQ - .some xP yP hP = .some x₁ y₁ h₁) (some : x₁ ≠ 0) (apart : xP ≠ xQ) :
    (add x₁ c d).Represents (Affine.Point.some xP yP hP + .some xQ yQ hQ) := by
  obtain ⟨zP, valueP⟩ := first
  obtain ⟨zQ, valueQ⟩ := second
  have run : xP - xQ ≠ 0 := sub_ne_zero.mpr apart
  have chords := addX_chords (equation_iff.mp hP.1) (equation_iff.mp hQ.1) apart
  rw [sub_eq_add_neg, Affine.Point.neg_some, Affine.Point.add_of_X_ne apart.symm, Affine.Point.some.injEq,
    negY_eq] at difference
  rw [difference.1] at chords
  have four : (4 : F) ≠ 0 := by
    have square : (4 : F) = 2 ^ 2 := by norm_num
    rw [square]
    exact pow_ne_zero 2 smooth.two_ne_zero
  have numerator : (add x₁ c d).x = 4 * (c.z * d.z) ^ 2 * (xP * xQ - 1) ^ 2 := by
    simp only [add, valueP, valueQ]
    ring
  have denominator : (add x₁ c d).z = 4 * x₁ * ((c.z * d.z) ^ 2 * (xP - xQ) ^ 2) := by
    simp only [add, valueP, valueQ]
    ring
  rw [Affine.Point.add_of_X_ne apart, represents_some, numerator, denominator, ← chords]
  refine ⟨mul_ne_zero (mul_ne_zero four some)
    (mul_ne_zero (pow_ne_zero 2 (mul_ne_zero zP zQ)) (pow_ne_zero 2 run)), ?_⟩
  ring

/-- The sum of a point and its opposite. -/
theorem add_represents_opposite (smooth : Smooth a) {xQ yQ x₁ y₁ : F} {hQ : (curve a).Nonsingular xQ yQ}
    {h₁ : (curve a).Nonsingular x₁ y₁} (first : c.Represents (-Affine.Point.some xQ yQ hQ))
    (second : d.Represents (Affine.Point.some xQ yQ hQ))
    (difference : Affine.Point.some xQ yQ hQ + .some xQ yQ hQ = .some x₁ y₁ h₁) (some : x₁ ≠ 0) :
    (add x₁ c d).Represents (0 : (curve a).Point) := by
  obtain ⟨zP, valueP⟩ := first
  obtain ⟨zQ, valueQ⟩ := second
  -- The difference is the double of the second point, which is known not to vanish.
  have high : yQ ≠ 0 := by
    intro low
    rw [Affine.Point.add_self_of_Y_eq (by rw [negY_eq, low, neg_zero])] at difference
    exact Affine.Point.some_ne_zero h₁ difference.symm
  have upright : yQ ≠ (curve a).negY xQ yQ := by
    rw [negY_eq]
    intro same
    have twice : 2 * yQ = 0 := by linear_combination same
    exact high ((mul_eq_zero.mp twice).resolve_left smooth.two_ne_zero)
  have tangent := addX_tangent smooth (equation_iff.mp hQ.1) high
  rw [Affine.Point.add_self_of_Y_ne upright, Affine.Point.some.injEq] at difference
  rw [difference.1] at tangent
  have unit : xQ ^ 2 - 1 ≠ 0 := by
    intro zero
    have product : x₁ * (2 * yQ) ^ 2 = 0 := by
      rw [zero, zero_pow two_ne_zero] at tangent
      linear_combination tangent
    exact mul_ne_zero some (pow_ne_zero 2 (mul_ne_zero smooth.two_ne_zero high)) product
  have numerator : (add x₁ c d).x = (2 * (c.z * d.z) * (xQ ^ 2 - 1)) ^ 2 := by
    simp only [add, valueP, valueQ]
    ring
  have denominator : (add x₁ c d).z = 0 := by
    simp only [add, valueP, valueQ]
    ring
  rw [represents_zero, numerator]
  exact ⟨denominator, pow_ne_zero 2 (mul_ne_zero (mul_ne_zero smooth.two_ne_zero (mul_ne_zero zP zQ)) unit)⟩

/-- The sum of two points whose difference is known. -/
theorem add_represents (smooth : Smooth a) {x₁ y₁ : F} {h₁ : (curve a).Nonsingular x₁ y₁} (first : c.Represents P)
    (second : d.Represents Q) (difference : Q - P = .some x₁ y₁ h₁) (some : x₁ ≠ 0) :
    (add x₁ c d).Represents (P + Q) := by
  match P, Q with
  | 0, Q =>
    rw [sub_zero] at difference
    subst difference
    rw [zero_add]
    exact (add_represents_infinity smooth some first second).1
  | .some xP yP hP, 0 =>
    rw [zero_sub, Affine.Point.neg_some] at difference
    obtain ⟨same, -⟩ := Affine.Point.some.inj difference
    subst same
    rw [add_zero]
    exact (add_represents_infinity smooth some second first).2
  | .some xP yP hP, .some xQ yQ hQ =>
    by_cases apart : xP = xQ
    · rcases Affine.Point.X_eq_iff.mp apart with equal | opposite
      · rw [equal, sub_self] at difference
        exact absurd difference.symm (Affine.Point.some_ne_zero h₁)
      · rw [opposite] at first difference ⊢
        rw [sub_neg_eq_add] at difference
        rw [neg_add_cancel]
        exact add_represents_opposite smooth first second difference some
    · exact add_represents_apart smooth first second difference some apart

end Coord

/-! The quotient of a fraction, and the ladder. -/

/-- The abscissa of a point, zero at infinity. -/
def abscissa : (curve a).Point → F
  | .zero => 0
  | .some x _ _ => x

/-- The quotient of a fraction is the abscissa. -/
theorem Coord.Represents.quotient {c : Coord F} {P : (curve a).Point} (rep : c.Represents P) :
    c.x / c.z = abscissa P := by
  match P with
  | .zero =>
    rw [rep.1, div_zero]
    rfl
  | .some x y h => exact (div_eq_iff rep.1).mpr rep.2

/-- A fraction is at infinity exactly for the point at infinity. -/
theorem Coord.Represents.z_eq_zero {c : Coord F} {P : (curve a).Point} (rep : c.Represents P) : c.z = 0 ↔ P = 0 := by
  match P with
  | .zero => exact ⟨fun _ => rfl, fun _ => rep.1⟩
  | .some x y h => exact ⟨fun zero => absurd zero rep.1, fun none => absurd none (Affine.Point.some_ne_zero h)⟩

/-- Two accumulators hold consecutive multiples of a point. -/
structure Accumulates (P : (curve a).Point) [DecidableEq F] (m : ℕ) (s : Coord F × Coord F) : Prop where
  first : s.1.Represents (m • P)
  second : s.2.Represents ((m + 1) • P)

/-- One step of the ladder: the bit says which accumulator is doubled. -/
def step (a x : F) (bit : ℕ) (s : Coord F × Coord F) : Coord F × Coord F :=
  if bit = 1 then (s.2.add x s.1, s.2.double a) else (s.1.double a, s.1.add x s.2)

/-- Over the point of order two at the origin, all accumulators are at infinity after a step. -/
theorem step_origin {s : Coord F × Coord F} (first : s.1.x * s.1.z = 0) (second : s.2.x * s.2.z = 0) (bit : ℕ) :
    (step a 0 bit s).1.z = 0 ∧ (step a 0 bit s).2.z = 0 := by
  have double {c : Coord F} (flat : c.x * c.z = 0) : (c.double a).z = 0 := by
    simp only [Coord.double]
    linear_combination 4 * (c.x ^ 2 + a * c.x * c.z + c.z ^ 2) * flat
  have add (c d : Coord F) : (c.add 0 d).z = 0 := by
    simp only [Coord.add]
    ring
  by_cases one : bit = 1
  · rw [step, if_pos one]
    exact ⟨add _ _, double second⟩
  · rw [step, if_neg one]
    exact ⟨double first, add _ _⟩

variable [DecidableEq F]

/-- At the start one accumulator is at infinity, and the other one is at the point. -/
theorem accumulates_start (h : (curve a).Nonsingular x y) :
    Accumulates (Affine.Point.some x y h) 0 (⟨1, 0⟩, ⟨x, 1⟩) := by
  constructor
  · rw [zero_smul, Coord.represents_zero]
    exact ⟨rfl, one_ne_zero⟩
  · rw [zero_add, one_smul, Coord.represents_some]
    exact ⟨one_ne_zero, (mul_one x).symm⟩

/-- A step appends a bit to the multiple. -/
theorem Accumulates.step (smooth : Smooth a) {h : (curve a).Nonsingular x y} (some : x ≠ 0) {m : ℕ} {s : Coord F × Coord F}
    (acc : Accumulates (Affine.Point.some x y h) m s) {bit : ℕ} (le : bit ≤ 1) :
    Accumulates (Affine.Point.some x y h) (2 * m + bit) (step a x bit s) := by
  have double (n : ℕ) : (2 * n) • Affine.Point.some x y h = n • Affine.Point.some x y h + n • .some x y h := by
    rw [two_mul, add_smul]
  have next : (m + 1) • Affine.Point.some x y h - m • Affine.Point.some x y h = .some x y h := by
    rw [add_smul, one_smul, add_sub_cancel_left]
  by_cases one : bit = 1
  · -- The difference is the opposite of the point, which has the same abscissa.
    have back : m • Affine.Point.some x y h - (m + 1) • Affine.Point.some x y h =
        .some x _ ((Affine.nonsingular_neg ..).mpr h) := by
      rw [← neg_sub, next, Affine.Point.neg_some]
    have sum := Coord.add_represents smooth acc.second acc.first back some
    have twice := Coord.double_represents smooth acc.second
    rw [Montgomery.step, if_pos one, one]
    constructor
    · have split : 2 * m + 1 = (m + 1) + m := by ring
      rw [split, add_smul]
      exact sum
    · have split : 2 * m + 1 + 1 = 2 * (m + 1) := by ring
      rw [split, double]
      exact twice
  · have zero : bit = 0 := by omega
    have sum := Coord.add_represents smooth acc.first acc.second next some
    have twice := Coord.double_represents smooth acc.first
    rw [Montgomery.step, if_neg one, zero]
    constructor
    · rw [add_zero, double]
      exact twice
    · have split : 2 * m + 0 + 1 = m + (m + 1) := by ring
      rw [split, add_smul]
      exact sum

/-- The point at the origin has order two. -/
theorem even_smul_origin (h : (curve a).Nonsingular 0 y) {n : ℕ} (even : Even n) :
    n • Affine.Point.some 0 y h = 0 := by
  have low : y = 0 := by
    have on := equation_iff.mp h.1
    rw [zero_pow three_ne_zero, zero_pow two_ne_zero, mul_zero, add_zero, add_zero] at on
    exact (pow_eq_zero_iff two_ne_zero).mp on
  have twice : Affine.Point.some 0 y h + Affine.Point.some 0 y h = 0 :=
    Affine.Point.add_self_of_Y_eq (by rw [negY_eq, low, neg_zero])
  obtain ⟨m, rfl⟩ := even
  rw [add_smul, ← smul_add, twice, smul_zero]

end Montgomery
