import Mathlib

/-! The group of a twisted Edwards curve over a field where minus one is a square and the coefficient is not. -/

namespace Edwards

variable {F : Type} [Field F]

/-- The curve `-x ^ 2 + y ^ 2 = 1 + d * x ^ 2 * y ^ 2`, with what makes its addition complete. -/
structure Curve (F : Type) [Field F] where
  d : F
  /-- A square root of minus one. -/
  i : F
  i_sq : i ^ 2 = -1
  nonsquare : ∀ r, r ^ 2 ≠ d
  two_ne_zero : (2 : F) ≠ 0

/-- A point of the curve. -/
@[ext] structure Point (c : Curve F) where
  x : F
  y : F
  on_curve : -x ^ 2 + y ^ 2 = 1 + c.d * x ^ 2 * y ^ 2

namespace Point

variable {c : Curve F} (p q r : Point c)

/-- The term that the denominators of the sum add to one, or take from it. -/
def cross : F := c.d * p.x * q.x * p.y * q.y

/-- The cross term is neither one nor minus one. -/
theorem cross_sq_ne_one : (cross p q) ^ 2 ≠ 1 := by
  intro one
  simp only [cross] at one
  have onP := p.on_curve
  have onQ := q.on_curve
  -- Otherwise the coefficient times a square is a square, for either sign of `q.y`.
  have root (s : F) (sign : s ^ 2 = 1) : (c.i * p.x + s * (c.d * p.x * q.x * p.y * q.y) * p.y) ^ 2 =
      c.d * (p.x * p.y * (c.i * q.x + s * q.y)) ^ 2 := by
    linear_combination (p.x ^ 2 - c.d * p.x ^ 2 * p.y ^ 2 * q.x ^ 2) * c.i_sq +
      ((c.d * p.x * q.x * p.y * q.y) ^ 2 * p.y ^ 2 - c.d * p.x ^ 2 * p.y ^ 2 * q.y ^ 2) * sign +
      (p.y ^ 2 - 1) * one + onP - c.d * p.x ^ 2 * p.y ^ 2 * onQ
  have zero (s : F) (sign : s ^ 2 = 1) : p.x * p.y * (c.i * q.x + s * q.y) = 0 := by
    by_contra some
    apply c.nonsquare ((c.i * p.x + s * (c.d * p.x * q.x * p.y * q.y) * p.y) /
      (p.x * p.y * (c.i * q.x + s * q.y)))
    rw [div_pow, root s sign, mul_div_assoc, div_self (pow_ne_zero 2 some), mul_one]
  -- Both factors vanish only where the cross term does.
  have plus := zero 1 (one_pow 2)
  have minus := zero (-1) (by ring)
  have vanishes : 2 * (c.d * p.x * q.x * p.y * q.y) = 0 := by
    linear_combination c.d * q.x * plus - c.d * q.x * minus
  have cleared : c.d * p.x * q.x * p.y * q.y = 0 :=
    (mul_eq_zero.mp vanishes).resolve_left c.two_ne_zero
  rw [cleared, zero_pow two_ne_zero] at one
  exact zero_ne_one one

theorem one_add_cross_ne_zero : 1 + cross p q ≠ 0 := by
  intro zero
  exact cross_sq_ne_one p q (by linear_combination (cross p q - 1) * zero)

theorem one_sub_cross_ne_zero : 1 - cross p q ≠ 0 := by
  intro zero
  exact cross_sq_ne_one p q (by linear_combination -(cross p q + 1) * zero)

/-- The numerators of the sum, and the equation of the curve for the sum with its denominators cleared. -/
def sumX : F := p.x * q.y + q.x * p.y

def sumY : F := p.y * q.y + p.x * q.x

theorem sum_on_curve :
    -(sumX p q * (1 - cross p q)) ^ 2 + (sumY p q * (1 + cross p q)) ^ 2 =
      ((1 + cross p q) * (1 - cross p q)) ^ 2 + c.d * (sumX p q) ^ 2 * (sumY p q) ^ 2 := by
  -- Both sides depend on `-x ^ 2 + y ^ 2` and on `x * y` alone, and the first is given by the curve.
  simp only [sumX, sumY, cross]
  linear_combination
    ((-q.x ^ 2 + q.y ^ 2) * (1 + c.d ^ 2 * p.x ^ 2 * p.y ^ 2 * q.x ^ 2 * q.y ^ 2) -
      c.d * q.x ^ 2 * q.y ^ 2 * (-p.x ^ 2 + p.y ^ 2 + 1 + c.d * p.x ^ 2 * p.y ^ 2)) * p.on_curve +
    ((1 + c.d * p.x ^ 2 * p.y ^ 2) * (1 + c.d ^ 2 * p.x ^ 2 * p.y ^ 2 * q.x ^ 2 * q.y ^ 2) -
      c.d * p.x ^ 2 * p.y ^ 2 * (-q.x ^ 2 + q.y ^ 2 + 1 + c.d * q.x ^ 2 * q.y ^ 2)) * q.on_curve

instance : Zero (Point c) := ⟨⟨0, 1, by ring⟩⟩

instance : Neg (Point c) := ⟨fun p => ⟨-p.x, p.y, by linear_combination p.on_curve⟩⟩

instance : Add (Point c) where
  add p q := {
    x := sumX p q / (1 + cross p q)
    y := sumY p q / (1 - cross p q)
    on_curve := by
      have plus := one_add_cross_ne_zero p q
      have minus := one_sub_cross_ne_zero p q
      have cleared := sum_on_curve p q
      field_simp
      linear_combination cleared
  }

@[simp] theorem zero_x : (0 : Point c).x = 0 := rfl

@[simp] theorem zero_y : (0 : Point c).y = 1 := rfl

@[simp] theorem neg_x : (-p).x = -p.x := rfl

@[simp] theorem neg_y : (-p).y = p.y := rfl

theorem add_x : (p + q).x = sumX p q / (1 + cross p q) := rfl

theorem add_y : (p + q).y = sumY p q / (1 - cross p q) := rfl

theorem cross_comm : cross p q = cross q p := by simp only [cross]; ring

protected theorem add_comm : p + q = q + p := by
  ext
  · rw [add_x, add_x, cross_comm p q, sumX, sumX, add_comm]
  · rw [add_y, add_y, cross_comm p q, sumY, sumY, mul_comm p.y, mul_comm p.x]

protected theorem zero_add : 0 + p = p := by
  ext
  · simp [add_x, sumX, cross]
  · simp [add_y, sumY, cross]

protected theorem neg_add : -p + p = 0 := by
  have plus := one_sub_cross_ne_zero (-p) p
  ext
  · have none : sumX (-p) p = 0 := by simp only [sumX, neg_x, neg_y]; ring
    rw [add_x, none, zero_div, zero_x]
  · -- The numerator is the denominator, by the equation of the curve.
    have whole : sumY (-p) p = 1 - cross (-p) p := by
      simp only [sumY, cross, neg_x, neg_y]
      linear_combination p.on_curve
    rw [add_y, whole, div_self plus, zero_y]

/-! Associativity, first with the denominators cleared. -/

/-- The denominators of a sum, multiplied. -/
def den : F := (1 + cross p q) * (1 - cross p q)

theorem den_ne_zero : den p q ≠ 0 := mul_ne_zero (one_add_cross_ne_zero p q) (one_sub_cross_ne_zero p q)

/-- The numerators over the product of the denominators. -/
def numX : F := sumX p q * (1 - cross p q)

def numY : F := sumY p q * (1 + cross p q)

theorem add_x_eq : (p + q).x = numX p q / den p q := by
  rw [add_x, numX, den, mul_div_mul_right _ _ (one_sub_cross_ne_zero p q)]

theorem add_y_eq : (p + q).y = numY p q / den p q := by
  rw [add_y, numY, den, mul_comm (1 + _), mul_div_mul_right _ _ (one_add_cross_ne_zero p q)]

/-- The product of the numerators without the common denominators. -/
theorem cross_add_left : cross (p + q) r = c.d * sumX p q * sumY p q * r.x * r.y / den p q := by
  rw [cross, add_x, add_y, den]
  have plus := one_add_cross_ne_zero p q
  have minus := one_sub_cross_ne_zero p q
  field_simp

/-- The first coordinate of a sum of three points, the first two added first. -/
theorem add_add_x : ((p + q) + r).x = (numX p q * r.y + r.x * numY p q) /
    (den p q + c.d * sumX p q * sumY p q * r.x * r.y) := by
  have some := den_ne_zero p q
  have num : sumX (p + q) r = (numX p q * r.y + r.x * numY p q) / den p q := by
    rw [sumX, add_x_eq, add_y_eq]
    field_simp
  have plus : 1 + cross (p + q) r = (den p q + c.d * sumX p q * sumY p q * r.x * r.y) / den p q := by
    rw [cross_add_left, add_div, div_self some]
  rw [add_x, num, plus, div_div_div_cancel_right₀ some]

theorem add_add_y : ((p + q) + r).y = (numY p q * r.y + numX p q * r.x) /
    (den p q - c.d * sumX p q * sumY p q * r.x * r.y) := by
  have some := den_ne_zero p q
  have num : sumY (p + q) r = (numY p q * r.y + numX p q * r.x) / den p q := by
    rw [sumY, add_x_eq, add_y_eq]
    field_simp
  have minus : 1 - cross (p + q) r = (den p q - c.d * sumX p q * sumY p q * r.x * r.y) / den p q := by
    rw [cross_add_left, sub_div, div_self some]
  rw [add_y, num, minus, div_div_div_cancel_right₀ some]

/-- The denominators of a sum of three points. -/
theorem den_add_ne_zero : den p q + c.d * sumX p q * sumY p q * r.x * r.y ≠ 0 := by
  have some := den_ne_zero p q
  have plus := one_add_cross_ne_zero (p + q) r
  rw [cross_add_left, ← div_self some, ← add_div] at plus
  exact (div_ne_zero_iff.mp plus).1

theorem den_sub_ne_zero : den p q - c.d * sumX p q * sumY p q * r.x * r.y ≠ 0 := by
  have some := den_ne_zero p q
  have minus := one_sub_cross_ne_zero (p + q) r
  rw [cross_add_left, ← div_self some, ← sub_div] at minus
  exact (div_ne_zero_iff.mp minus).1

/-- Both orders give fractions of equal value: the difference of the products is a combination of the
equations of the three points. -/
theorem assoc_x : (numX p q * r.y + r.x * numY p q) * (den r q + c.d * sumX r q * sumY r q * p.x * p.y) =
    (numX r q * p.y + p.x * numY r q) * (den p q + c.d * sumX p q * sumY p q * r.x * r.y) := by
  simp only [numX, numY, den, sumX, sumY, cross]
  linear_combination c.d * q.x * q.y *
    ((r.x * r.y * (-(p.y * q.y ^ 3 * r.x) + p.x * q.y ^ 3 * r.y + p.y * q.x ^ 3 * r.y -
          p.x * q.x ^ 3 * r.x) -
        q.x * q.y * (p.y * q.y * r.x * (1 + r.x ^ 2) + p.y * q.x * r.y * (1 - r.y ^ 2) +
          p.x * q.y * r.y * (1 - r.y ^ 2) + p.x * q.x * r.x * (1 + r.x ^ 2)) +
        c.d * (q.x * q.y) ^ 2 * (r.x * r.y) * (p.y * (q.x * r.y + r.x * q.y) -
          p.x * (q.y * r.y + q.x * r.x))) * p.on_curve +
      (r.x * r.y * (1 - p.y ^ 2 + p.x ^ 2) * (p.x * (q.y * r.y + q.x * r.x) -
          p.y * (q.x * r.y + r.x * q.y)) +
        c.d * (p.x * p.y) * (r.x * r.y) ^ 2 * (p.y * (q.y * r.x - q.x * r.y) +
          p.x * (q.x * r.x - q.y * r.y))) * q.on_curve +
      (q.x * q.y * (1 - p.y ^ 2 + p.x ^ 2) * (p.y * (q.x * r.y + r.x * q.y) +
          p.x * (q.y * r.y + q.x * r.x)) +
        p.x * p.y * (p.y * (q.x * r.y - q.y * r.x) + p.x * (q.y * r.y - q.x * r.x))) * r.on_curve)

/-- The sum with the point `(i, 0)`, which exchanges the coordinates. -/
def quarter : Point c where
  x := c.i * p.y
  y := c.i * p.x
  on_curve := by
    linear_combination p.on_curve + (-p.y ^ 2 + p.x ^ 2 - c.d * p.x ^ 2 * p.y ^ 2 * (c.i ^ 2 - 1)) * c.i_sq

theorem quarter_cross : cross (quarter p) q = -cross p q := by
  simp only [cross, quarter]
  linear_combination c.d * p.x * q.x * p.y * q.y * c.i_sq

theorem quarter_numX : numX (quarter p) q = c.i * numY p q := by
  rw [numX, quarter_cross]
  simp only [numY, sumX, sumY, quarter]
  ring

theorem quarter_numY : numY (quarter p) q = c.i * numX p q := by
  rw [numY, quarter_cross]
  simp only [numX, sumX, sumY, quarter]
  ring

theorem quarter_den : den (quarter p) q = den p q := by
  simp only [den, quarter_cross]
  ring

/-- The second coordinates are the first ones of points a quarter further. -/
theorem assoc_y : (numY p q * r.y + numX p q * r.x) * (den r q - c.d * sumX r q * sumY r q * p.x * p.y) =
    (numY r q * p.y + numX r q * p.x) * (den p q - c.d * sumX p q * sumY p q * r.x * r.y) := by
  have turned := assoc_x p q (quarter r)
  have sums : sumX (quarter r) q * sumY (quarter r) q = -(sumX r q * sumY r q) := by
    simp only [sumX, sumY, quarter]
    linear_combination (r.y * q.y + q.x * r.x) * (r.x * q.y + r.y * q.x) * c.i_sq
  have products : (quarter r).x * (quarter r).y = -(r.x * r.y) := by
    simp only [quarter]
    linear_combination r.x * r.y * c.i_sq
  have some : c.i ≠ 0 := by
    intro zero
    have square := c.i_sq
    rw [zero, zero_pow two_ne_zero] at square
    exact one_ne_zero (neg_eq_zero.mp square.symm)
  apply mul_left_cancel₀ some
  rw [quarter_numX, quarter_numY, quarter_den, mul_assoc c.d, sums,
    mul_assoc (c.d * sumX p q * sumY p q), products] at turned
  simp only [quarter] at turned
  linear_combination turned

protected theorem add_assoc : (p + q) + r = p + (q + r) := by
  rw [Point.add_comm p (q + r), Point.add_comm q r]
  ext
  · rw [add_add_x, add_add_x, div_eq_div_iff (den_add_ne_zero p q r) (den_add_ne_zero r q p), assoc_x]
  · rw [add_add_y, add_add_y, div_eq_div_iff (den_sub_ne_zero p q r) (den_sub_ne_zero r q p), assoc_y]

instance : AddCommGroup (Point c) where
  add_assoc := Point.add_assoc
  zero_add := Point.zero_add
  add_zero p := by rw [Point.add_comm, Point.zero_add]
  neg_add_cancel := Point.neg_add
  add_comm := Point.add_comm
  nsmul := nsmulRec
  zsmul := zsmulRec

end Point

section Extended

variable {c : Curve F} {p q : Point c} {X Y Z T X' Y' Z' T' : F}

/-- Extended coordinates of a point: both coordinates and their product, over a common denominator. -/
structure Represents (p : Point c) (X Y Z T : F) : Prop where
  some : Z ≠ 0
  x : X = p.x * Z
  y : Y = p.y * Z
  t : T = p.x * p.y * Z

/-- Extended coordinates are those of a point exactly when they satisfy the equations of the curve. -/
theorem exists_represents : (∃ p : Point c, Represents p X Y Z T) ↔
    Z ≠ 0 ∧ X * Y = Z * T ∧ -X ^ 2 + Y ^ 2 = Z ^ 2 + c.d * T ^ 2 := by
  constructor
  · rintro ⟨p, some, rfl, rfl, rfl⟩
    exact ⟨some, by ring, by linear_combination Z ^ 2 * p.on_curve⟩
  · rintro ⟨some, product, equation⟩
    have fourth : T = X / Z * (Y / Z) * Z := by
      field_simp
      linear_combination -product
    refine ⟨⟨X / Z, Y / Z, ?_⟩, some, ?_, ?_, fourth⟩
    · rw [fourth] at equation
      field_simp at equation ⊢
      linear_combination equation
    · field_simp
    · field_simp

/-- Points are equal when their fractions are. -/
theorem Represents.eq_iff (rep : Represents p X Y Z T) (rep' : Represents q X' Y' Z' T') :
    p = q ↔ X * Z' = X' * Z ∧ Y * Z' = Y' * Z := by
  have both : Z * Z' ≠ 0 := mul_ne_zero rep.some rep'.some
  rw [rep.x, rep.y, rep'.x, rep'.y]
  constructor
  · rintro rfl
    exact ⟨by ring, by ring⟩
  · rintro ⟨first, second⟩
    ext
    · exact mul_right_cancel₀ both (by linear_combination first)
    · exact mul_right_cancel₀ both (by linear_combination second)

/-- The sum in extended coordinates. -/
theorem Represents.add (rep : Represents p X Y Z T) (rep' : Represents q X' Y' Z' T') {a b e f g h k l : F}
    (A : a = (Y - X) * (Y' - X')) (B : b = (Y + X) * (Y' + X')) (C : k = 2 * c.d * T * T')
    (D : l = 2 * Z * Z') (E : e = b - a) (F : f = l - k) (G : g = l + k) (H : h = b + a) :
    Represents (p + q) (e * f) (g * h) (f * g) (e * h) := by
  have plus := Point.one_add_cross_ne_zero p q
  have minus := Point.one_sub_cross_ne_zero p q
  have twice : 2 * Z * Z' ≠ 0 := mul_ne_zero (mul_ne_zero c.two_ne_zero rep.some) rep'.some
  -- The four factors are the numerators and denominators of the sum, over twice the denominators.
  have sumE : e = 2 * Z * Z' * Point.sumX p q := by
    rw [E, A, B, rep.x, rep.y, rep'.x, rep'.y, Point.sumX]; ring
  have sumH : h = 2 * Z * Z' * Point.sumY p q := by
    rw [H, A, B, rep.x, rep.y, rep'.x, rep'.y, Point.sumY]; ring
  have sumF : f = 2 * Z * Z' * (1 - Point.cross p q) := by
    rw [F, C, D, rep.t, rep'.t, Point.cross]; ring
  have sumG : g = 2 * Z * Z' * (1 + Point.cross p q) := by
    rw [G, C, D, rep.t, rep'.t, Point.cross]; ring
  refine ⟨?_, ?_, ?_, ?_⟩
  · rw [sumF, sumG]
    exact mul_ne_zero (mul_ne_zero twice minus) (mul_ne_zero twice plus)
  · rw [sumE, sumF, sumG, Point.add_x]
    field_simp
  · rw [sumH, sumF, sumG, Point.add_y]
    field_simp
  · rw [sumE, sumH, sumF, sumG, Point.add_x, Point.add_y]
    field_simp

/-- The double in extended coordinates, where all four factors have the other sign. -/
theorem Represents.double (rep : Represents p X Y Z T) {a b e f g h k : F} (A : a = X * X) (B : b = Y * Y)
    (C : k = 2 * (Z * Z)) (H : h = a + b) (E : e = h - (X + Y) * (X + Y)) (G : g = a - b) (F : f = k + g) :
    Represents (p + p) (e * f) (g * h) (f * g) (e * h) := by
  have plus := Point.one_add_cross_ne_zero p p
  have minus := Point.one_sub_cross_ne_zero p p
  have square : Z * Z ≠ 0 := mul_ne_zero rep.some rep.some
  have sumE : e = -(Z * Z * Point.sumX p p) := by
    rw [E, H, A, B, rep.x, rep.y, Point.sumX]; ring
  have sumH : h = Z * Z * Point.sumY p p := by
    rw [H, A, B, rep.x, rep.y, Point.sumY]; ring
  -- The equation of the curve turns the difference of the squares into a denominator.
  have sumG : g = -(Z * Z * (1 + Point.cross p p)) := by
    rw [G, A, B, rep.x, rep.y, Point.cross]
    linear_combination -Z ^ 2 * p.on_curve
  have sumF : f = Z * Z * (1 - Point.cross p p) := by
    rw [F, sumG, C]; ring
  refine ⟨?_, ?_, ?_, ?_⟩
  · rw [sumF, sumG]
    exact mul_ne_zero (mul_ne_zero square minus) (neg_ne_zero.mpr (mul_ne_zero square plus))
  · rw [sumE, sumF, sumG, Point.add_x]
    field_simp
  · rw [sumH, sumF, sumG, Point.add_y]
    field_simp
  · rw [sumE, sumH, sumF, sumG, Point.add_x, Point.add_y]
    field_simp

end Extended

end Edwards
