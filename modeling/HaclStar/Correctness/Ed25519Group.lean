import HaclStar.Spec.Ed25519Group

/-! The point operations of Ed25519 are those of the group, on every valid point in extended coordinates. -/

namespace HaclStar.Correctness.Ed25519Group

open HaclStar.Spec.Curve25519 (modulus)
open HaclStar.Spec.Ed25519

/-- The affine coordinates of a point. -/
def affine (p : ExtPoint) : ZMod modulus × ZMod modulus := ((p.x : ZMod modulus) / p.z, (p.y : ZMod modulus) / p.z)

/-- The term in the denominators of the sum of two affine points. -/
def cross (a b : ZMod modulus × ZMod modulus) : ZMod modulus := d * a.1 * b.1 * a.2 * b.2

/-- The sum of two affine points on the curve. -/
def edwardsSum (a b : ZMod modulus × ZMod modulus) : ZMod modulus × ZMod modulus :=
  ((a.1 * b.2 + b.1 * a.2) / (1 + cross a b), (a.2 * b.2 + a.1 * b.1) / (1 - cross a b))

variable {p q : ExtPoint} {a b : Edwards.Point curve}

theorem affine_eq (denotes : Denotes p a) : affine p = (a.x, a.y) := by
  obtain ⟨some, x, y, _⟩ := denotes
  rw [affine, x, y, mul_div_cancel_right₀ _ some, mul_div_cancel_right₀ _ some]

theorem cross_eq (first : Denotes p a) (second : Denotes q b) :
    cross (affine p) (affine q) = Edwards.Point.cross a b := by
  rw [affine_eq first, affine_eq second, cross, Edwards.Point.cross, curve_d]

theorem edwardsSum_eq (first : Denotes p a) (second : Denotes q b) :
    edwardsSum (affine p) (affine q) = ((a + b).x, (a + b).y) := by
  rw [edwardsSum, cross_eq first second, affine_eq first, affine_eq second, Edwards.Point.add_x,
    Edwards.Point.add_y, Edwards.Point.sumX, Edwards.Point.sumY]

/-- Sums and doubles of valid points are valid and stand for the affine sum, whose denominators never vanish;
addition is commutative and associative as far as the test for equality sees. -/
theorem pointAdd_group (p q r : ExtPoint) (onP : OnCurve p) (onQ : OnCurve q) (onR : OnCurve r) :
    OnCurve (pointAdd p q) ∧ OnCurve (pointDouble p) ∧
    1 + cross (affine p) (affine q) ≠ 0 ∧ 1 - cross (affine p) (affine q) ≠ 0 ∧
    affine (pointAdd p q) = edwardsSum (affine p) (affine q) ∧
    affine (pointDouble p) = affine (pointAdd p p) ∧
    pointEqual (pointAdd p q) (pointAdd q p) = true ∧
    pointEqual (pointAdd (pointAdd p q) r) (pointAdd p (pointAdd q r)) = true := by
  obtain ⟨a, first⟩ := (onCurve_iff p).mp onP
  obtain ⟨b, second⟩ := (onCurve_iff q).mp onQ
  obtain ⟨c, third⟩ := (onCurve_iff r).mp onR
  have sum := first.add second
  refine ⟨(onCurve_iff _).mpr ⟨_, sum⟩, (onCurve_iff _).mpr ⟨_, first.double⟩, ?_, ?_, ?_, ?_, ?_, ?_⟩
  · rw [cross_eq first second]
    exact Edwards.Point.one_add_cross_ne_zero a b
  · rw [cross_eq first second]
    exact Edwards.Point.one_sub_cross_ne_zero a b
  · rw [affine_eq sum, edwardsSum_eq first second]
  · rw [affine_eq first.double, affine_eq (first.add first)]
  · rw [sum.pointEqual_iff (second.add first), add_comm]
  · rw [(sum.add third).pointEqual_iff (first.add (second.add third)), add_assoc]

theorem pointAdd_group_zero :
    pointEqual (pointAdd (pointAdd ⟨0, 1, 1, 0⟩ ⟨0, 1, 1, 0⟩) ⟨0, -1, 1, 0⟩)
      (pointAdd ⟨0, 1, 1, 0⟩ (pointAdd ⟨0, 1, 1, 0⟩ ⟨0, -1, 1, 0⟩)) = true := by
  have zero : OnCurve ⟨0, 1, 1, 0⟩ := (onCurve_iff _).mpr ⟨0, denotes_zero⟩
  have order2 : OnCurve ⟨0, -1, 1, 0⟩ := by
    refine ⟨?_, ?_, ?_⟩ <;> decide
  exact (pointAdd_group ⟨0, 1, 1, 0⟩ ⟨0, 1, 1, 0⟩ ⟨0, -1, 1, 0⟩ zero zero order2).2.2.2.2.2.2.2

end HaclStar.Correctness.Ed25519Group
