import HaclStar.Spec.Curve25519Group

/-! The ladder of the Curve25519 specification multiplies the points of the curve by scalars. -/

namespace HaclStar.Correctness.MontgomeryLadder

open Endianness Montgomery WeierstrassCurve
open HaclStar.Spec.Curve25519

/-- The curve of the specification over its field. -/
abbrev curve25519 : Affine (ZMod modulus) := curve (coefficient (ZMod modulus))

/-- The point with coordinates that satisfy the equation of the curve. -/
def point {x y : ZMod modulus} (on : y ^ 2 = x ^ 3 + 486662 * x ^ 2 + x) : curve25519.Point :=
  .some x y ((smooth (ZMod modulus)).nonsingular on)

/-- A residue vanishes when its class does. -/
theorem reduced_eq_zero {e : Int} (reduced : Reduced e) : e = 0 ↔ (e : ZMod modulus) = 0 := by
  have zero : Reduced 0 := ⟨le_rfl, by decide⟩
  rw [reduced.eq_iff zero, Int.cast_zero]

/-- After the highest bits the accumulators stand for the multiple by these bits and for the next one; a step appends a
bit, whichever accumulator it doubles; and the ladder returns the first coordinate of the multiple by the scalar. -/
theorem ladder_multiplies (x : Int) (y : ZMod modulus)
    (on : y ^ 2 = (x : ZMod modulus) ^ 3 + 486662 * (x : ZMod modulus) ^ 2 + x) (some : (x : ZMod modulus) ≠ 0)
    (k : Bytes) (size : k.length = 32) :
    (∀ n ≤ 256, Accumulates (point on) (littleEndian k / 2 ^ (256 - n)) (coords (ZMod modulus) (ladderTop x k n))) ∧
    (∀ (m bit : Nat) (s : ProjPoint × ProjPoint), bit ≤ 1 → Accumulates (point on) m (coords (ZMod modulus) s) →
      Accumulates (point on) (2 * m + bit) (coords (ZMod modulus) (ladderStep x bit s))) ∧
    ((montgomeryLadder x k).z = 0 ↔ littleEndian k • point on = 0) ∧
    ∀ (x' y' : ZMod modulus) (h : curve25519.Nonsingular x' y'), littleEndian k • point on = .some x' y' h →
      ((montgomeryLadder x k).x : ZMod modulus) / ((montgomeryLadder x k).z : ZMod modulus) = x' := by
  have invariant (n : Nat) (within : n ≤ 256) :
      Accumulates (point on) (littleEndian k / 2 ^ (256 - n)) (coords (ZMod modulus) (ladderTop x k n)) :=
    accumulates_top ((smooth (ZMod modulus)).nonsingular on) some size within
  -- After all bits the first accumulator is the result.
  have result := (invariant 256 le_rfl).first
  rw [Nat.sub_self, pow_zero, Nat.div_one, coords, ← montgomeryLadder_top] at result
  refine ⟨invariant, fun m bit s small acc => ?_, ?_, fun x' y' h multiple => ?_⟩
  · rw [coords_ladderStep]
    exact acc.step (smooth (ZMod modulus)) some small
  · rw [reduced_eq_zero (reduced_montgomeryLadder x k).2]
    exact result.z_eq_zero
  · have quotient := result.quotient
    rw [multiple] at quotient
    exact quotient

/-- The base point: the ordinate is one of the two square roots. -/
theorem base_on_curve : (14781619447589544791020593568409986887264606134616475288964881837755586237401 : ZMod modulus) ^ 2 =
    ((9 : Int) : ZMod modulus) ^ 3 + 486662 * ((9 : Int) : ZMod modulus) ^ 2 + ((9 : Int) : ZMod modulus) := by
  have same := (cast_eq_iff (14781619447589544791020593568409986887264606134616475288964881837755586237401 ^ 2)
    (9 ^ 3 + 486662 * 9 ^ 2 + 9)).mpr (by decide +kernel)
  push_cast at same
  exact_mod_cast same

theorem ladder_multiplies_base :
    (montgomeryLadder 9 (List.replicate 32 0)).z = 0 ↔
      littleEndian (List.replicate 32 0) • point base_on_curve = 0 := by
  have some : ((9 : Int) : ZMod modulus) ≠ 0 := by
    rw [← Int.cast_zero, Ne, cast_eq_iff]
    decide
  exact (ladder_multiplies 9 _ base_on_curve some (List.replicate 32 0) (by decide)).2.2.1

end HaclStar.Correctness.MontgomeryLadder
