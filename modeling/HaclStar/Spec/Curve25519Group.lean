import HaclStar.Lib.Montgomery
import HaclStar.Spec.Curve25519Ladder

/-! The fractions of the Curve25519 specification are first coordinates of points of a Montgomery curve, over the
field and over its extensions, and its ladder is the ladder of that curve. -/

namespace HaclStar.Spec.Curve25519

open Endianness Montgomery

/-- The coefficient of the curve is a numeral. -/
instance coefficient_atLeastTwo : Nat.AtLeastTwo 486662 := ⟨by decide⟩

/-- The coefficient of the curve. -/
abbrev coefficient (K : Type*) [Field K] : K := 486662

variable (K : Type*) [Field K] [Algebra (ZMod modulus) K]

/-- An element of the field in an extension. -/
theorem intCast_eq (e : Int) : (e : K) = algebraMap (ZMod modulus) K e := (map_intCast (algebraMap (ZMod modulus) K) e).symm

theorem intCast_inj {e e' : Int} : (e : K) = e' ↔ (e : ZMod modulus) = e' := by
  rw [intCast_eq K e, intCast_eq K e', (algebraMap (ZMod modulus) K).injective.eq_iff]

theorem smooth : Smooth (coefficient K) := by
  constructor
  · have two := (@intCast_inj K _ _ 2 0).not.mpr (by simpa using two_ne_zero)
    simpa using two
  · have square := (@intCast_inj K _ _ (486662 ^ 2) 4).not.mpr (by
      rw [cast_eq_iff]
      decide)
    rw [Int.cast_pow, Int.cast_ofNat, Int.cast_ofNat] at square
    exact square

/-- The fraction in an extension of the field. -/
def ProjPoint.coord (p : ProjPoint) : Coord K := ⟨p.x, p.z⟩

/-- Both accumulators in an extension of the field. -/
def coords (s : ProjPoint × ProjPoint) : Coord K × Coord K := (s.1.coord K, s.2.coord K)

variable (init : Int) (nq nqp1 : ProjPoint)

theorem coord_double : (addAndDouble init nq nqp1).1.coord K = (nq.coord K).double (coefficient K) := by
  have x := congrArg (algebraMap (ZMod modulus) K) (cast_double_x init nq nqp1)
  have z := congrArg (algebraMap (ZMod modulus) K) (cast_double_z init nq nqp1)
  simp only [map_intCast, map_mul, map_pow, map_add, map_sub, map_ofNat] at x z
  apply Coord.ext
  · simp only [ProjPoint.coord, Coord.double, x]
    ring
  · simp only [ProjPoint.coord, Coord.double, z]
    ring

theorem coord_add : (addAndDouble init nq nqp1).2.coord K = (nq.coord K).add (init : K) (nqp1.coord K) := by
  have x := congrArg (algebraMap (ZMod modulus) K) (cast_add_x init nq nqp1)
  have z := congrArg (algebraMap (ZMod modulus) K) (cast_add_z init nq nqp1)
  simp only [map_intCast, map_mul, map_pow, map_add, map_sub] at x z
  apply Coord.ext
  · simp only [ProjPoint.coord, Coord.add, x]
    ring
  · simp only [ProjPoint.coord, Coord.add, z]
    ring

/-- A step of the ladder is a step on the curve. -/
theorem coords_ladderStep (bit : Nat) (s : ProjPoint × ProjPoint) :
    coords K (ladderStep init bit s) = step (coefficient K) init bit (coords K s) := by
  by_cases one : bit = 1
  · rw [ladderStep, step, if_pos one, if_pos one, coords, coord_add, coord_double, coords]
  · rw [ladderStep, step, if_neg one, if_neg one, coords, coord_add, coord_double, coords]

variable {K} [DecidableEq K] {init} {y : K}

/-- After any number of steps the accumulators hold the multiple by the bits so far, and the next multiple. -/
theorem accumulates_top (h : (curve (coefficient K)).Nonsingular init y) (some : (init : K) ≠ 0) {k : Bytes}
    (size : k.length = 32) {n : Nat} (within : n ≤ 256) :
    Accumulates (.some (init : K) y h) (littleEndian k / 2 ^ (256 - n)) (coords K (ladderTop init k n)) := by
  -- Induction on the steps; a step appends the next bit of the scalar.
  induction n with
  | zero =>
    have small := littleEndian_lt k
    rw [size] at small
    rw [Nat.sub_zero, Nat.div_eq_of_lt small]
    simpa [coords, ladderTop, ProjPoint.coord] using accumulates_start h
  | succ n ih =>
    have left : 256 - n = 255 - n + 1 := by omega
    have position : 256 - (n + 1) = 255 - n := by omega
    have before := ih (by omega)
    have bit : ithBit k (255 - n) ≤ 1 := by
      rw [ithBit_eq]
      omega
    have after := before.step (smooth K) some bit
    rw [left] at after
    rw [position, bits_succ, ← ithBit_eq, ladderTop, coords_ladderStep]
    exact after

end HaclStar.Spec.Curve25519
