import HaclStar.Spec.Curve25519Group

/-! Two parties that multiply by their scalars in either order get the same string. -/

namespace HaclStar.Correctness.DiffieHellman

open Endianness Montgomery WeierstrassCurve
open HaclStar.Spec.Curve25519

/-- What the specification encodes: the quotient of the coordinates, with zero for a quotient by zero. -/
def quotient (p : ProjPoint) : Int := fmul p.x (pow p.z (prime - 2).toNat)

/-- A residue is read back from its encoding. -/
theorem decodePoint_littleBytes {e : Int} (reduced : Reduced e) : decodePoint (littleBytes 32 e.toNat) = e := by
  obtain ⟨positive, below⟩ := reduced
  have bound : prime = 2 ^ 255 - 19 := rfl
  have small : e.toNat < 2 ^ 255 := by omega
  have fits : e.toNat < 2 ^ (8 * 32) := small.trans (by decide)
  rw [decodePoint, littleEndian_littleBytes, Nat.mod_eq_of_lt fits, Nat.mod_eq_of_lt small,
    Int.toNat_of_nonneg positive, Int.emod_eq_of_lt positive below]

/-- The lowest bit of a decoded scalar is clear. -/
theorem even_decodeScalar (k : Bytes) : Even (littleEndian (decodeScalar25519 k)) := by
  have masked (b : UInt8) : (b &&& 248).toNat % 2 = 0 := by
    have bits : (b.toNat &&& 248) % 2 ^ 1 = 0 := by
      rw [Nat.and_mod_two_pow]
      exact Nat.and_zero _
    rw [UInt8.toNat_and]
    exact bits
  have first : ((decodeScalar25519 k).getD 0 0).toNat % 2 = 0 := by
    cases k with
    | nil => rfl
    | cons b k => exact masked b
  have bit := ithBit_eq (decodeScalar25519 k) 0
  have clear : ithBit (decodeScalar25519 k) 0 = 0 := by
    rw [ithBit, Nat.zero_div, Nat.zero_mod, pow_zero, Nat.div_one, first]
  rw [clear, pow_zero, Nat.div_one] at bit
  exact Nat.even_iff.mpr bit.symm

@[simp] theorem decodeScalar_length (k : Bytes) : (decodeScalar25519 k).length = k.length := by
  simp [decodeScalar25519]

section Extension

variable (K : Type*) [Field K] [Algebra (ZMod modulus) K]

theorem cast_quotient (p : ProjPoint) : ((quotient p : Int) : K) = (p.coord K).x / (p.coord K).z := by
  have value := congrArg (algebraMap (ZMod modulus) K)
    ((cast_fmul p.x _).trans (congrArg ((p.x : ZMod modulus) * ·) (cast_inverse p.z)))
  simp only [map_intCast, map_mul, map_inv₀] at value
  rw [quotient, value, ProjPoint.coord, div_eq_mul_inv]

/-- Over the point at the origin the ladder ends at infinity. -/
theorem quotient_origin {init : Int} (origin : (init : K) = 0) (k : Bytes) :
    ((quotient (montgomeryLadder init k) : Int) : K) = 0 := by
  -- After every step both denominators vanish, and before the first one a coordinate of each fraction does.
  have flat (n : Nat) : (coords K (ladderTop init k n)).1.x * (coords K (ladderTop init k n)).1.z = 0 ∧
      (coords K (ladderTop init k n)).2.x * (coords K (ladderTop init k n)).2.z = 0 := by
    induction n with
    | zero => simp [coords, ladderTop, ProjPoint.coord, origin]
    | succ n ih =>
      obtain ⟨first, second⟩ := step_origin (a := coefficient K) ih.1 ih.2 (ithBit k (255 - n))
      rw [ladderTop, coords_ladderStep, origin, first, second]
      exact ⟨mul_zero _, mul_zero _⟩
  obtain ⟨last, -⟩ := step_origin (a := coefficient K) (flat 255).1 (flat 255).2 (ithBit k (255 - 255))
  have denominator : ((montgomeryLadder init k).coord K).z = 0 := by
    rw [montgomeryLadder_top, ladderTop]
    have step := coords_ladderStep K init (ithBit k (255 - 255)) (ladderTop init k 255)
    rw [origin] at step
    rw [← step] at last
    exact last
  rw [cast_quotient, denominator, div_zero]

variable {K} [DecidableEq K]

/-- For an even scalar the quotient is the abscissa of the multiple, whatever the point is. -/
theorem quotient_abscissa {init : Int} {P : (curve (coefficient K)).Point} (value : (init : K) = abscissa P) {k : Bytes}
    (size : k.length = 32) (even : Even (littleEndian k)) :
    ((quotient (montgomeryLadder init k) : Int) : K) = abscissa (littleEndian k • P) := by
  match P with
  | .zero =>
    have none : littleEndian k • (0 : (curve (coefficient K)).Point) = 0 := smul_zero _
    rw [quotient_origin K value]
    exact (congrArg abscissa none).symm
  | .some x y h =>
    by_cases origin : x = 0
    · subst origin
      rw [quotient_origin K value, even_smul_origin h even]
      rfl
    · have same : (init : K) = x := value
      subst same
      have result := (accumulates_top h origin size (le_refl 256)).first
      rw [Nat.sub_self, pow_zero, Nat.div_one, coords, ← montgomeryLadder_top] at result
      rw [cast_quotient, result.quotient]

end Extension

theorem encodePoint_eq (p : ProjPoint) : encodePoint p = littleBytes 32 (quotient p).toNat := rfl

theorem reduced_quotient (p : ProjPoint) : Reduced (quotient p) := reduced_fmul _ _

/-- Multiplying by one scalar and then by the other yields the abscissa of the multiple by both. -/
theorem quotient_both {K : Type*} [Field K] [Algebra (ZMod modulus) K] [DecidableEq K] {a b u : Bytes}
    (sizeA : a.length = 32) (sizeB : b.length = 32) {P : (curve (coefficient K)).Point}
    (value : (decodePoint u : K) = abscissa P) :
    ((quotient (montgomeryLadder (decodePoint (scalarmult b u)) (decodeScalar25519 a)) : Int) : K) =
      abscissa (littleEndian (decodeScalar25519 a) • littleEndian (decodeScalar25519 b) • P) := by
  have inner := quotient_abscissa value (k := decodeScalar25519 b) (by rw [decodeScalar_length, sizeB])
    (even_decodeScalar b)
  rw [scalarmult, encodePoint_eq, decodePoint_littleBytes (reduced_quotient _)]
  exact quotient_abscissa inner (by rw [decodeScalar_length, sizeA]) (even_decodeScalar a)

/-- Both parties get the same string, for every string that stands for a point. -/
theorem scalarmult_agree (a b u : Bytes) (sizeA : a.length = 32) (sizeB : b.length = 32) :
    scalarmult a (scalarmult b u) = scalarmult b (scalarmult a u) := by
  classical
  -- Over the algebraic closure every element of the field is the abscissa of a point.
  let K := AlgebraicClosure (ZMod modulus)
  obtain ⟨P, value⟩ : ∃ P : (curve (coefficient K)).Point, (decodePoint u : K) = abscissa P := by
    obtain ⟨y, root⟩ := IsAlgClosed.exists_pow_nat_eq
      ((decodePoint u : K) ^ 3 + coefficient K * (decodePoint u : K) ^ 2 + (decodePoint u : K)) two_pos
    exact ⟨.some _ y ((smooth K).nonsingular root), rfl⟩
  have left := quotient_both sizeA sizeB value
  have right := quotient_both sizeB sizeA value
  rw [smul_comm, ← right, intCast_inj] at left
  have same := ((reduced_quotient _).eq_iff (reduced_quotient _)).mpr left
  rw [scalarmult, encodePoint_eq, same, ← encodePoint_eq]
  rfl

theorem scalarmult_agree_origin :
    scalarmult (List.replicate 32 1) (scalarmult (List.replicate 32 2) (List.replicate 32 0)) =
      scalarmult (List.replicate 32 2) (scalarmult (List.replicate 32 1) (List.replicate 32 0)) :=
  scalarmult_agree (List.replicate 32 1) (List.replicate 32 2) (List.replicate 32 0) (by decide) (by decide)

end HaclStar.Correctness.DiffieHellman
