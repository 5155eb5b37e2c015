import HaclStar.Lib.SquareRoots
import HaclStar.Spec.Ed25519Group

/-! The encoding of points: what a string of thirty-two bytes recovers, and which strings are encodings. -/

namespace HaclStar.Spec.Ed25519

open Endianness
open Curve25519 hiding ithBit montgomeryLadder_

theorem modulus_odd : modulus % 2 = 1 := by decide

theorem modulus_residue : modulus % 8 = 5 := by decide

theorem cast_modpSqrtM1 : (modpSqrtM1 : ZMod modulus) = curve.i := by
  have exponent : ((prime - 1) / 4).toNat = modulus / 4 := by decide
  rw [modpSqrtM1, exponent, cast_pow 2 (by decide), Int.cast_ofNat]
  rfl

/-- The denominator of the square of a first coordinate is never zero: otherwise the coefficient would be a
square. -/
theorem denominator_ne_zero (y : ZMod modulus) : (d : ZMod modulus) * (y * y) + 1 ≠ 0 := by
  intro zero
  have nonzero : y ≠ 0 := by
    rintro rfl
    rw [mul_zero, mul_zero, zero_add] at zero
    exact one_ne_zero zero
  apply d_nonsquare (curve.i / y)
  have root := curve.i_sq
  rw [div_pow, div_eq_iff (pow_ne_zero 2 nonzero), root]
  linear_combination -zero

/-- A first coordinate, a residue of the parity that the sign says, on the curve with a canonical second one. -/
structure Recovers (y : Int) (sign : Bool) (x : Int) : Prop where
  canonical : y < prime
  reduced : Reduced x
  parity : decide (x % 2 = 1) = sign
  equation : -x ^ 2 + y ^ 2 ≡ 1 + d * x ^ 2 * y ^ 2 [ZMOD prime]

/-- The square of a first coordinate, as the specification computes it. -/
def xSquare (y : Int) : Int := fmul (fsub (fmul y y) 1) (modpInv (fadd (fmul d (fmul y y)) 1))

theorem reduced_xSquare (y : Int) : Reduced (xSquare y) := reduced_fmul _ _

/-- The equation says what the square of the first coordinate is. -/
theorem equation_iff (x y : Int) :
    -x ^ 2 + y ^ 2 ≡ 1 + d * x ^ 2 * y ^ 2 [ZMOD prime] ↔ (x : ZMod modulus) * x = xSquare y := by
  have denominator := denominator_ne_zero (y : ZMod modulus)
  rw [modEq_iff, xSquare, modpInv]
  simp only [cast_fmul, cast_inverse, cast_fsub, cast_fadd, Int.cast_one]
  rw [← div_eq_mul_inv, eq_div_iff denominator]
  push_cast
  constructor
  · intro equation
    linear_combination -equation
  · intro equation
    linear_combination -equation

/-- The root that is tried, after the correction by a root of minus one. -/
def xCandidate (x2 : Int) : Int :=
  let x := pow x2 ((prime + 3) / 8).toNat
  if fsub (fmul x x) x2 ≠ 0 then fmul x modpSqrtM1 else x

/-- A difference is zero exactly when the elements are equal. -/
theorem fsub_eq_zero_iff (e1 e2 : Int) : fsub e1 e2 = 0 ↔ (e1 : ZMod modulus) = e2 := by
  have zero : Reduced 0 := by constructor <;> decide
  have residue : Reduced (fsub e1 e2) := reduced_mod _
  rw [residue.eq_iff zero, cast_fsub, Int.cast_zero, sub_eq_zero]

theorem reduced_xCandidate {x2 : Int} (reduced : Reduced x2) : Reduced (xCandidate x2) := by
  rw [xCandidate]
  split
  · exact reduced_fmul _ _
  · exact reduced_pow reduced _

theorem cast_xCandidate (x2 : Int) :
    (xCandidate x2 : ZMod modulus) = SquareRoots.candidate curve.i (x2 : ZMod modulus) := by
  have exponent : ((prime + 3) / 8).toNat = (modulus + 3) / 8 := by decide
  have power : (pow x2 ((prime + 3) / 8).toNat : ZMod modulus) = (x2 : ZMod modulus) ^ ((modulus + 3) / 8) := by
    rw [exponent, cast_pow x2 (by decide)]
  rw [xCandidate, SquareRoots.candidate, ← power]
  by_cases same : (pow x2 ((prime + 3) / 8).toNat : ZMod modulus) * pow x2 ((prime + 3) / 8).toNat = x2
  · rw [if_pos same, if_neg (not_not.mpr ((fsub_eq_zero_iff _ _).mpr (by rw [cast_fmul]; exact same)))]
  · rw [if_neg same, if_pos (mt (fsub_eq_zero_iff _ _).mp (by rw [cast_fmul]; exact same)), cast_fmul,
      cast_modpSqrtM1]

/-- The recovery in terms of the square and of the root that is tried. -/
theorem recoverX_eq (y : Int) (sign : Bool) :
    recoverX y sign =
      if y ≥ prime then none
      else if xSquare y = 0 then if sign then none else some 0
      else if fsub (fmul (xCandidate (xSquare y)) (xCandidate (xSquare y))) (xSquare y) ≠ 0 then none
      else some (if decide (xCandidate (xSquare y) % 2 = 1) ≠ sign then fsub prime (xCandidate (xSquare y))
        else xCandidate (xSquare y)) := rfl

/-- At most one first coordinate has a given sign. -/
theorem Recovers.unique {y : Int} {sign : Bool} {x x' : Int} (first : Recovers y sign x)
    (second : Recovers y sign x') : x = x' := by
  have square := (equation_iff x y).mp first.equation
  rw [← (equation_iff x' y).mp second.equation] at square
  have parity : x % 2 = x' % 2 := by
    have same := first.parity.trans second.parity.symm
    rw [decide_eq_decide] at same
    omega
  have bound (e : Int) (reduced : Reduced e) : 0 ≤ e ∧ e < (modulus : Int) := by
    rw [← prime_eq]
    exact reduced
  exact SquareRoots.residue_unique modulus_odd (bound x first.reduced) (bound x' second.reduced) square parity

/-- What is recovered has the properties of a first coordinate. -/
theorem recovers_of_recoverX {y : Int} {sign : Bool} {x : Int} (run : recoverX y sign = some x) :
    Recovers y sign x := by
  rw [recoverX_eq] at run
  split at run
  next large => cases run
  next small =>
    rw [not_le] at small
    split at run
    next zero =>
      -- The only root of zero is zero, which is even.
      cases sign with
      | true => cases run
      | false =>
        obtain rfl : 0 = x := Option.some.inj run
        refine ⟨small, by constructor <;> decide, by decide, (equation_iff 0 y).mpr ?_⟩
        rw [zero, Int.cast_zero, mul_zero]
    next nonzero =>
      split at run
      next none => cases run
      next root =>
        rw [not_not, fsub_eq_zero_iff, cast_fmul] at root
        obtain ⟨nonneg, below⟩ := reduced_xCandidate (reduced_xSquare y)
        -- The candidate is not zero, so that its opposite is the prime minus it.
        have positive : xCandidate (xSquare y) ≠ 0 := by
          intro zero
          rw [zero, Int.cast_zero, mul_zero] at root
          exact nonzero (((reduced_xSquare y).eq_iff (by constructor <;> decide)).mpr (by rw [← root, Int.cast_zero]))
        have chosen := Option.some.inj run
        split at chosen
        next other =>
          have opposite : fsub prime (xCandidate (xSquare y)) = prime - xCandidate (xSquare y) :=
            Int.emod_eq_of_lt (by omega) (by omega)
          subst chosen
          refine ⟨small, reduced_mod _, ?_, (equation_iff _ y).mpr ?_⟩
          · have odd : prime % 2 = 1 := by decide
            have flipped : (prime - xCandidate (xSquare y)) % 2 = 1 ↔ ¬ xCandidate (xSquare y) % 2 = 1 := by omega
            rw [opposite]
            cases sign <;> simpa [flipped] using other
          · have zero : (prime : ZMod modulus) = 0 := by rw [prime_eq, Int.cast_natCast, ZMod.natCast_self]
            rw [cast_fsub, zero, zero_sub, neg_mul_neg, root]
        next same =>
          subst chosen
          exact ⟨small, ⟨nonneg, below⟩, not_not.mp same, (equation_iff _ y).mpr root⟩

/-- Wherever a first coordinate exists, one is recovered. -/
theorem recoverX_isSome {y : Int} {sign : Bool} {x : Int} (recovers : Recovers y sign x) :
    (recoverX y sign).isSome := by
  have square := (equation_iff x y).mp recovers.equation
  rw [recoverX_eq, if_neg (not_le.mpr recovers.canonical)]
  split
  next zero =>
    -- The first coordinate is zero, and the sign is that of zero.
    rw [zero, Int.cast_zero, mul_self_eq_zero] at square
    have none : x = 0 := (recovers.reduced.eq_iff (by constructor <;> decide)).mpr (by rw [square, Int.cast_zero])
    have sign := recovers.parity
    rw [none] at sign
    subst sign
    rfl
  next nonzero =>
    have root : SquareRoots.candidate curve.i (xSquare y : ZMod modulus) *
        SquareRoots.candidate curve.i (xSquare y : ZMod modulus) = xSquare y :=
      (SquareRoots.candidate_sq_iff modulus_residue curve.i_sq _).mpr ⟨x, square.symm⟩
    have accepted : fsub (fmul (xCandidate (xSquare y)) (xCandidate (xSquare y))) (xSquare y) = 0 := by
      rw [fsub_eq_zero_iff, cast_fmul, cast_xCandidate]
      exact root
    rw [if_neg (not_not.mpr accepted)]
    split <;> rfl

/-- A coordinate is recovered exactly when it is one: canonical, on the curve, and of the right sign. -/
theorem recoverX_eq_some_iff (y : Int) (sign : Bool) (x : Int) : recoverX y sign = some x ↔ Recovers y sign x := by
  constructor
  · exact recovers_of_recoverX
  · intro recovers
    obtain ⟨x', run⟩ := Option.isSome_iff_exists.mp (recoverX_isSome recovers)
    rw [run, recovers.unique (recovers_of_recoverX run)]

/-! Strings: the second coordinate in the low bits, the sign of the first one in the highest bit. -/

/-- The second coordinate that a string encodes. -/
def yOf (s : Bytes) : Int := (littleEndian s % 2 ^ 255 : Nat)

/-- The sign that a string encodes. -/
def signOf (s : Bytes) : Bool := decide (littleEndian s / 2 ^ 255 % 2 = 1)

/-- Decompression in terms of the recovery. -/
theorem pointDecompress_eq_some_iff (s : Bytes) (p : ExtPoint) :
    pointDecompress s = some p ↔ ∃ x, Recovers (yOf s) (signOf s) x ∧ p = ⟨x, yOf s, 1, fmul x (yOf s)⟩ := by
  have nonneg : 0 ≤ yOf s := Int.natCast_nonneg _
  have unfolded : pointDecompress s = (recoverX (yOf s) (signOf s)).elim none
      (fun x => some ⟨x, yOf s % prime, 1, fmul x (yOf s % prime)⟩) := by
    rw [pointDecompress]
    simp only [← yOf.eq_1, ← signOf.eq_1]
    cases recoverX (yOf s) (signOf s) <;> rfl
  rw [unfolded]
  cases run : recoverX (yOf s) (signOf s) with
  | none =>
    simp only [Option.elim_none, reduceCtorEq, false_iff, not_exists, not_and]
    intro x recovers
    rw [(recoverX_eq_some_iff _ _ _).mpr recovers] at run
    cases run
  | some x =>
    have recovers := (recoverX_eq_some_iff _ _ _).mp run
    have residue : yOf s % prime = yOf s := Int.emod_eq_of_lt nonneg recovers.canonical
    rw [Option.elim_some, Option.some.injEq, residue]
    constructor
    · intro same
      exact ⟨x, recovers, same.symm⟩
    · rintro ⟨x', recovers', rfl⟩
      rw [recovers.unique recovers']

/-- What is decompressed denotes a point, with the coordinates that were recovered. -/
theorem denotes_decompressed {s : Bytes} {x : Int} (recovers : Recovers (yOf s) (signOf s) x) :
    ∃ a : Edwards.Point curve, Denotes ⟨x, yOf s, 1, fmul x (yOf s)⟩ a ∧ a.x = x ∧ a.y = yOf s := by
  have equation := (modEq_iff _ _).mp recovers.equation
  push_cast at equation
  refine ⟨⟨x, yOf s, ?_⟩, ⟨?_, ?_, ?_, ?_⟩, rfl, rfl⟩
  · rw [curve_d, equation]
  · simp
  · simp
  · simp
  · simp

theorem modpInv_one : modpInv 1 = 1 := by
  have unit : Reduced 1 := by constructor <;> decide
  have reduced : Reduced (modpInv 1) := reduced_pow unit _
  rw [reduced.eq_iff unit, modpInv, cast_inverse, Int.cast_one, inv_one]

/-- Compression of a point with the last coordinate one. -/
theorem pointCompress_affine {x y t : Int} (first : Reduced x) (second : Reduced y) :
    pointCompress ⟨x, y, 1, t⟩ = littleBytes 32 (2 ^ 255 * (x % 2) + y).toNat := by
  have times (e : Int) (reduced : Reduced e) : fmul e 1 = e := by
    rw [fmul, mul_one]
    exact Int.emod_eq_of_lt reduced.1 reduced.2
  simp only [pointCompress, modpInv_one, times x first, times y second]

/-- The value of a compressed point splits into the two coordinates again. -/
theorem compressed_split {x y : Int} (second : Reduced y) :
    yOf (littleBytes 32 (2 ^ 255 * (x % 2) + y).toNat) = y ∧
      signOf (littleBytes 32 (2 ^ 255 * (x % 2) + y).toNat) = decide (x % 2 = 1) := by
  obtain ⟨nonneg, below⟩ := second
  have bound : prime = 2 ^ 255 - 19 := rfl
  have bit := Int.emod_two_eq x
  have width : 2 ^ (8 * 32) = 2 * 2 ^ 255 := by rw [← pow_succ']
  rw [yOf, signOf, littleEndian_littleBytes, width]
  constructor
  · omega
  · rw [decide_eq_decide]
    omega

/-- Compression of what was decompressed gives the string back. -/
theorem pointCompress_decompressed {s : Bytes} (size : s.length = 32) {x : Int}
    (recovers : Recovers (yOf s) (signOf s) x) : pointCompress ⟨x, yOf s, 1, fmul x (yOf s)⟩ = s := by
  have second : Reduced (yOf s) := ⟨Int.natCast_nonneg _, recovers.canonical⟩
  have below := littleEndian_lt s
  have width : 2 ^ (8 * s.length) = 2 * 2 ^ 255 := by rw [size, ← pow_succ']
  -- The parity of the first coordinate is the highest bit.
  have bit : x % 2 = (littleEndian s / 2 ^ 255 : Nat) := by
    have parity := recovers.parity
    rw [signOf, decide_eq_decide] at parity
    omega
  have whole : (2 ^ 255 * (x % 2) + yOf s).toNat = littleEndian s := by
    rw [bit, yOf]
    omega
  rw [pointCompress_affine recovers.reduced second, whole, ← size, littleBytes_littleEndian]

/-- The string of a point of the curve, and the coordinates that are recovered from it. -/
theorem recovers_compressed {p : ExtPoint} {a : Edwards.Point curve} (denotes : Denotes p a) :
    ∃ x, Recovers (yOf (pointCompress p)) (signOf (pointCompress p)) x ∧ (x : ZMod modulus) = a.x ∧
      (yOf (pointCompress p) : ZMod modulus) = a.y := by
  obtain ⟨some, first, second, _⟩ := denotes
  have affineX : (fmul p.x (modpInv p.z) : ZMod modulus) = a.x := by
    rw [cast_fmul, modpInv, cast_inverse, first, mul_inv_cancel_right₀ some]
  have affineY : (fmul p.y (modpInv p.z) : ZMod modulus) = a.y := by
    rw [cast_fmul, modpInv, cast_inverse, second, mul_inv_cancel_right₀ some]
  have bounds := reduced_fmul p.y (modpInv p.z)
  obtain ⟨y, sign⟩ := compressed_split (x := fmul p.x (modpInv p.z)) bounds
  rw [← pointCompress.eq_1] at y sign
  rw [y, sign]
  refine ⟨fmul p.x (modpInv p.z), ⟨bounds.2, reduced_fmul _ _, rfl, ?_⟩, affineX, affineY⟩
  rw [modEq_iff]
  push_cast
  rw [affineX, affineY, a.on_curve, curve_d]

/-- Decompression of a compressed point yields the same point of the curve. -/
theorem pointDecompress_compress {p : ExtPoint} {a : Edwards.Point curve} (denotes : Denotes p a) :
    ∃ p', pointDecompress (pointCompress p) = some p' ∧ Denotes p' a := by
  obtain ⟨x, recovers, first, second⟩ := recovers_compressed denotes
  obtain ⟨a', denotes', first', second'⟩ := denotes_decompressed recovers
  obtain rfl : a' = a := Edwards.Point.ext (first'.trans first) (second'.trans second)
  exact ⟨_, (pointDecompress_eq_some_iff _ _).mpr ⟨x, recovers, rfl⟩, denotes'⟩

/-- A point of the curve has one string, whatever its coordinates. -/
theorem pointCompress_unique {p p' : ExtPoint} {a : Edwards.Point curve} (first : Denotes p a) (second : Denotes p' a) :
    pointCompress p = pointCompress p' := by
  obtain ⟨some, x, y, -⟩ := first
  obtain ⟨some', x', y', -⟩ := second
  have affine {n z n' z' : Int} {c : ZMod modulus} (some : (z : ZMod modulus) ≠ 0) (some' : (z' : ZMod modulus) ≠ 0)
      (value : (n : ZMod modulus) = c * z) (value' : (n' : ZMod modulus) = c * z') :
      fmul n (modpInv z) = fmul n' (modpInv z') := by
    rw [(reduced_fmul _ _).eq_iff (reduced_fmul _ _), cast_fmul, cast_fmul, modpInv, modpInv, cast_inverse,
      cast_inverse, value, value', mul_inv_cancel_right₀ some, mul_inv_cancel_right₀ some']
  simp only [pointCompress]
  rw [affine some some' x x', affine some some' y y']

end HaclStar.Spec.Ed25519
