import Mathlib

/-! Arithmetic modulo 2^127 - 1 on single 128-bit words, as the prototype of the Kummer surface computes it.

Each result is folded by a shift whose count is 127 plus the low bits of the number, since the addition binds more
tightly than the shift; a shift by more than 127 has no result. -/

namespace HaclStar.Impl.Kummer

/-- A field element in one word. -/
abbrev Gfe := BitVec 128

def c127m1 : Gfe := (1#128 <<< 127) - 1#128

def c64m1 : Gfe := (1#128 <<< 64) - 1#128

def c63m1 : Gfe := (1#128 <<< 63) - 1#128

/-- Shift by a count that must be below the width of the word. -/
def shiftRight (x count : Gfe) : Option Gfe := if count.toNat < 128 then some (x >>> count.toNat) else none

/-- The fold at the end of all operations but the sum. -/
def fold (rr : Gfe) : Option Gfe := shiftRight rr (127#128 + (rr &&& c127m1))

def gfeAdd (x y : Gfe) : Gfe :=
  let rr := x + y
  (rr >>> 127) + (rr &&& c127m1)

def gfeSub (x y : Gfe) : Option Gfe :=
  let rr := x + c127m1 - y
  fold rr

/-- Multiply: the halves of the second factor are taken from the first one. -/
def gfeMul (a _b : Gfe) : Option Gfe :=
  let a0 : BitVec 64 := a.setWidth 64
  let a1 : BitVec 64 := (a >>> 64).setWidth 64
  let b0 : BitVec 64 := a.setWidth 64
  let b1 : BitVec 64 := (a >>> 64).setWidth 64
  let a0b0 : Gfe := a0.setWidth 128 * b0.setWidth 128
  let a0b1 : Gfe := a0.setWidth 128 * b1.setWidth 128
  let a1b0 : Gfe := a1.setWidth 128 * b0.setWidth 128
  let a1b1 : Gfe := a1.setWidth 128 * b1.setWidth 128
  let r1 := a0b1 + a1b0
  let r1 := r1 + a0b0 >>> 64
  let r2 := (a1b1 <<< 1) + (r1 >>> 63)
  let r0 := (a0b0 &&& c64m1) ||| ((r1 &&& c63m1) <<< 64)
  let r0 := r0 + r2
  fold r0

def gfeSquare (a : Gfe) : Option Gfe :=
  let a0 : BitVec 64 := a.setWidth 64
  let a1 : BitVec 64 := (a >>> 64).setWidth 64
  let a0a0 : Gfe := a0.setWidth 128 * a0.setWidth 128
  let a0a1 : Gfe := a0.setWidth 128 * a1.setWidth 128
  let a1a1 : Gfe := a1.setWidth 128 * a1.setWidth 128
  let r1 := a0a1 <<< 1
  let r1 := r1 + a0a0 >>> 64
  let r2 := (a1a1 <<< 1) + (r1 >>> 63)
  let r0 := (a0a0 &&& c64m1) ||| ((r1 &&& c63m1) <<< 64)
  let r0 := r0 + r2
  fold r0

/-- Square in place, as often as a loop has turns. -/
def squareTimes : Nat → Gfe → Option Gfe
  | 0, t => some t
  | n + 1, t => do
    let t ← gfeSquare t
    squareTimes n t

/-- Raise to the power of an inverse. -/
def gfeInvert (x : Gfe) : Option Gfe := do
  let x2 ← gfeSquare x
  let x3 ← gfeMul x2 x
  let x6 ← gfeSquare x3
  let x12 ← gfeSquare x6
  let x15 ← gfeMul x12 x3
  let x30 ← gfeSquare x15
  let x5_0 ← gfeMul x30 x
  let t ← gfeSquare x5_0
  let t ← squareTimes 4 t
  let x10_0 ← gfeMul t x5_0
  let t ← gfeSquare x10_0
  let t ← squareTimes 9 t
  let x20_0 ← gfeMul t x10_0
  let t ← gfeSquare x20_0
  let t ← squareTimes 19 t
  let x40_0 ← gfeMul t x20_0
  let t ← gfeSquare x40_0
  let t ← squareTimes 39 t
  let x80_0 ← gfeMul t x40_0
  let t ← gfeSquare x80_0
  let t ← squareTimes 39 t
  let x120_0 ← gfeMul t x40_0
  let t ← gfeSquare x120_0
  let t ← squareTimes 4 t
  let x125_0 ← gfeMul t x5_0
  let t ← gfeSquare x125_0
  let t ← gfeSquare t
  gfeMul t x

/-- The number that a square folds. -/
def squareSum (a : Gfe) : Gfe :=
  let a0 : Gfe := (a.setWidth 64).setWidth 128
  let a1 : Gfe := ((a >>> 64).setWidth 64).setWidth 128
  let r1 := (a0 * a1) <<< 1 + (a0 * a0) >>> 64
  ((a0 * a0 &&& c64m1) ||| ((r1 &&& c63m1) <<< 64)) + ((a1 * a1) <<< 1 + r1 >>> 63)

theorem gfeSquare_eq (a : Gfe) : gfeSquare a = fold (squareSum a) := rfl

/-- A product folds the square of its first factor. -/
theorem gfeMul_eq (a b : Gfe) : gfeMul a b = fold (squareSum a) := by
  have twice (x y : Gfe) : x * y + y * x = (x * y) <<< 1 := by
    apply BitVec.eq_of_toNat_eq
    rw [BitVec.mul_comm y x, BitVec.toNat_add, BitVec.toNat_shiftLeft, Nat.shiftLeft_eq]
    omega
  rw [squareSum, ← twice]
  rfl

/-- The low bits of a word. -/
theorem toNat_low (x : Gfe) : (x &&& c127m1).toNat = x.toNat % 2 ^ 127 := by
  have mask : c127m1.toNat = 2 ^ 127 - 1 := by decide
  rw [BitVec.toNat_and, mask, Nat.and_two_pow_sub_one_eq_mod]

/-- A number is folded only when its low bits are zeros, and the result is its high bit. -/
theorem fold_eq_some {rr r : Gfe} :
    fold rr = some r ↔ rr.toNat = 0 ∧ r.toNat = 0 ∨ rr.toNat = 2 ^ 127 ∧ r.toNat = 1 := by
  have below := rr.isLt
  have count : (127#128 + (rr &&& c127m1)).toNat = 127 + rr.toNat % 2 ^ 127 := by
    rw [BitVec.toNat_add, toNat_low, BitVec.toNat_ofNat]
    omega
  rw [fold, shiftRight, count]
  constructor
  · intro defined
    have small : 127 + rr.toNat % 2 ^ 127 < 128 := by
      by_contra large
      rw [if_neg large] at defined
      exact absurd defined (by simp)
    rw [if_pos small, Option.some_inj] at defined
    have result : r.toNat = rr.toNat / 2 ^ (127 + rr.toNat % 2 ^ 127) := by
      rw [← defined, BitVec.toNat_ushiftRight, Nat.shiftRight_eq_div_pow]
    have low : rr.toNat % 2 ^ 127 = 0 := by omega
    rw [low] at result
    omega
  · intro values
    have low : rr.toNat % 2 ^ 127 = 0 := by omega
    rw [low, if_pos (by decide), Option.some_inj]
    apply BitVec.eq_of_toNat_eq
    rw [BitVec.toNat_ushiftRight, Nat.shiftRight_eq_div_pow]
    omega

/-- The words that a square adds, and the carries that are lost: out of the middle word, out of the high word, and out
of the sum of both. -/
theorem carries_modEq {p00 p01 p11 : Nat} (bound00 : p00 ≤ (2 ^ 64 - 1) * (2 ^ 64 - 1))
    (bound01 : p01 ≤ (2 ^ 64 - 1) * (2 ^ 64 - 1)) (bound11 : p11 ≤ (2 ^ 64 - 1) * (2 ^ 64 - 1)) :
    ∃ c1 ≤ 1, ∃ c2 ≤ 2, p00 + 2 ^ 65 * p01 + 2 ^ 128 * p11 ≡
      (p00 % 2 ^ 64 + 2 ^ 64 * ((2 * p01 + p00 / 2 ^ 64) % 2 ^ 128 % 2 ^ 63) +
        (2 * p11 + (2 * p01 + p00 / 2 ^ 64) % 2 ^ 128 / 2 ^ 63) % 2 ^ 128) % 2 ^ 128 + 2 * c2 + 2 ^ 65 * c1
      [MOD 2 ^ 127 - 1] := by
  have split00 := Nat.mod_add_div p00 (2 ^ 64)
  have split1 := Nat.mod_add_div (2 * p01 + p00 / 2 ^ 64) (2 ^ 128)
  generalize lost1 : (2 * p01 + p00 / 2 ^ 64) / 2 ^ 128 = c1 at *
  have most1 : c1 ≤ 1 := by omega
  have low1 := Nat.mod_lt (2 * p01 + p00 / 2 ^ 64) (show 2 ^ 128 > 0 by decide)
  generalize (2 * p01 + p00 / 2 ^ 64) % 2 ^ 128 = r1 at *
  have split2 := Nat.mod_add_div r1 (2 ^ 63)
  have split3 := Nat.mod_add_div (2 * p11 + r1 / 2 ^ 63) (2 ^ 128)
  generalize lost2 : (2 * p11 + r1 / 2 ^ 63) / 2 ^ 128 = c2 at *
  have most2 : c2 ≤ 1 := by omega
  have low2 := Nat.mod_lt (2 * p11 + r1 / 2 ^ 63) (show 2 ^ 128 > 0 by decide)
  generalize (2 * p11 + r1 / 2 ^ 63) % 2 ^ 128 = r2 at *
  have low0 : p00 % 2 ^ 64 + 2 ^ 64 * (r1 % 2 ^ 63) < 2 ^ 127 := by omega
  generalize bottom : p00 % 2 ^ 64 + 2 ^ 64 * (r1 % 2 ^ 63) = r0 at *
  have split4 := Nat.mod_add_div (r0 + r2) (2 ^ 128)
  generalize lost3 : (r0 + r2) / 2 ^ 128 = c3 at *
  have most3 : c3 ≤ 1 := by omega
  generalize (r0 + r2) % 2 ^ 128 = s at *
  clear lost1 lost2 lost3 low0 low1 low2
  refine ⟨c1, most1, c2 + c3, by omega, ?_⟩
  -- What is left over is a multiple of the modulus.
  have total : p00 + 2 ^ 65 * p01 + 2 ^ 128 * p11 = s + 2 * (c2 + c3) + 2 ^ 65 * c1 +
      (2 ^ 127 - 1) * (r1 / 2 ^ 63 + 2 * p11 + 2 ^ 65 * c1 + 2 * (c2 + c3)) := by
    omega
  rw [total]
  exact Nat.add_mul_mod_self_left _ _ _

/-- The number that is folded is the square, up to what the carries out of the word are worth. -/
theorem squareSum_modEq (a : Gfe) : ∃ c1 ≤ 1, ∃ c2 ≤ 2,
    a.toNat ^ 2 ≡ (squareSum a).toNat + 2 * c2 + 2 ^ 65 * c1 [MOD 2 ^ 127 - 1] := by
  have low : ((a.setWidth 64).setWidth 128 : Gfe).toNat = a.toNat % 2 ^ 64 := by
    rw [BitVec.toNat_setWidth, BitVec.toNat_setWidth]
    omega
  have high : (((a >>> 64).setWidth 64).setWidth 128 : Gfe).toNat = a.toNat / 2 ^ 64 := by
    have below := a.isLt
    rw [BitVec.toNat_setWidth, BitVec.toNat_setWidth, BitVec.toNat_ushiftRight, Nat.shiftRight_eq_div_pow]
    omega
  rw [squareSum]
  generalize (a.setWidth 64).setWidth 128 = a0 at low
  generalize ((a >>> 64).setWidth 64).setWidth 128 = a1 at high
  have below := a.isLt
  have small0 : a0.toNat ≤ 2 ^ 64 - 1 := by omega
  have small1 : a1.toNat ≤ 2 ^ 64 - 1 := by omega
  have halves : a.toNat = a0.toNat + 2 ^ 64 * a1.toNat := by omega
  have square : a.toNat ^ 2 = a0.toNat * a0.toNat + 2 ^ 65 * (a0.toNat * a1.toNat) +
      2 ^ 128 * (a1.toNat * a1.toNat) := by
    rw [halves]
    ring
  have product {x y : Gfe} (first : x.toNat ≤ 2 ^ 64 - 1) (second : y.toNat ≤ 2 ^ 64 - 1) :
      (x * y).toNat = x.toNat * y.toNat ∧ x.toNat * y.toNat ≤ (2 ^ 64 - 1) * (2 ^ 64 - 1) := by
    have bound := Nat.mul_le_mul first second
    refine ⟨?_, bound⟩
    rw [BitVec.toNat_mul, Nat.mod_eq_of_lt]
    exact bound.trans_lt (by decide)
  obtain ⟨value00, bound00⟩ := product small0 small0
  obtain ⟨value01, bound01⟩ := product small0 small1
  obtain ⟨value11, bound11⟩ := product small1 small1
  rw [← value00, ← value01, ← value11] at square
  rw [← value00] at bound00
  rw [← value01] at bound01
  rw [← value11] at bound11
  generalize a0 * a0 = p00 at *
  generalize a0 * a1 = p01 at *
  generalize a1 * a1 = p11 at *
  have middle : (p01 <<< 1 + p00 >>> 64).toNat = (2 * p01.toNat + p00.toNat / 2 ^ 64) % 2 ^ 128 := by
    rw [BitVec.toNat_add, BitVec.toNat_shiftLeft, Nat.shiftLeft_eq, BitVec.toNat_ushiftRight,
      Nat.shiftRight_eq_div_pow, Nat.mul_comm _ (2 ^ 1), Nat.mod_add_mod]
  generalize p01 <<< 1 + p00 >>> 64 = r1 at *
  have top : (p11 <<< 1 + r1 >>> 63).toNat = (2 * p11.toNat + r1.toNat / 2 ^ 63) % 2 ^ 128 := by
    rw [BitVec.toNat_add, BitVec.toNat_shiftLeft, Nat.shiftLeft_eq, BitVec.toNat_ushiftRight,
      Nat.shiftRight_eq_div_pow, Nat.mul_comm _ (2 ^ 1), Nat.mod_add_mod]
  generalize p11 <<< 1 + r1 >>> 63 = r2 at *
  have bottom : (p00 &&& c64m1 ||| (r1 &&& c63m1) <<< 64).toNat = p00.toNat % 2 ^ 64 + 2 ^ 64 * (r1.toNat % 2 ^ 63) := by
    have mask64 : c64m1.toNat = 2 ^ 64 - 1 := by decide
    have mask63 : c63m1.toNat = 2 ^ 63 - 1 := by decide
    rw [BitVec.toNat_or, BitVec.toNat_and, BitVec.toNat_shiftLeft, BitVec.toNat_and, mask64, mask63,
      Nat.and_two_pow_sub_one_eq_mod, Nat.and_two_pow_sub_one_eq_mod, Nat.shiftLeft_eq,
      Nat.mod_eq_of_lt (show r1.toNat % 2 ^ 63 * 2 ^ 64 < 2 ^ 128 by omega), Nat.or_comm, Nat.mul_comm,
      ← Nat.two_pow_add_eq_or_of_lt (Nat.mod_lt _ (by decide)), Nat.add_comm]
  generalize p00 &&& c64m1 ||| (r1 &&& c63m1) <<< 64 = r0 at *
  rw [BitVec.toNat_add, square, bottom, top, middle]
  exact carries_modEq bound00 bound01 bound11

end HaclStar.Impl.Kummer
