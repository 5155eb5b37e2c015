import Mathlib

/-! Numbers as rows of limbs: masks, carries, and the folding of high bits modulo a number. -/

namespace Limbs

/-- The value of a row of limbs of `w` bits, the least significant limb first. -/
abbrev value (w : Nat) (row : List Nat) : Nat := Nat.ofDigits (2 ^ w) row

/-- The value of three limbs. -/
theorem value_three (w x y z : Nat) :
    value w [x, y, z] = x + 2 ^ w * y + 2 ^ (2 * w) * z := by
  simp only [value, Nat.ofDigits_cons, Nat.ofDigits_nil, Nat.mul_zero, Nat.add_zero]
  rw [Nat.two_mul, Nat.pow_add]
  ring

/-- Moving the high bits of a limb to the next one keeps the value. -/
theorem value_carry (w : Nat) (before : List Nat) (x y : Nat) (after : List Nat) :
    value w (before ++ x % 2 ^ w :: (y + x / 2 ^ w) :: after) =
      value w (before ++ x :: y :: after) := by
  -- The limb is its low bits and `2 ^ w` times its high bits.
  have split := Nat.mod_add_div x (2 ^ w)
  have here : value w (x % 2 ^ w :: (y + x / 2 ^ w) :: after) = value w (x :: y :: after) := by
    simp only [value, Nat.ofDigits_cons]
    rw [Nat.mul_add, Nat.mul_add, Nat.mul_add, ← Nat.add_assoc, ← Nat.add_assoc]
    omega
  simp only [value, Nat.ofDigits_append] at here ⊢
  rw [here]

/-- The carries over a row: each limb but the last keeps its low bits, and hands the others on. -/
def ripple (w : Nat) : Nat → List Nat → List Nat
  | _, [] => []
  | c, [x] => [x + c]
  | c, x :: y :: row => (x + c) % 2 ^ w :: ripple w ((x + c) / 2 ^ w) (y :: row)

/-- The carries over a row keep its value. -/
theorem value_ripple (w : Nat) {row : List Nat} (c : Nat) (some : row ≠ []) :
    value w (ripple w c row) = value w row + c := by
  -- Induction on the row: each limb hands its high bits to a row that takes them at its own weight.
  induction row generalizing c with
  | nil => exact absurd rfl some
  | cons x row ih =>
    cases row with
    | nil => simp [ripple, value]
    | cons y row =>
      have split := Nat.mod_add_div (x + c) (2 ^ w)
      have rest := ih ((x + c) / 2 ^ w) (by simp)
      simp only [ripple, value, Nat.ofDigits_cons] at rest ⊢
      rw [rest, Nat.mul_add]
      omega

/-- The carries leave a row alone whose limbs have no high bits. -/
theorem ripple_of_lt (w : Nat) {row : List Nat} (below : ∀ x ∈ row, x < 2 ^ w) :
    ripple w 0 row = row := by
  induction row with
  | nil => rfl
  | cons x row ih =>
    cases row with
    | nil => rfl
    | cons y row =>
      have small : x < 2 ^ w := below x List.mem_cons_self
      rw [ripple, Nat.add_zero, Nat.mod_eq_of_lt small, Nat.div_eq_of_lt small,
        ih fun z more => below z (List.mem_cons_of_mem _ more)]

/-- Where `2 ^ k` units of one weight count as `c` units of weight one, the bits from `k` on may be
folded to the bottom. -/
theorem fold_modEq {p weight k c : Nat} (wraps : weight * 2 ^ k ≡ c [MOD p]) (x : Nat) :
    c * (x / 2 ^ k) + weight * (x % 2 ^ k) ≡ weight * x [MOD p] := by
  calc c * (x / 2 ^ k) + weight * (x % 2 ^ k)
      ≡ weight * 2 ^ k * (x / 2 ^ k) + weight * (x % 2 ^ k) [MOD p] :=
        (wraps.symm.mul_right _).add_right _
    _ = weight * x := by
        rw [Nat.mul_assoc, ← Nat.mul_add, Nat.div_add_mod]

/-- A mask of `k` ones keeps the low `k` bits of a word. -/
theorem toNat_and_mask {x mask : UInt64} (k : Nat) (ones : mask.toNat = 2 ^ k - 1) :
    (x &&& mask).toNat = x.toNat % 2 ^ k := by
  rw [UInt64.toNat_and, ones, Nat.and_two_pow_sub_one_eq_mod]

/-- A mask of `k` ones keeps the low `k` bits of a bit vector. -/
theorem toNat_and_mask' {w : Nat} {x mask : BitVec w} (k : Nat) (ones : mask.toNat = 2 ^ k - 1) :
    (x &&& mask).toNat = x.toNat % 2 ^ k := by
  rw [BitVec.toNat_and, ones, Nat.and_two_pow_sub_one_eq_mod]

/-- Shifting a word down divides. -/
theorem toNat_shiftRight {x s : UInt64} (k : Nat) (amount : s.toNat = k) (small : k < 64) :
    (x >>> s).toNat = x.toNat / 2 ^ k := by
  rw [UInt64.toNat_shiftRight, amount, Nat.mod_eq_of_lt small, Nat.shiftRight_eq_div_pow]

/-- Shifting a word up multiplies, and drops what leaves the word. -/
theorem toNat_shiftLeft {x s : UInt64} (k : Nat) (amount : s.toNat = k) (small : k < 64) :
    (x <<< s).toNat = x.toNat * 2 ^ k % 2 ^ 64 := by
  rw [UInt64.toNat_shiftLeft, amount, Nat.mod_eq_of_lt small, Nat.shiftLeft_eq]

/-- A sum of words that fits is exact. -/
theorem toNat_add {x y : UInt64} (fits : x.toNat + y.toNat < 2 ^ 64) :
    (x + y).toNat = x.toNat + y.toNat := by
  rw [UInt64.toNat_add, Nat.mod_eq_of_lt fits]

/-- A sum of bit vectors that fits is exact. -/
theorem toNat_add' {w : Nat} {x y : BitVec w} (fits : x.toNat + y.toNat < 2 ^ w) :
    (x + y).toNat = x.toNat + y.toNat := by
  rw [BitVec.toNat_add, Nat.mod_eq_of_lt fits]

/-- Bits that do not overlap are joined by addition. -/
theorem mul_or_eq_add {high low k : Nat} (small : low < 2 ^ k) :
    high * 2 ^ k ||| low = high * 2 ^ k + low := by
  rw [Nat.mul_comm, Nat.two_pow_add_eq_or_of_lt small]

/-- Bits above a row of bits are joined to it by addition. -/
theorem or_mul_eq_add {high low k : Nat} (small : low < 2 ^ k) :
    low ||| high * 2 ^ k = low + high * 2 ^ k := by
  rw [Nat.or_comm, mul_or_eq_add small, Nat.add_comm]

end Limbs
