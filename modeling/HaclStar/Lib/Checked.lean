import Mathlib

/-! Arithmetic of words that fails where the result of the naturals does not fit. -/

namespace Checked

variable {w n : Nat}

/-- Add, and fail on an overflow. -/
def add (x y : BitVec w) : Option (BitVec w) := if x.toNat + y.toNat < 2 ^ w then some (x + y) else none

/-- Subtract, and fail below zero. -/
def sub (x y : BitVec w) : Option (BitVec w) := if y.toNat ≤ x.toNat then some (x - y) else none

/-- Multiply, and fail on an overflow. -/
def mul (x y : BitVec w) : Option (BitVec w) := if x.toNat * y.toNat < 2 ^ w then some (x * y) else none

/-- Add the words of a list one after another, and fail on an overflow. -/
def sum (x : BitVec w) (ys : List (BitVec w)) : Option (BitVec w) := ys.foldlM add x

/-- The sum of the words of a list as naturals. -/
def total : List (BitVec w) → Nat
  | [] => 0
  | y :: ys => y.toNat + total ys

/-- Cast to another width, and fail when bits are lost. -/
def cast (n : Nat) (x : BitVec w) : Option (BitVec n) := if x.toNat < 2 ^ n then some (x.setWidth n) else none

/-- A run of two steps that both succeed. -/
theorem bind_run {α β : Type} {x : Option α} {f : α → Option β} {a : α} {b : β} (first : x = some a)
    (rest : f a = some b) : (x >>= f) = some b := by
  rw [first]
  exact rest

theorem add_eq {x y : BitVec w} (fits : x.toNat + y.toNat < 2 ^ w) : add x y = some (x + y) := if_pos fits

theorem sub_eq {x y : BitVec w} (le : y.toNat ≤ x.toNat) : sub x y = some (x - y) := if_pos le

theorem mul_eq {x y : BitVec w} (fits : x.toNat * y.toNat < 2 ^ w) : mul x y = some (x * y) := if_pos fits

theorem sum_spec {x : BitVec w} {l : List (BitVec w)} (fits : x.toNat + total l < 2 ^ w) :
    ∃ z, sum x l = some z ∧ z.toNat = x.toNat + total l := by
  -- Induction on the words that are left: the next one is added to those before it.
  induction l generalizing x with
  | nil => exact ⟨x, rfl, rfl⟩
  | cons y ys ih =>
    rw [total, ← Nat.add_assoc] at fits ⊢
    have first : add x y = some (x + y) := add_eq (by omega)
    have value : (x + y).toNat = x.toNat + y.toNat := by
      rw [BitVec.toNat_add, Nat.mod_eq_of_lt (by omega)]
    rw [← value] at fits ⊢
    obtain ⟨z, rest, all⟩ := ih fits
    refine ⟨z, ?_, all⟩
    rw [sum, List.foldlM_cons, first]
    exact rest

theorem cast_eq {x : BitVec w} (fits : x.toNat < 2 ^ n) : cast n x = some (x.setWidth n) := if_pos fits

end Checked
