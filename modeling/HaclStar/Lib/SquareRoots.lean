import Mathlib

/-! Square roots modulo a prime that is five modulo eight, and the choice between the two roots of a square by
the parity of their residues. -/

namespace SquareRoots

variable {p : Nat} [Fact p.Prime]

/-- The candidate for a square root: a power, times a root of minus one where its square has the wrong sign. -/
def candidate (i b : ZMod p) : ZMod p :=
  if b ^ ((p + 3) / 8) * b ^ ((p + 3) / 8) = b then b ^ ((p + 3) / 8) else b ^ ((p + 3) / 8) * i

/-- The power squares to the element or to its opposite, where the element is a square. -/
theorem power_sq (residue : p % 8 = 5) {b : ZMod p} (square : IsSquare b) :
    b ^ ((p + 3) / 8) * b ^ ((p + 3) / 8) = b ∨ b ^ ((p + 3) / 8) * b ^ ((p + 3) / 8) = -b := by
  by_cases zero : b = 0
  · left
    rw [zero, zero_pow (by omega), mul_zero]
  · -- The square is the element times a square root of one.
    have euler := (ZMod.euler_criterion p zero).mp square
    have exponent : (p + 3) / 8 + (p + 3) / 8 = p / 4 + 1 := by omega
    have half : p / 4 + p / 4 = p / 2 := by omega
    have unit : b ^ (p / 4) * b ^ (p / 4) = 1 := by rw [← pow_add, half, euler]
    rw [← pow_add, exponent, pow_succ]
    rcases mul_self_eq_one_iff.mp unit with one | minus
    · left
      rw [one, one_mul]
    · right
      rw [minus, neg_one_mul]

/-- The candidate is a root exactly of the squares. -/
theorem candidate_sq_iff (residue : p % 8 = 5) {i : ZMod p} (root : i ^ 2 = -1) (b : ZMod p) :
    candidate i b * candidate i b = b ↔ IsSquare b := by
  constructor
  · intro same
    exact ⟨candidate i b, same.symm⟩
  · intro square
    rw [candidate]
    split
    next first => exact first
    next other =>
      -- The power has the opposite for its square, and the factor turns the sign.
      have opposite := (power_sq residue square).resolve_left other
      calc b ^ ((p + 3) / 8) * i * (b ^ ((p + 3) / 8) * i)
          = b ^ ((p + 3) / 8) * b ^ ((p + 3) / 8) * i ^ 2 := by ring
        _ = b := by rw [opposite, root]; ring

/-- Residues with one square and one parity are equal. -/
theorem residue_unique (odd : p % 2 = 1) {e1 e2 : Int} (first : 0 ≤ e1 ∧ e1 < p) (second : 0 ≤ e2 ∧ e2 < p)
    (square : (e1 : ZMod p) * e1 = (e2 : ZMod p) * e2) (parity : e1 % 2 = e2 % 2) : e1 = e2 := by
  obtain ⟨first_pos, first_lt⟩ := first
  obtain ⟨second_pos, second_lt⟩ := second
  rcases mul_self_eq_mul_self_iff.mp square with same | opposite
  · have residues := (ZMod.intCast_eq_intCast_iff e1 e2 p).mp same
    rwa [Int.ModEq, Int.emod_eq_of_lt first_pos first_lt, Int.emod_eq_of_lt second_pos second_lt] at residues
  · -- Opposite residues add up to the modulus or are both zero, and the modulus is odd.
    rw [eq_neg_iff_add_eq_zero, ← Int.cast_add, ZMod.intCast_zmod_eq_zero_iff_dvd] at opposite
    obtain ⟨k, sum⟩ := opposite
    have few : k < 2 := by
      by_contra many
      have least : (p : Int) * 2 ≤ p * k := by
        have nonneg : (0 : Int) ≤ p := Int.natCast_nonneg p
        exact mul_le_mul_of_nonneg_left (by omega) nonneg
      omega
    have natural : 0 ≤ k := by
      by_contra negative
      have most : (p : Int) * k ≤ p * (-1) := by
        have nonneg : (0 : Int) ≤ p := Int.natCast_nonneg p
        exact mul_le_mul_of_nonneg_left (by omega) nonneg
      omega
    have cases : k = 0 ∨ k = 1 := by omega
    rcases cases with rfl | rfl <;> omega

end SquareRoots
