import Mathlib

/-! Barrett reduction with a truncated quotient: the low part of a number is dropped before it is multiplied by the
reciprocal, the remainder is formed modulo a power only, and one conditional subtraction is left to do. -/

namespace Barrett

/-- A modulus, what is dropped from a number before its multiplication, and what is dropped from the product. -/
structure Params where
  modulus : Nat
  low : Nat
  high : Nat
  low_pos : 0 < low
  high_pos : 0 < high
  /-- What is dropped first and what the reciprocal loses are one modulus at most. -/
  close : low + low * high % modulus ≤ modulus
  /-- A remainder that is one modulus too large can be told from a negative one. -/
  room : 2 * modulus ≤ high

namespace Params

variable (p : Params) {x : Nat}

/-- The reciprocal of the modulus, scaled up. -/
def reciprocal : Nat := p.low * p.high / p.modulus

/-- The estimate of a quotient. -/
def estimate (x : Nat) : Nat := x / p.low * p.reciprocal / p.high

/-- The difference of two numbers below a bound, which wraps around below zero. -/
def wrappedSub (bound r s : Nat) : Nat := if r < s then bound + r - s else r - s

/-- The remainder that the estimate leaves, from the low parts of both sides. -/
def remainder (x : Nat) : Nat := wrappedSub p.high (x % p.high) (p.estimate x * p.modulus % p.high)

/-- One conditional subtraction. -/
def reduceOnce (r : Nat) : Nat := if p.modulus ≤ r then r - p.modulus else r

theorem modulus_pos : 0 < p.modulus := by
  -- Something is dropped, and it fits into the modulus.
  have low := p.low_pos
  have close := p.close
  omega

/-- The reciprocal never exceeds what it stands for. -/
theorem modulus_mul_reciprocal : p.modulus * p.reciprocal + p.low * p.high % p.modulus = p.low * p.high :=
  Nat.div_add_mod (p.low * p.high) p.modulus

/-- The estimate is not too large. -/
theorem estimate_mul_le (x : Nat) : p.estimate x * p.modulus ≤ x := by
  have scaled := p.modulus_mul_reciprocal
  -- Each of the three divisions rounds down.
  have first : x / p.low * p.low ≤ x := Nat.div_mul_le_self x p.low
  have second : p.modulus * p.reciprocal ≤ p.low * p.high := by omega
  have third : p.estimate x * p.high ≤ x / p.low * p.reciprocal := Nat.div_mul_le_self _ _
  refine Nat.le_of_mul_le_mul_right (c := p.high) ?_ p.high_pos
  calc p.estimate x * p.modulus * p.high
      = p.estimate x * p.high * p.modulus := by ring
    _ ≤ x / p.low * p.reciprocal * p.modulus := Nat.mul_le_mul_right _ third
    _ = x / p.low * (p.modulus * p.reciprocal) := by ring
    _ ≤ x / p.low * (p.low * p.high) := Nat.mul_le_mul_left _ second
    _ = x / p.low * p.low * p.high := by ring
    _ ≤ x * p.high := Nat.mul_le_mul_right _ first

/-- The estimate is one too small at most. -/
theorem lt_estimate_mul (small : x < p.low * p.high) : x < (p.estimate x + 2) * p.modulus := by
  have scaled := p.modulus_mul_reciprocal
  have close := p.close
  have positive := p.modulus_pos
  -- What each of the divisions drops is less than its divisor.
  have dropped : x < x / p.low * p.low + p.low := Nat.lt_div_mul_add p.low_pos
  have dropped' : x / p.low * p.reciprocal < p.estimate x * p.high + p.high := Nat.lt_div_mul_add p.high_pos
  have short : x / p.low < p.high := Nat.div_lt_of_lt_mul small
  generalize p.low * p.high % p.modulus = lost at scaled close
  generalize p.estimate x = e at *
  generalize x / p.low = high at *
  -- The sides are compared at the scale of the product.
  refine Nat.lt_of_mul_lt_mul_right (a := p.high) ?_
  calc x * p.high
      < (high * p.low + p.low) * p.high := Nat.mul_lt_mul_of_pos_right dropped p.high_pos
    _ = high * (p.low * p.high) + p.low * p.high := by ring
    _ = high * p.reciprocal * p.modulus + high * lost + p.low * p.high := by
        rw [← scaled]
        ring
    _ ≤ (e * p.high + p.high) * p.modulus + p.high * lost + p.low * p.high := by
        have product := Nat.mul_le_mul_right p.modulus dropped'.le
        have rest := Nat.mul_le_mul_right lost short.le
        omega
    _ = (e + 1) * p.modulus * p.high + (p.low + lost) * p.high := by ring
    _ ≤ (e + 1) * p.modulus * p.high + p.modulus * p.high :=
        Nat.add_le_add_left (Nat.mul_le_mul_right _ close) _
    _ = (e + 2) * p.modulus * p.high := by ring

/-- The difference of the low parts is the difference of the numbers, when that is small. -/
theorem wrappedSub_mod {bound m n : Nat} (le : n ≤ m) (small : m < n + bound) :
    wrappedSub bound (m % bound) (n % bound) = m - n := by
  have positive : 0 < bound := by omega
  have parts := Nat.mod_add_div m bound
  have parts' := Nat.mod_add_div n bound
  have low := Nat.mod_lt m positive
  have low' := Nat.mod_lt n positive
  -- The quotients are the same, or one apart.
  have least : n / bound ≤ m / bound := Nat.div_le_div_right le
  have most : m / bound ≤ n / bound + 1 := by
    have far := Nat.div_le_div_right (c := bound) small.le
    rwa [Nat.add_div_right _ positive] at far
  rw [wrappedSub]
  rcases Nat.lt_or_ge (n / bound) (m / bound) with apart | same
  · have next : m / bound = n / bound + 1 := by omega
    rw [next, Nat.mul_add, Nat.mul_one] at parts
    split_ifs <;> omega
  · have equal : m / bound = n / bound := by omega
    rw [equal] at parts
    split_ifs <;> omega

/-- The remainder is what the estimate leaves of the number. -/
theorem remainder_eq (small : x < p.low * p.high) : p.remainder x = x - p.estimate x * p.modulus := by
  have room := p.room
  have most := p.lt_estimate_mul small
  rw [Nat.add_mul] at most
  exact wrappedSub_mod (p.estimate_mul_le x) (by omega)

/-- The remainder is less than twice the modulus. -/
theorem remainder_lt (small : x < p.low * p.high) : p.remainder x < 2 * p.modulus := by
  have least := p.estimate_mul_le x
  have most := p.lt_estimate_mul small
  rw [Nat.add_mul] at most
  rw [p.remainder_eq small]
  omega

/-- A number below twice the modulus is reduced by one conditional subtraction. -/
theorem reduceOnce_eq {r : Nat} (small : r < 2 * p.modulus) : p.reduceOnce r = r % p.modulus := by
  rw [reduceOnce]
  split_ifs with above
  · rw [Nat.mod_eq_sub_mod above, Nat.mod_eq_of_lt (by omega)]
  · rw [Nat.mod_eq_of_lt (Nat.lt_of_not_le above)]

/-- The reduction yields the residue. -/
theorem reduceOnce_remainder (small : x < p.low * p.high) : p.reduceOnce (p.remainder x) = x % p.modulus := by
  have least := p.estimate_mul_le x
  rw [p.reduceOnce_eq (p.remainder_lt small), p.remainder_eq small, Nat.mul_comm]
  -- Multiples of the modulus do not change the residue.
  have parts : x = x - p.modulus * p.estimate x + p.modulus * p.estimate x := by
    rw [Nat.mul_comm]
    omega
  conv_rhs => rw [parts, Nat.add_mul_mod_self_left]

end Params

end Barrett
