import Mathlib

/-! Primality of large numbers by Lucas' test, and Euler's criterion, both with powers that compute. -/

namespace Primality

/-- A power of a residue by squaring, multiplied to the residue that the lower bits gave. -/
def powModFrom (m : Nat) : Nat → Nat → Nat → Nat → Nat
  | 0, _, _, acc => acc
  | bits + 1, a, e, acc =>
    powModFrom m bits (a * a % m) (e / 2) (if e % 2 = 1 then acc * a % m else acc)

/-- The residue of a power. -/
def powMod (m a e : Nat) : Nat := powModFrom m (e.log2 + 1) a e (1 % m)

/-- Lucas' test: a number whose order is one less than the modulus. -/
def lucas (p a : Nat) (factors : List Nat) : Bool :=
  1 < p && factors.prod == p - 1 && powMod p a (p - 1) == 1 &&
    factors.all fun q => powMod p a ((p - 1) / q) != 1

variable {m a e p : Nat}

/-- Squaring keeps the power that is left congruent. -/
theorem powModFrom_modEq {bits acc : Nat} (fits : e < 2 ^ bits) :
    powModFrom m bits a e acc ≡ acc * a ^ e [MOD m] := by
  -- Induction on the bits: the lowest bit is multiplied, and the rest is a power of the square.
  induction bits generalizing a e acc with
  | zero =>
    rw [show e = 0 by omega, powModFrom, pow_zero, mul_one]
  | succ bits ih =>
    have half : e / 2 < 2 ^ bits := by rw [pow_succ] at fits; omega
    have square : (a * a % m) ^ (e / 2) ≡ a ^ (2 * (e / 2)) [MOD m] := by
      rw [pow_mul, sq]
      exact (Nat.mod_modEq _ _).pow _
    refine (ih half).trans ?_
    by_cases odd : e % 2 = 1
    · rw [if_pos odd]
      calc acc * a % m * (a * a % m) ^ (e / 2)
          ≡ acc * a * a ^ (2 * (e / 2)) [MOD m] := (Nat.mod_modEq _ _).mul square
        _ = acc * a ^ e := by
          rw [mul_assoc, ← pow_succ']
          congr 2
          omega
    · rw [if_neg odd, show e = 2 * (e / 2) by omega, Nat.mul_div_cancel_left _ two_pos]
      exact (Nat.ModEq.refl acc).mul square

/-- The residue of a power is that of the power. -/
theorem powMod_modEq (m a e : Nat) : powMod m a e ≡ a ^ e [MOD m] := by
  have power : powMod m a e ≡ 1 % m * a ^ e [MOD m] := powModFrom_modEq (Nat.lt_log2_self (n := e))
  have one : 1 % m * a ^ e ≡ 1 * a ^ e [MOD m] := (Nat.mod_modEq 1 m).mul_right _
  rw [one_mul] at one
  exact power.trans one

/-- As an integer modulo `m` the residue is the power. -/
theorem cast_powMod (m a e : Nat) : (powMod m a e : ZMod m) = (a : ZMod m) ^ e := by
  rw [← Nat.cast_pow, ZMod.natCast_eq_natCast_iff]
  exact powMod_modEq m a e

/-- Residues below the modulus. -/
theorem powModFrom_lt {bits acc : Nat} (below : acc < m) : powModFrom m bits a e acc < m := by
  induction bits generalizing a e acc with
  | zero => exact below
  | succ bits ih =>
    apply ih
    split
    · exact Nat.mod_lt _ (by omega)
    · exact below

theorem powMod_lt (positive : 0 < m) (a e : Nat) : powMod m a e < m :=
  powModFrom_lt (Nat.mod_lt 1 positive)

/-- A number that passes Lucas' test with prime factors is prime. -/
theorem prime_of_lucas (a : Nat) (small large : List Nat) (smallPrimes : ∀ q ∈ small, q.Prime)
    (largePrimes : ∀ q ∈ large, q.Prime) (passed : lucas p a (small ++ large) = true) : p.Prime := by
  have primes : ∀ q ∈ small ++ large, q.Prime := List.forall_mem_append.mpr ⟨smallPrimes, largePrimes⟩
  simp only [lucas, Bool.and_eq_true, decide_eq_true_eq, beq_iff_eq, List.all_eq_true, bne_iff_ne] at passed
  obtain ⟨⟨⟨large, product⟩, full⟩, proper⟩ := passed
  refine lucas_primality p a ?_ ?_
  · rw [← cast_powMod, full, Nat.cast_one]
  · intro q prime divides
    -- A prime that divides the product is one of the factors.
    rw [← product] at divides
    obtain ⟨factor, member, divides⟩ := (Prime.dvd_prod_iff prime.prime).mp divides
    rw [(Nat.prime_dvd_prime_iff_eq prime (primes factor member)).mp divides, ← cast_powMod]
    intro same
    have residue : powMod p a ((p - 1) / factor) ≡ 1 [MOD p] :=
      (ZMod.natCast_eq_natCast_iff _ _ _).mp (by rw [same, Nat.cast_one])
    exact proper factor member (residue.eq_of_lt_of_lt (powMod_lt (by omega) a _) large)

/-- A number whose power to half the order is minus one is no square. -/
theorem not_square_of_euler [Fact p.Prime] (odd : p ≠ 2) (euler : powMod p a (p / 2) = p - 1)
    (r : ZMod p) : r ^ 2 ≠ a := by
  intro square
  have prime := Fact.out (p := p.Prime)
  have power := cast_powMod p a (p / 2)
  rw [euler, Nat.cast_sub prime.one_le, ZMod.natCast_self, Nat.cast_one, zero_sub] at power
  have some : (a : ZMod p) ≠ 0 := by
    intro zero
    rw [zero, zero_pow (Nat.div_pos prime.two_le two_pos).ne'] at power
    exact one_ne_zero (neg_eq_zero.mp power)
  -- A square has a power of one instead.
  have one := (ZMod.euler_criterion p some).mp ⟨r, by rw [← square, sq]⟩
  rw [one] at power
  have two : (2 : ZMod p) = 0 := by linear_combination -power
  have divides : p ∣ 2 := (ZMod.natCast_eq_zero_iff 2 p).mp (by exact_mod_cast two)
  exact odd ((Nat.prime_dvd_prime_iff_eq prime Nat.prime_two).mp divides)

end Primality
