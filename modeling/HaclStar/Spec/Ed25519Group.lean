import HaclStar.Lib.Edwards
import HaclStar.Spec.Ed25519
import HaclStar.Spec.Field25519

/-! The points of the Ed25519 specification are extended coordinates of points of an Edwards curve, and its
operations are those of the group. -/

namespace HaclStar.Spec.Ed25519

open Primality
open Curve25519 hiding ithBit montgomeryLadder_

/-- The coefficient is not a square. -/
theorem d_nonsquare (r : ZMod modulus) : r ^ 2 ≠ (d : ZMod modulus) := by
  have natural : (d : ZMod modulus) =
      (37095705934669439343138083508754565189542113879843219016388785533085940283555 : Nat) := by
    rw [d]
    norm_cast
  rw [natural]
  exact not_square_of_euler (by decide) (by decide +kernel) r

/-- The power that the specification takes for a square root of minus one. -/
theorem quarter_sq : ((2 : ZMod modulus) ^ (modulus / 4)) ^ 2 = -1 := by
  have power := cast_powMod modulus 2 (modulus / 2)
  have full : powMod modulus 2 (modulus / 2) = modulus - 1 := by decide +kernel
  rw [full, Nat.cast_sub modulus_prime.one_le, ZMod.natCast_self, Nat.cast_one, zero_sub, Nat.cast_ofNat] at power
  have exponent : modulus / 4 * 2 = modulus / 2 := by decide
  rw [← pow_mul, exponent, ← power]

/-- The curve of Ed25519. -/
def curve : Edwards.Curve (ZMod modulus) where
  d := d
  i := 2 ^ (modulus / 4)
  i_sq := quarter_sq
  nonsquare := d_nonsquare
  two_ne_zero := Curve25519.two_ne_zero

theorem curve_d : curve.d = (d : ZMod modulus) := rfl

/-- A point of the specification holds extended coordinates of a point of the curve. -/
def Denotes (p : ExtPoint) (a : Edwards.Point curve) : Prop :=
  Edwards.Represents a (p.x : ZMod modulus) p.y p.z p.t

/-- The equations of extended coordinates, modulo the prime. -/
structure OnCurve (p : ExtPoint) : Prop where
  some : ¬ p.z ≡ 0 [ZMOD prime]
  product : p.x * p.y ≡ p.z * p.t [ZMOD prime]
  equation : -p.x ^ 2 + p.y ^ 2 ≡ p.z ^ 2 + d * p.t ^ 2 [ZMOD prime]

theorem modEq_iff (m n : Int) : m ≡ n [ZMOD prime] ↔ (m : ZMod modulus) = n := by
  rw [prime_eq, ZMod.intCast_eq_intCast_iff]

variable {p q : ExtPoint} {a b : Edwards.Point curve}

/-- The equations hold exactly of the coordinates of points of the curve. -/
theorem onCurve_iff (p : ExtPoint) : OnCurve p ↔ ∃ a, Denotes p a := by
  simp only [Denotes, Edwards.exists_represents]
  constructor
  · rintro ⟨some, product, equation⟩
    rw [modEq_iff] at some product equation
    exact ⟨by simpa using some, by exact_mod_cast product, by simpa [curve_d] using equation⟩
  · rintro ⟨some, product, equation⟩
    refine ⟨?_, ?_, ?_⟩
    · rw [modEq_iff]; simpa using some
    · rw [modEq_iff]; exact_mod_cast product
    · rw [modEq_iff]; simpa [curve_d] using equation

/-- Addition is that of the group. -/
theorem Denotes.add (first : Denotes p a) (second : Denotes q b) : Denotes (pointAdd p q) (a + b) := by
  have sum := Edwards.Represents.add first second rfl rfl rfl rfl rfl rfl rfl rfl
  simpa only [Denotes, pointAdd, curve_d, cast_fmul, cast_fadd, cast_fsub, Int.cast_ofNat] using sum

/-- Doubling adds a point to itself. -/
theorem Denotes.double (first : Denotes p a) : Denotes (pointDouble p) (a + a) := by
  have twice := Edwards.Represents.double first rfl rfl rfl rfl rfl rfl rfl
  simpa only [Denotes, pointDouble, cast_fmul, cast_fadd, cast_fsub, Int.cast_ofNat] using twice

/-- The first accumulator of the ladder holds the neutral element. -/
theorem denotes_zero : Denotes ⟨0, 1, 1, 0⟩ 0 := by
  refine ⟨?_, ?_, ?_, ?_⟩ <;> simp

/-- The test for equality is that of the points. -/
theorem Denotes.pointEqual_iff (first : Denotes p a) (second : Denotes q b) : pointEqual p q = true ↔ a = b := by
  rw [Edwards.Represents.eq_iff first second, pointEqual]
  simp only [(reduced_fmul _ _).eq_iff (reduced_fmul _ _), cast_fmul, ne_eq]
  split
  next different => simp [different]
  next same =>
    rw [not_not] at same
    split
    next different => simp [different]
    next same' => simp [same, not_not.mp same']

/-- The bits of a string are those of the number it encodes. -/
theorem ithBit_eq (k : Endianness.Bytes) (i : Nat) : ithBit k i = Endianness.littleEndian k / 2 ^ i % 2 := by
  rw [← Nat.toNat_testBit, Endianness.littleEndian_testBit, Nat.toNat_testBit, ithBit]

/-- After any number of steps the ladder holds the multiple by the bits so far, and the next multiple. -/
theorem ladder_denotes (k : Endianness.Bytes) (first : Denotes p a) {ctr : Nat} (within : ctr ≤ 8 * k.length) :
    Denotes (montgomeryLadder_ ⟨0, 1, 1, 0⟩ p k ctr).1
      ((Endianness.littleEndian k / 2 ^ (8 * k.length - ctr)) • a) ∧
    Denotes (montgomeryLadder_ ⟨0, 1, 1, 0⟩ p k ctr).2
      ((Endianness.littleEndian k / 2 ^ (8 * k.length - ctr) + 1) • a) := by
  induction ctr with
  | zero =>
    rw [Nat.sub_zero, Nat.div_eq_of_lt (Endianness.littleEndian_lt k), zero_nsmul, zero_add, one_nsmul]
    exact ⟨denotes_zero, first⟩
  | succ ctr ih =>
    obtain ⟨low, high⟩ := ih (by omega)
    have position : 8 * k.length - ctr = 8 * k.length - (ctr + 1) + 1 := by omega
    have more := Endianness.bits_succ (Endianness.littleEndian k) (8 * k.length - (ctr + 1))
    rw [position] at low high
    rw [← ithBit_eq k] at more
    generalize Endianness.littleEndian k / 2 ^ (8 * k.length - (ctr + 1) + 1) = m at *
    rw [montgomeryLadder_]
    generalize montgomeryLadder_ ⟨0, 1, 1, 0⟩ p k ctr = accumulators at *
    obtain ⟨x, xp1⟩ := accumulators
    -- The two multiples change places where the bit is one, before the step and after it.
    by_cases bit : ithBit k (8 * k.length - (ctr + 1)) = 1
    · have odd : 2 * m + 1 = m + 1 + m := by ring
      have even : m + 1 + m + 1 = m + 1 + (m + 1) := by ring
      rw [more, bit, odd, even, add_nsmul a (m + 1) m, add_nsmul a (m + 1) (m + 1)]
      simp only [bit, if_true]
      exact ⟨high.add low, high.double⟩
    · have none : ithBit k (8 * k.length - (ctr + 1)) = 0 := by
        rw [ithBit_eq] at bit ⊢
        omega
      have even : 2 * m + 0 = m + m := by ring
      have odd : m + m + 1 = m + (m + 1) := by ring
      rw [more, none, even, odd, add_nsmul a m m, add_nsmul a m (m + 1)]
      simp only [none, zero_ne_one, if_false]
      exact ⟨low.double, low.add high⟩

/-- The ladder multiplies by the number that a string encodes. -/
theorem pointMul_denotes (k : Endianness.Bytes) (first : Denotes p a) :
    Denotes (pointMul k p) (Endianness.littleEndian k • a) := by
  have all := (ladder_denotes k first le_rfl).1
  rwa [Nat.sub_self, pow_zero, Nat.div_one] at all

end HaclStar.Spec.Ed25519
