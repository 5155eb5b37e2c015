import HaclStar.Impl.FiveLimbs

/-! The canonical form of a field element of five limbs: carries that bring the limbs in range, and the
subtraction of the modulus. -/

namespace HaclStar.Impl.FiveLimbs

open Limbs

variable {w : Nat}

/-- Subtract the modulus, given by its lowest limb and its other ones, from an element not below it. -/
def subtractPrime (low high : BitVec w) (a : Felem w) : Felem w :=
  let mask := gteMask (a.get limb0) low &&& eqMask (a.get limb1) high &&& eqMask (a.get limb2) high &&&
    eqMask (a.get limb3) high &&& eqMask (a.get limb4) high
  upd5 (a.get limb0 - (low &&& mask)) (a.get limb1 - (high &&& mask)) (a.get limb2 - (high &&& mask))
    (a.get limb3 - (high &&& mask)) (a.get limb4 - (high &&& mask))

/-- The subtraction, for the mask that the comparisons give. -/
theorem subtractPrime_upd5 {low high a0 a1 a2 a3 a4 mask : BitVec w}
    (masks : gteMask a0 low &&& eqMask a1 high &&& eqMask a2 high &&& eqMask a3 high &&&
      eqMask a4 high = mask) :
    subtractPrime low high (upd5 a0 a1 a2 a3 a4) = upd5 (a0 - (low &&& mask)) (a1 - (high &&& mask))
      (a2 - (high &&& mask)) (a3 - (high &&& mask)) (a4 - (high &&& mask)) := by
  subst masks
  rfl

namespace Modulo

variable (m : Modulo w) {a : Felem w}

/-- The modulus is at most a value in range exactly when its limbs are full, and the lowest one nearly. -/
theorem prime_le_value_iff {x0 x1 x2 x3 x4 : Nat} (below0 : x0 < 2 ^ m.limbSize) (below1 : x1 < 2 ^ m.limbSize)
    (below2 : x2 < 2 ^ m.limbSize) (below3 : x3 < 2 ^ m.limbSize) (below4 : x4 < 2 ^ m.limbSize) :
    m.prime ≤ value m.limbSize [x0, x1, x2, x3, x4] ↔ 2 ^ m.limbSize ≤ x0 + m.factor ∧
      x1 + 1 = 2 ^ m.limbSize ∧ x2 + 1 = 2 ^ m.limbSize ∧ x3 + 1 = 2 ^ m.limbSize ∧ x4 + 1 = 2 ^ m.limbSize := by
  have factor := m.factor_lt
  have power : 2 ^ (5 * m.limbSize) = (2 ^ m.limbSize) ^ 5 := by rw [Nat.mul_comm, Nat.pow_mul]
  rw [prime, power]
  obtain ⟨B, base⟩ : ∃ B, B = 2 ^ m.limbSize := ⟨_, rfl⟩
  rw [← base] at factor below0 below1 below2 below3 below4 ⊢
  -- The complements of the limbs make up what the value lacks of all ones.
  obtain ⟨e0, rest0⟩ := Nat.exists_eq_add_of_lt below0
  obtain ⟨e1, rest1⟩ := Nat.exists_eq_add_of_lt below1
  obtain ⟨e2, rest2⟩ := Nat.exists_eq_add_of_lt below2
  obtain ⟨e3, rest3⟩ := Nat.exists_eq_add_of_lt below3
  obtain ⟨e4, rest4⟩ := Nat.exists_eq_add_of_lt below4
  have total : value m.limbSize [x0, x1, x2, x3, x4] + (e0 + B * (e1 + B * (e2 + B * (e3 + B * e4)))) + 1 =
      B ^ 5 := by
    simp only [value, ← base, Nat.ofDigits_cons, Nat.ofDigits_nil]
    zify at rest0 rest1 rest2 rest3 rest4 ⊢
    linear_combination -rest0 - B * rest1 - B ^ 2 * rest2 - B ^ 3 * rest3 - B ^ 4 * rest4
  constructor
  · intro le
    have short : B * (e1 + B * (e2 + B * (e3 + B * e4))) < B * 1 := by omega
    have none := Nat.lt_one_iff.mp (Nat.lt_of_mul_lt_mul_left short)
    have none2 : B * (e2 + B * (e3 + B * e4)) = 0 := by omega
    have none3 : B * (e3 + B * e4) = 0 := by
      have := (Nat.mul_eq_zero.mp none2).resolve_left (by omega)
      omega
    have none4 : B * e4 = 0 := by
      have := (Nat.mul_eq_zero.mp none3).resolve_left (by omega)
      omega
    have last := (Nat.mul_eq_zero.mp none4).resolve_left (by omega)
    have := (Nat.mul_eq_zero.mp none2).resolve_left (by omega)
    have := (Nat.mul_eq_zero.mp none3).resolve_left (by omega)
    omega
  · rintro ⟨low, full1, full2, full3, full4⟩
    have : e1 = 0 := by omega
    have : e2 = 0 := by omega
    have : e3 = 0 := by omega
    have : e4 = 0 := by omega
    subst e1 e2 e3 e4
    omega

/-- The value of limbs that are full above the lowest one. -/
theorem value_ones (x0 : Nat) {full : Nat} (ones : full + 1 = 2 ^ m.limbSize) :
    value m.limbSize [x0, full, full, full, full] + 2 ^ m.limbSize = x0 + 2 ^ (5 * m.limbSize) := by
  have power : 2 ^ (5 * m.limbSize) = (2 ^ m.limbSize) ^ 5 := by rw [Nat.mul_comm, Nat.pow_mul]
  rw [power]
  simp only [value, ← ones, Nat.ofDigits_cons, Nat.ofDigits_nil]
  ring

/-- The subtraction reduces a value in range below the modulus. -/
theorem subtractPrime_spec (low high : BitVec w) (low_toNat : low.toNat + m.factor = 2 ^ m.limbSize)
    (high_toNat : high.toNat + 1 = 2 ^ m.limbSize) (below : Below (2 ^ m.limbSize) a) :
    Below (2 ^ m.limbSize) (subtractPrime low high a) ∧
      m.seval (subtractPrime low high a) = m.seval a % m.prime := by
  obtain ⟨a0, a1, a2, a3, a4, rfl⟩ := five a
  obtain ⟨below0, below1, below2, below3, below4⟩ := below_upd5.mp below
  have compare := m.prime_le_value_iff below0 below1 below2 below3 below4
  have positive : 0 < 2 ^ m.limbSize := by positivity
  -- All five masks are ones exactly when the value is at least the modulus.
  by_cases above : low ≤ a0 ∧ a1 = high ∧ a2 = high ∧ a3 = high ∧ a4 = high
  · obtain ⟨least, full1, full2, full3, full4⟩ := above
    rw [full1, full2, full3, full4] at compare ⊢
    have mask : gteMask a0 low &&& eqMask high high &&& eqMask high high &&& eqMask high high &&&
        eqMask high high = BitVec.allOnes w := by
      simp only [gteMask, eqMask, if_pos least, if_true, BitVec.and_self]
    have bottom : (a0 - low).toNat = a0.toNat - low.toNat := BitVec.toNat_sub_of_le least
    have least' : low.toNat ≤ a0.toNat := least
    have same : subtractPrime low high (upd5 a0 high high high high) = upd5 (a0 - low) 0 0 0 0 := by
      rw [subtractPrime_upd5 mask, BitVec.and_allOnes, BitVec.and_allOnes, BitVec.sub_self]
      rfl
    have zero : (0 : BitVec w).toNat = 0 := BitVec.toNat_ofNat _ _ |>.trans (Nat.zero_mod _)
    have rest : m.seval (upd5 (a0 - low) 0 0 0 0) = a0.toNat - low.toNat := by
      rw [seval_upd5, bottom, zero]
      simp [value, Nat.ofDigits_cons]
    have full := m.value_ones a0.toNat high_toNat
    have reached := compare.mpr ⟨by omega, high_toNat, high_toNat, high_toNat, high_toNat⟩
    have double : 2 ^ m.limbSize * 2 ≤ 2 ^ (5 * m.limbSize) := by
      rw [← Nat.pow_succ]
      have some := m.limbSize_pos
      exact Nat.pow_le_pow_right (by decide) (by omega)
    have factor := m.factor_lt
    have modulus : m.prime = 2 ^ (5 * m.limbSize) - m.factor := rfl
    have split : m.seval (upd5 a0 high high high high) = (a0.toNat - low.toNat) + m.prime := by
      rw [seval_upd5]
      omega
    rw [same, rest, split, Nat.add_mod_right, Nat.mod_eq_of_lt (by omega)]
    exact ⟨below_upd5.mpr ⟨by omega, by omega, by omega, by omega, by omega⟩, rfl⟩
  · have mask : gteMask a0 low &&& eqMask a1 high &&& eqMask a2 high &&& eqMask a3 high &&&
        eqMask a4 high = 0#w := by
      unfold gteMask eqMask
      split_ifs <;> first | exact absurd ⟨‹_›, ‹_›, ‹_›, ‹_›, ‹_›⟩ above | simp
    have same : subtractPrime low high (upd5 a0 a1 a2 a3 a4) = upd5 a0 a1 a2 a3 a4 := by
      simp only [subtractPrime_upd5 mask, BitVec.and_zero, BitVec.sub_zero]
    have short : m.seval (upd5 a0 a1 a2 a3 a4) < m.prime := by
      rw [seval_upd5]
      by_contra reached
      obtain ⟨low', full1, full2, full3, full4⟩ := compare.mp (Nat.not_lt.mp reached)
      refine above ⟨?_, ?_, ?_, ?_, ?_⟩
      · show low.toNat ≤ a0.toNat
        omega
      all_goals
        apply BitVec.eq_of_toNat_eq
        omega
    rw [same, Nat.mod_eq_of_lt short]
    exact ⟨below, rfl⟩

/-- Carries, a fold and carries again bring the limbs in range, and keep the value. -/
theorem carries_spec (spare : m.limbSize + 2 ≤ w) (few : 4 * 2 ^ (w - m.limbSize) ≤ 2 ^ m.limbSize)
    (below : Below m.carriedBound a) :
    Below (2 ^ m.limbSize) (m.carryLimb (m.carryTop (m.carryLimb a))) ∧
      m.seval (m.carryLimb (m.carryTop (m.carryLimb a))) ≡ m.seval a [MOD m.prime] := by
  have double : 2 * 2 ^ m.limbSize ≤ 2 ^ (w - 1) := by
    rw [← Nat.pow_succ']
    exact Nat.pow_le_pow_right (by decide) (by omega)
  have word : 2 ^ (w - 1) ≤ 2 ^ w := Nat.pow_le_pow_right (by decide) (by omega)
  have bound : m.carriedBound = 2 ^ m.limbSize + 2 ^ (w - m.limbSize) := rfl
  have room : Below (2 ^ (w - 1)) a := below.mono (by omega)
  have carried := m.carryLimb_carried room
  obtain ⟨c0, c1, c2, c3⟩ := carried.bounds
  have c4 := carried.top (by omega) room
  have top := below 4
  have kept := carried.seval
  set c := m.carryLimb a
  have all {bound : Nat} {t : Felem w} (t0 : (t.get 0).toNat < bound) (t1 : (t.get 1).toNat < bound)
      (t2 : (t.get 2).toNat < bound) (t3 : (t.get 3).toNat < bound) (t4 : (t.get 4).toNat < bound) :
      Below bound t := by
    intro i
    fin_cases i
    · exact t0
    · exact t1
    · exact t2
    · exact t3
    · exact t4
  by_cases small : (c.get 4).toNat < 2 ^ m.limbSize
  · -- Without an overflow of the top limb the first carries are enough.
    have reduced : Below (2 ^ m.limbSize) c := all c0 c1 c2 c3 small
    rw [carryTop_of_below reduced, carryLimb_of_below reduced]
    exact ⟨reduced, kept ▸ rfl⟩
  · -- An overflow leaves the top limb nearly empty, so the second carries do not overflow it.
    have one : (c.get 4).toNat / 2 ^ m.limbSize = 1 := Nat.div_eq_of_lt_le (by omega) (by omega)
    have nearly : (c.get 4).toNat % 2 ^ m.limbSize < 2 * 2 ^ (w - m.limbSize) := by
      have split := Nat.mod_add_div (c.get 4).toNat (2 ^ m.limbSize)
      rw [one] at split
      omega
    have factor := m.factor_lt
    obtain ⟨e0, e1, e2, e3, e4, folded⟩ := carryTop_spec (m := m) (a := c) (by rw [one]; omega)
    rw [one] at e0
    set e := m.carryTop c
    have room' : Below (2 ^ (w - 1)) e :=
      all (by omega) (by rw [e1]; omega) (by rw [e2]; omega) (by rw [e3]; omega) (by omega)
    have carried' := m.carryLimb_carried room'
    obtain ⟨f0, f1, f2, f3⟩ := carried'.bounds
    have f4 := carried'.top (by omega) room'
    refine ⟨all f0 f1 f2 f3 (by omega), ?_⟩
    calc m.seval (m.carryLimb e) = m.seval e := carried'.seval
      _ ≡ m.seval c [MOD m.prime] := folded
      _ = m.seval a := kept

/-- The contraction of carried limbs: carries and folds, a last carry, and the subtraction of the modulus. -/
theorem contract_spec (spare : m.limbSize + 2 ≤ w) (few : 4 * 2 ^ (w - m.limbSize) ≤ 2 ^ m.limbSize)
    (low high : BitVec w) (low_toNat : low.toNat + m.factor = 2 ^ m.limbSize)
    (high_toNat : high.toNat + 1 = 2 ^ m.limbSize) (below : Below m.carriedBound a) :
    Below (2 ^ m.limbSize) (subtractPrime low high
        (m.carry0To1 (m.carryTop (m.carryLimb (m.carryTop (m.carryLimb a)))))) ∧
      m.seval (subtractPrime low high
        (m.carry0To1 (m.carryTop (m.carryLimb (m.carryTop (m.carryLimb a)))))) = m.seval a % m.prime := by
  obtain ⟨reduced, kept⟩ := m.carries_spec spare few below
  -- Once the limbs are in range, the last fold and the last carry change nothing.
  rw [carryTop_of_below reduced, carry0To1_of_below reduced]
  obtain ⟨below', value⟩ := m.subtractPrime_spec low high low_toNat high_toNat reduced
  exact ⟨below', value.trans kept⟩

end Modulo

end HaclStar.Impl.FiveLimbs
