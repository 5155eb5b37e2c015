import HaclStar.Lib.Limbs
import HaclStar.Lib.Barrett
import HaclStar.Spec.Ed25519Sign
import HaclStar.Impl.BignumQ

/-! Arithmetic on limbs of 56 bits is arithmetic modulo the order of the base point, and never overflows. -/

namespace HaclStar.Impl.BignumQ

open Spec.Ed25519 (q)

/-! ### Subtraction -/

/-- The comparison bit of two words with a free top bit. -/
theorem lt_toNat {a b : BitVec 64} (small : a.toNat < 2 ^ 63) (small' : b.toNat < 2 ^ 63) :
    (lt a b).toNat = if a.toNat < b.toNat then 1 else 0 := by
  simp only [lt, BitVec.toNat_ushiftRight, BitVec.toNat_sub, Nat.shiftRight_eq_div_pow]
  split_ifs <;> omega

/-- One step of a subtraction: the borrow pays for what is missing. -/
theorem submStep_spec {bits : Nat} {x y : BitVec 64} (few : bits ≤ 56) (below : x.toNat < 2 ^ bits)
    (below' : y.toNat ≤ 2 ^ bits) :
    ∃ b t, submStep bits x y = some (b, t) ∧ b.toNat ≤ 1 ∧ t.toNat < 2 ^ bits ∧
      x.toNat + 2 ^ bits * b.toNat = t.toNat + y.toNat := by
  have top : 2 ^ bits ≤ 2 ^ 56 := Nat.pow_le_pow_right (by decide) few
  have bit := lt_toNat (a := x) (b := y) (by omega) (by omega)
  -- The borrow is shifted to the place above the limb.
  have shifted : (lt x y <<< bits).toNat = 2 ^ bits * (lt x y).toNat := by
    rw [BitVec.toNat_shiftLeft, Nat.shiftLeft_eq, Nat.mul_comm, Nat.mod_eq_of_lt]
    rw [bit]
    split_ifs <;> omega
  have raised : Checked.add (lt x y <<< bits) x = some (lt x y <<< bits + x) := by
    refine Checked.add_eq ?_
    rw [shifted, bit]
    split_ifs <;> omega
  have sum : (lt x y <<< bits + x).toNat = 2 ^ bits * (lt x y).toNat + x.toNat := by
    rw [Limbs.toNat_add', shifted]
    rw [shifted, bit]
    split_ifs <;> omega
  -- With the borrow, the operand is not less.
  have enough : y.toNat ≤ 2 ^ bits * (lt x y).toNat + x.toNat := by
    rw [bit]
    split_ifs <;> omega
  have lowered : Checked.sub (lt x y <<< bits + x) y = some (lt x y <<< bits + x - y) :=
    Checked.sub_eq (by rwa [sum])
  have difference : (lt x y <<< bits + x - y).toNat = 2 ^ bits * (lt x y).toNat + x.toNat - y.toNat := by
    rw [BitVec.toNat_sub_of_le (by rwa [BitVec.le_def, sum]), sum]
  refine ⟨lt x y, lt x y <<< bits + x - y, ?_, ?_, ?_, by omega⟩
  · simp only [submStep, raised, lowered, Option.bind_eq_bind, Option.bind_some, Option.pure_def]
  · rw [bit]
    split_ifs <;> omega
  · rw [difference, bit]
    split_ifs <;> omega

/-- The borrow goes to the next limb. -/
theorem borrow_spec {y b : BitVec 64} (below : y.toNat < 2 ^ 56) (small : b.toNat ≤ 1) :
    Checked.add y b = some (y + b) ∧ (y + b).toNat = y.toNat + b.toNat :=
  ⟨Checked.add_eq (by omega), Limbs.toNat_add' (by omega)⟩

/-- The subtraction of five limbs: the last borrow pays for what is missing. -/
theorem subm_spec {lastBits : Nat} {x y : Qelem} (few : lastBits ≤ 56) (within : Within56 x) (within' : Within56 y)
    (last : x.q4.toNat < 2 ^ lastBits) (last' : y.q4.toNat < 2 ^ lastBits) :
    ∃ b z, subm lastBits x y = some (b, z) ∧ b.toNat ≤ 1 ∧ Within56 z ∧ z.q4.toNat < 2 ^ lastBits ∧
      evalQ x + 2 ^ 224 * (2 ^ lastBits * b.toNat) = evalQ z + evalQ y := by
  have top : 2 ^ lastBits ≤ 2 ^ 56 := Nat.pow_le_pow_right (by decide) few
  -- Each limb takes the borrow of the one before.
  obtain ⟨b0, t0, step0, bit0, small0, value0⟩ := submStep_spec (Nat.le_refl 56) within.q0 within'.q0.le
  obtain ⟨add1, sum1⟩ := borrow_spec within'.q1 bit0
  obtain ⟨b1, t1, step1, bit1, small1, value1⟩ :=
    submStep_spec (y := y.q1 + b0) (Nat.le_refl 56) within.q1 (by have := within'.q1; omega)
  obtain ⟨add2, sum2⟩ := borrow_spec within'.q2 bit1
  obtain ⟨b2, t2, step2, bit2, small2, value2⟩ :=
    submStep_spec (y := y.q2 + b1) (Nat.le_refl 56) within.q2 (by have := within'.q2; omega)
  obtain ⟨add3, sum3⟩ := borrow_spec within'.q3 bit2
  obtain ⟨b3, t3, step3, bit3, small3, value3⟩ :=
    submStep_spec (y := y.q3 + b2) (Nat.le_refl 56) within.q3 (by have := within'.q3; omega)
  obtain ⟨add4, sum4⟩ := borrow_spec within'.q4 bit3
  obtain ⟨b4, t4, step4, bit4, small4, value4⟩ :=
    submStep_spec (y := y.q4 + b3) few last (by omega)
  refine ⟨b4, ⟨t0, t1, t2, t3, t4⟩, ?_, bit4, ⟨small0, small1, small2, small3, small4.trans_le top⟩, small4, ?_⟩
  · simp only [subm, step0, add1, step1, add2, step2, add3, step3, add4, step4, Option.bind_eq_bind,
      Option.bind_some, Option.pure_def]
  · -- The borrows between the limbs cancel out.
    rw [sum1] at value1
    rw [sum2] at value2
    rw [sum3] at value3
    rw [sum4] at value4
    simp only [evalQ]
    generalize 2 ^ lastBits * b4.toNat = missing at *
    omega

/-- A number of five limbs. -/
theorem Within56.evalQ_lt {z : Qelem} (within : Within56 z) : evalQ z < 2 ^ 280 := by
  obtain ⟨b0, b1, b2, b3, b4⟩ := within
  simp only [evalQ]
  omega

/-- A number of five limbs with a short last one. -/
theorem Within56.evalQ_lt_264 {z : Qelem} (within : Within56 z) (last : z.q4.toNat < 2 ^ 40) : evalQ z < 2 ^ 264 := by
  obtain ⟨b0, b1, b2, b3, b4⟩ := within
  simp only [evalQ]
  omega

/-- A number below `2 ^ 264` has a short last limb. -/
theorem last_lt {z : Qelem} (small : evalQ z < 2 ^ 264) : z.q4.toNat < 2 ^ 40 := by
  simp only [evalQ] at small
  omega

/-- Subtraction modulo `2 ^ 264` wraps around below zero. -/
theorem subMod264_spec {x y : Qelem} (within : Within56 x) (within' : Within56 y) (small : evalQ x < 2 ^ 264)
    (small' : evalQ y < 2 ^ 264) :
    ∃ z, subMod264 x y = some z ∧ Within56 z ∧ evalQ z = Barrett.Params.wrappedSub (2 ^ 264) (evalQ x) (evalQ y) := by
  obtain ⟨b, z, run, bit, within'', last, value⟩ :=
    subm_spec (by decide : 40 ≤ 56) within within' (last_lt small) (last_lt small')
  have small'' := within''.evalQ_lt_264 last
  refine ⟨z, ?_, within'', ?_⟩
  · simp only [subMod264, run, Option.bind_eq_bind, Option.bind_some, Option.pure_def]
  · -- The last borrow is set exactly when the operand is less.
    rw [Barrett.Params.wrappedSub]
    split_ifs <;> omega

/-- A clear bit chooses the second operand. -/
theorem choose_zero (x y : Qelem) {b : BitVec 64} (clear : b.toNat = 0) : choose x y b = y := by
  have zero : b = 0#64 := BitVec.eq_of_toNat_eq clear
  -- The mask has all bits, and the first operand cancels out.
  have pick (u v : BitVec 64) : ((v ^^^ u) &&& (0#64 - 1#64)) ^^^ u = v := by
    rw [show (0#64 - 1#64) = BitVec.allOnes 64 from rfl, BitVec.and_allOnes, BitVec.xor_assoc, BitVec.xor_self,
      BitVec.xor_zero]
  simp only [choose, zero, pick]

/-- A set bit chooses the first operand. -/
theorem choose_one (x y : Qelem) {b : BitVec 64} (set : b.toNat = 1) : choose x y b = x := by
  have one : b = 1#64 := BitVec.eq_of_toNat_eq set
  have pick (u v : BitVec 64) : ((v ^^^ u) &&& (1#64 - 1#64)) ^^^ u = u := by
    rw [BitVec.sub_self, BitVec.and_zero, BitVec.zero_xor]
  simp only [choose, one, pick]

theorem m_within : Within56 m := by constructor <;> decide

theorem mu_within : Within56 mu := by constructor <;> decide

theorem evalQ_m : evalQ m = q := by decide

/-- The order is subtracted, unless the operand is less. -/
theorem submConditional_spec {r : Qelem} (within : Within56 r) :
    ∃ z, submConditional r = some z ∧ Within56 z ∧ evalQ z = if q ≤ evalQ r then evalQ r - q else evalQ r := by
  obtain ⟨b, z, run, bit, within', -, value⟩ := subm_spec (Nat.le_refl 56) within m_within within.q4 m_within.q4
  have small := within'.evalQ_lt
  have small' := within.evalQ_lt
  have order : q < 2 ^ 280 := by
    rw [← evalQ_m]
    exact m_within.evalQ_lt
  rw [evalQ_m] at value
  have result : submConditional r = some (choose r z b) := by
    simp only [submConditional, run, Option.bind_eq_bind, Option.bind_some, Option.pure_def]
  -- The last borrow is set exactly when the operand is less.
  rcases Nat.lt_or_ge (evalQ r) q with less | enough
  · rw [if_neg (by omega)]
    exact ⟨r, by rw [result, choose_one r z (by omega)], within, rfl⟩
  · rw [if_pos enough]
    exact ⟨z, by rw [result, choose_zero r z (by omega)], within', by omega⟩

/-! ### Products -/

theorem mulWide_toNat (x y : BitVec 64) : (mulWide x y).toNat = x.toNat * y.toNat := by
  have small := x.isLt
  have small' := y.isLt
  have product : x.toNat * y.toNat < 2 ^ 64 * 2 ^ 64 := Nat.mul_lt_mul'' small small'
  rw [mulWide, BitVec.toNat_mul, BitVec.toNat_setWidth, BitVec.toNat_setWidth, Nat.mod_eq_of_lt (by omega : x.toNat < 2 ^ 128),
    Nat.mod_eq_of_lt (by omega : y.toNat < 2 ^ 128), Nat.mod_eq_of_lt (by omega)]

/-- A product of limbs of 56 bits. -/
theorem mulWide_lt {x y : BitVec 64} (small : x.toNat < 2 ^ 56) (small' : y.toNat < 2 ^ 56) :
    (mulWide x y).toNat < 2 ^ 112 := by
  rw [mulWide_toNat]
  exact (Nat.mul_lt_mul'' small small').trans_eq (by decide)

/-- What is above the lowest 56 bits. -/
theorem high_toNat (x : BitVec 128) : (x >>> 56).toNat = x.toNat / 2 ^ 56 := by
  rw [BitVec.toNat_ushiftRight, Nat.shiftRight_eq_div_pow]

/-- The lowest 56 bits. -/
theorem low_toNat (x : BitVec 128) : (x.setWidth 64 &&& 0xffffffffffffff#64).toNat = x.toNat % 2 ^ 56 := by
  rw [Limbs.toNat_and_mask' 56 (by decide), BitVec.toNat_setWidth]
  exact Nat.mod_mod_of_dvd _ (by decide)

/-- The lowest 40 bits. -/
theorem mod40_toNat (x : BitVec 128) : (mod40 x).toNat = x.toNat % 2 ^ 40 := by
  rw [mod40, Limbs.toNat_and_mask' 40 (by decide), BitVec.toNat_setWidth]
  exact Nat.mod_mod_of_dvd _ (by decide)

/-- The bounds of the columns of a product. -/
structure WideBounds (z : QelemWide) : Prop where
  w0 : z.w0.toNat < 2 ^ 112
  w1 : z.w1.toNat < 2 * 2 ^ 112
  w2 : z.w2.toNat < 3 * 2 ^ 112
  w3 : z.w3.toNat < 4 * 2 ^ 112
  w4 : z.w4.toNat < 5 * 2 ^ 112
  w5 : z.w5.toNat < 4 * 2 ^ 112
  w6 : z.w6.toNat < 3 * 2 ^ 112
  w7 : z.w7.toNat < 2 * 2 ^ 112
  w8 : z.w8.toNat < 2 ^ 112

/-! The weights above `2 ^ 224` as products of smaller ones. -/

theorem weight_280 : 2 ^ 280 = 2 ^ 224 * 2 ^ 56 := by rw [← pow_add]

theorem weight_336 : 2 ^ 336 = 2 ^ 224 * 2 ^ 112 := by rw [← pow_add]

theorem weight_392 : 2 ^ 392 = 2 ^ 224 * 2 ^ 168 := by rw [← pow_add]

theorem weight_448 : 2 ^ 448 = 2 ^ 224 * 2 ^ 224 := by rw [← pow_add]

section Product

variable {x y : Qelem} (within : Within56 x) (within' : Within56 y)

include within within'

/-- The lowest 264 bits of a product; the last limb keeps 40 of its bits. -/
theorem lowMul5_spec :
    ∃ z, lowMul5 x y = some z ∧ Within56 z ∧ evalQ z = evalQ x * evalQ y % 2 ^ 264 := by
  obtain ⟨x0, x1, x2, x3, x4⟩ := within
  obtain ⟨y0, y1, y2, y3, y4⟩ := within'
  have p00 := mulWide_lt x0 y0
  have p01 := mulWide_lt x0 y1
  have p02 := mulWide_lt x0 y2
  have p03 := mulWide_lt x0 y3
  have p04 := mulWide_lt x0 y4
  have p10 := mulWide_lt x1 y0
  have p11 := mulWide_lt x1 y1
  have p12 := mulWide_lt x1 y2
  have p13 := mulWide_lt x1 y3
  have p20 := mulWide_lt x2 y0
  have p21 := mulWide_lt x2 y1
  have p22 := mulWide_lt x2 y2
  have p30 := mulWide_lt x3 y0
  have p31 := mulWide_lt x3 y1
  have p40 := mulWide_lt x4 y0
  -- Each column takes what the one before does not keep.
  have carry0 := high_toNat (mulWide x.q0 y.q0)
  obtain ⟨s1, run1, sum1⟩ := Checked.sum_spec (x := mulWide x.q0 y.q1)
    (l := [mulWide x.q1 y.q0, mulWide x.q0 y.q0 >>> 56]) (by simp only [Checked.total]; omega)
  simp only [Checked.total] at sum1
  have carry1 := high_toNat s1
  obtain ⟨s2, run2, sum2⟩ := Checked.sum_spec (x := mulWide x.q0 y.q2)
    (l := [mulWide x.q1 y.q1, mulWide x.q2 y.q0, s1 >>> 56]) (by simp only [Checked.total]; omega)
  simp only [Checked.total] at sum2
  have carry2 := high_toNat s2
  obtain ⟨s3, run3, sum3⟩ := Checked.sum_spec (x := mulWide x.q0 y.q3)
    (l := [mulWide x.q1 y.q2, mulWide x.q2 y.q1, mulWide x.q3 y.q0, s2 >>> 56]) (by simp only [Checked.total]; omega)
  simp only [Checked.total] at sum3
  have carry3 := high_toNat s3
  obtain ⟨s4, run4, sum4⟩ := Checked.sum_spec (x := mulWide x.q0 y.q4)
    (l := [mulWide x.q1 y.q3, mulWide x.q2 y.q2, mulWide x.q3 y.q1, mulWide x.q4 y.q0, s3 >>> 56]) (by simp only [Checked.total]; omega)
  simp only [Checked.total] at sum4
  have run : lowMul5 x y = some ⟨(split56 (mulWide x.q0 y.q0)).2, (split56 s1).2, (split56 s2).2, (split56 s3).2,
      mod40 s4⟩ := by
    simp only [lowMul5, split56, run1, run2, run3, run4, Option.bind_eq_bind, Option.bind_some, Option.pure_def]
  have t0 := low_toNat (mulWide x.q0 y.q0)
  have t1 := low_toNat s1
  have t2 := low_toNat s2
  have t3 := low_toNat s3
  have t4 := mod40_toNat s4
  refine ⟨_, run, ⟨?_, ?_, ?_, ?_, ?_⟩, ?_⟩
  · simp only [split56, t0]
    exact Nat.mod_lt _ (by decide)
  · simp only [split56, t1]
    exact Nat.mod_lt _ (by decide)
  · simp only [split56, t2]
    exact Nat.mod_lt _ (by decide)
  · simp only [split56, t3]
    exact Nat.mod_lt _ (by decide)
  · simp only [t4]
    exact (Nat.mod_lt _ (by decide)).trans (by decide)
  · -- The limbs are the digits of the sum of the columns; the columns above are multiples of `2 ^ 280`.
    obtain ⟨above, columns⟩ : ∃ above, evalQ x * evalQ y = (mulWide x.q0 y.q0).toNat
        + 2 ^ 56 * ((mulWide x.q0 y.q1).toNat + (mulWide x.q1 y.q0).toNat)
        + 2 ^ 112 * ((mulWide x.q0 y.q2).toNat + (mulWide x.q1 y.q1).toNat + (mulWide x.q2 y.q0).toNat)
        + 2 ^ 168 * ((mulWide x.q0 y.q3).toNat + (mulWide x.q1 y.q2).toNat + (mulWide x.q2 y.q1).toNat
          + (mulWide x.q3 y.q0).toNat)
        + 2 ^ 224 * ((mulWide x.q0 y.q4).toNat + (mulWide x.q1 y.q3).toNat + (mulWide x.q2 y.q2).toNat
          + (mulWide x.q3 y.q1).toNat + (mulWide x.q4 y.q0).toNat)
        + 2 ^ 224 * (2 ^ 56 * above) := by
      refine ⟨x.q1.toNat * y.q4.toNat + x.q2.toNat * y.q3.toNat + x.q3.toNat * y.q2.toNat + x.q4.toNat * y.q1.toNat
        + 2 ^ 56 * (x.q2.toNat * y.q4.toNat + x.q3.toNat * y.q3.toNat + x.q4.toNat * y.q2.toNat)
        + 2 ^ 112 * (x.q3.toNat * y.q4.toNat + x.q4.toNat * y.q3.toNat)
        + 2 ^ 168 * (x.q4.toNat * y.q4.toNat), ?_⟩
      simp only [evalQ, mulWide_toNat]
      ring
    rw [columns]
    simp only [evalQ, split56, t0, t1, t2, t3, t4]
    omega

/-- The product in double words: a column is the sum of five products at most. -/
theorem mul5_spec :
    ∃ z, mul5 x y = some z ∧ WideBounds z ∧ evalQWide z = evalQ x * evalQ y := by
  obtain ⟨x0, x1, x2, x3, x4⟩ := within
  obtain ⟨y0, y1, y2, y3, y4⟩ := within'
  have p00 := mulWide_lt x0 y0
  have p01 := mulWide_lt x0 y1
  have p02 := mulWide_lt x0 y2
  have p03 := mulWide_lt x0 y3
  have p04 := mulWide_lt x0 y4
  have p10 := mulWide_lt x1 y0
  have p11 := mulWide_lt x1 y1
  have p12 := mulWide_lt x1 y2
  have p13 := mulWide_lt x1 y3
  have p14 := mulWide_lt x1 y4
  have p20 := mulWide_lt x2 y0
  have p21 := mulWide_lt x2 y1
  have p22 := mulWide_lt x2 y2
  have p23 := mulWide_lt x2 y3
  have p24 := mulWide_lt x2 y4
  have p30 := mulWide_lt x3 y0
  have p31 := mulWide_lt x3 y1
  have p32 := mulWide_lt x3 y2
  have p33 := mulWide_lt x3 y3
  have p34 := mulWide_lt x3 y4
  have p40 := mulWide_lt x4 y0
  have p41 := mulWide_lt x4 y1
  have p42 := mulWide_lt x4 y2
  have p43 := mulWide_lt x4 y3
  have p44 := mulWide_lt x4 y4
  -- No column overflows.
  obtain ⟨z1, run1, sum1⟩ := Checked.sum_spec (x := mulWide x.q0 y.q1) (l := [mulWide x.q1 y.q0])
    (by simp only [Checked.total]; omega)
  obtain ⟨z2, run2, sum2⟩ := Checked.sum_spec (x := mulWide x.q0 y.q2)
    (l := [mulWide x.q1 y.q1, mulWide x.q2 y.q0]) (by simp only [Checked.total]; omega)
  obtain ⟨z3, run3, sum3⟩ := Checked.sum_spec (x := mulWide x.q0 y.q3)
    (l := [mulWide x.q1 y.q2, mulWide x.q2 y.q1, mulWide x.q3 y.q0]) (by simp only [Checked.total]; omega)
  obtain ⟨z4, run4, sum4⟩ := Checked.sum_spec (x := mulWide x.q0 y.q4)
    (l := [mulWide x.q1 y.q3, mulWide x.q2 y.q2, mulWide x.q3 y.q1, mulWide x.q4 y.q0])
    (by simp only [Checked.total]; omega)
  obtain ⟨z5, run5, sum5⟩ := Checked.sum_spec (x := mulWide x.q1 y.q4)
    (l := [mulWide x.q2 y.q3, mulWide x.q3 y.q2, mulWide x.q4 y.q1]) (by simp only [Checked.total]; omega)
  obtain ⟨z6, run6, sum6⟩ := Checked.sum_spec (x := mulWide x.q2 y.q4)
    (l := [mulWide x.q3 y.q3, mulWide x.q4 y.q2]) (by simp only [Checked.total]; omega)
  obtain ⟨z7, run7, sum7⟩ := Checked.sum_spec (x := mulWide x.q3 y.q4) (l := [mulWide x.q4 y.q3])
    (by simp only [Checked.total]; omega)
  simp only [Checked.total] at sum1 sum2 sum3 sum4 sum5 sum6 sum7
  refine ⟨⟨mulWide x.q0 y.q0, z1, z2, z3, z4, z5, z6, z7, mulWide x.q4 y.q4⟩, ?_, ?_, ?_⟩
  · simp only [mul5, run1, run2, run3, run4, run5, run6, run7, Option.bind_eq_bind, Option.bind_some,
      Option.pure_def]
  · constructor <;> simp only <;> omega
  · simp only [evalQWide, evalQ, sum1, sum2, sum3, sum4, sum5, sum6, sum7, mulWide_toNat, weight_280, weight_336,
      weight_392, weight_448]
    ring

end Product

/-! ### Carries -/

/-- One step of a carry keeps the sum of the two words by weight. -/
theorem carryStep_spec {x y : BitVec 128} (small : y.toNat < 5 * 2 ^ 112) :
    ∃ t z, carryStep x y = some (t, z) ∧ t.toNat < 2 ^ 56 ∧ x.toNat + 2 ^ 56 * y.toNat = t.toNat + 2 ^ 56 * z.toNat := by
  have above := high_toNat x
  have below := low_toNat x
  have bound := x.isLt
  have run : Checked.add y (x >>> 56) = some (y + x >>> 56) := Checked.add_eq (by omega)
  have value : (y + x >>> 56).toNat = y.toNat + (x >>> 56).toNat := Limbs.toNat_add' (by omega)
  refine ⟨x.setWidth 64 &&& 0xffffffffffffff#64, y + x >>> 56, ?_, by omega, by omega⟩
  simp only [carryStep, run, Option.bind_eq_bind, Option.bind_some, Option.pure_def]

/-- The carry keeps the number, and all limbs have 56 bits then. -/
theorem carry_spec {z : QelemWide} (bounds : WideBounds z) (small : evalQWide z < 2 ^ 528) :
    ∃ t, carry z = some t ∧ All10Below56 t ∧ evalQ10 t = evalQWide z := by
  obtain ⟨b0, b1, b2, b3, b4, b5, b6, b7, b8⟩ := bounds
  obtain ⟨x0, z1, step0, small0, value0⟩ := carryStep_spec (x := z.w0) (b1.trans_le (by decide))
  obtain ⟨x1, z2, step1, small1, value1⟩ := carryStep_spec (x := z1) (b2.trans_le (by decide))
  obtain ⟨x2, z3, step2, small2, value2⟩ := carryStep_spec (x := z2) (b3.trans_le (by decide))
  obtain ⟨x3, z4, step3, small3, value3⟩ := carryStep_spec (x := z3) (b4.trans_le (by decide))
  obtain ⟨x4, z5, step4, small4, value4⟩ := carryStep_spec (x := z4) (b5.trans_le (by decide))
  obtain ⟨x5, z6, step5, small5, value5⟩ := carryStep_spec (x := z5) (b6.trans_le (by decide))
  obtain ⟨x6, z7, step6, small6, value6⟩ := carryStep_spec (x := z6) (b7.trans_le (by decide))
  obtain ⟨x7, z8, step7, small7, value7⟩ := carryStep_spec (x := z7) (b8.trans_le (by decide))
  obtain ⟨x8, z9, step8, small8, value8⟩ := carryStep_spec (x := z8) (y := 0#128) (by decide)
  -- The carries between the limbs cancel out, in the lower half and in the upper one.
  have lower : z.w0.toNat + 2 ^ 56 * z.w1.toNat + 2 ^ 112 * z.w2.toNat + 2 ^ 168 * z.w3.toNat + 2 ^ 224 * z.w4.toNat
      + 2 ^ 280 * z.w5.toNat = x0.toNat + 2 ^ 56 * x1.toNat + 2 ^ 112 * x2.toNat + 2 ^ 168 * x3.toNat
      + 2 ^ 224 * x4.toNat + 2 ^ 280 * z5.toNat := by
    omega
  have upper : z5.toNat + 2 ^ 56 * z.w6.toNat + 2 ^ 112 * z.w7.toNat + 2 ^ 168 * z.w8.toNat = x5.toNat
      + 2 ^ 56 * x6.toNat + 2 ^ 112 * x7.toNat + 2 ^ 168 * x8.toNat + 2 ^ 224 * z9.toNat := by
    have zero : (0#128).toNat = 0 := rfl
    rw [zero] at value8
    omega
  have total : evalQWide z = x0.toNat + 2 ^ 56 * x1.toNat + 2 ^ 112 * x2.toNat + 2 ^ 168 * x3.toNat
      + 2 ^ 224 * x4.toNat + 2 ^ 280 * x5.toNat + 2 ^ 336 * x6.toNat + 2 ^ 392 * x7.toNat + 2 ^ 448 * x8.toNat
      + 2 ^ 504 * z9.toNat := by
    clear value0 value1 value2 value3 value4 value5 value6 value7 value8
    simp only [evalQWide]
    omega
  -- What is left of the carry fits into a limb, so that nothing is lost when it is narrowed.
  have small9 : z9.toNat < 2 ^ 56 := by omega
  have narrow : (z9.setWidth 64).toNat = z9.toNat := by
    rw [BitVec.toNat_setWidth, Nat.mod_eq_of_lt (by omega)]
  have run : carry z = some ⟨x0, x1, x2, x3, x4, x5, x6, x7, x8, z9.setWidth 64⟩ :=
    Checked.bind_run step0 (Checked.bind_run step1 (Checked.bind_run step2 (Checked.bind_run step3
      (Checked.bind_run step4 (Checked.bind_run step5 (Checked.bind_run step6 (Checked.bind_run step7
        (Checked.bind_run step8 rfl))))))))
  refine ⟨⟨x0, x1, x2, x3, x4, x5, x6, x7, x8, z9.setWidth 64⟩, run,
    ⟨small0, small1, small2, small3, small4, small5, small6, small7, small8, narrow.trans_lt small9⟩, ?_⟩
  · rw [total]
    simp only [evalQ10, narrow]

/-! ### Division and residues by powers of two -/

/-- The upper bits of one limb with the lowest bits of the next one on top. -/
theorem join_toNat {x y mask : BitVec 64} {bits rest : Nat} (all : bits + rest = 56)
    (ones : mask.toNat = 2 ^ bits - 1) (below : x.toNat < 2 ^ 56) :
    (((y &&& mask) <<< rest) ||| (x >>> bits)).toNat = x.toNat / 2 ^ bits + 2 ^ rest * (y.toNat % 2 ^ bits) := by
  have weight : 2 ^ bits * 2 ^ rest = 2 ^ 56 := by rw [← pow_add, all]
  have upper : x.toNat / 2 ^ bits < 2 ^ rest := Nat.div_lt_of_lt_mul (by rwa [weight])
  have lower : y.toNat % 2 ^ bits < 2 ^ bits := Nat.mod_lt _ (by positivity)
  have shifted : y.toNat % 2 ^ bits * 2 ^ rest < 2 ^ 64 := by
    have product := Nat.mul_lt_mul_of_pos_right lower (by positivity : 0 < 2 ^ rest)
    omega
  rw [BitVec.toNat_or, BitVec.toNat_shiftLeft, Limbs.toNat_and_mask' bits ones, BitVec.toNat_ushiftRight,
    Nat.shiftLeft_eq, Nat.shiftRight_eq_div_pow, Nat.mod_eq_of_lt shifted, Limbs.mul_or_eq_add upper, add_comm,
    mul_comm]

theorem div224Step_toNat {x y : BitVec 64} (below : x.toNat < 2 ^ 56) :
    (div224Step x y).toNat = x.toNat / 2 ^ 24 + 2 ^ 32 * (y.toNat % 2 ^ 24) :=
  join_toNat (by decide : 24 + 32 = 56) (by decide) below

theorem div240Step_toNat {x y : BitVec 64} (below : x.toNat < 2 ^ 56) :
    (div240Step x y).toNat = x.toNat / 2 ^ 40 + 2 ^ 16 * (y.toNat % 2 ^ 40) :=
  join_toNat (by decide : 40 + 16 = 56) (by decide) below

section Division

variable {t : Qelem10} (below : All10Below56 t)

include below

/-- The quotient by `2 ^ 248`. -/
theorem div248_spec (small : evalQ10 t < 2 ^ 512) :
    Within56 (div248 t) ∧ evalQ (div248 t) = evalQ10 t / 2 ^ 248 := by
  obtain ⟨b0, b1, b2, b3, b4, b5, b6, b7, b8, b9⟩ := below
  have z0 := div224Step_toNat (y := t.t5) b4
  have z1 := div224Step_toNat (y := t.t6) b5
  have z2 := div224Step_toNat (y := t.t7) b6
  have z3 := div224Step_toNat (y := t.t8) b7
  have z4 := div224Step_toNat (y := t.t9) b8
  simp only [evalQ10] at small ⊢
  -- The last limb has 8 bits, all of which are kept.
  constructor
  · constructor <;> simp only [div248] <;> omega
  · simp only [evalQ, div248, z0, z1, z2, z3, z4]
    omega

/-- The quotient by `2 ^ 264`. -/
theorem div264_spec (small : evalQ10 t < 2 ^ 528) :
    Within56 (div264 t) ∧ evalQ (div264 t) = evalQ10 t / 2 ^ 264 := by
  obtain ⟨b0, b1, b2, b3, b4, b5, b6, b7, b8, b9⟩ := below
  have z0 := div240Step_toNat (y := t.t5) b4
  have z1 := div240Step_toNat (y := t.t6) b5
  have z2 := div240Step_toNat (y := t.t7) b6
  have z3 := div240Step_toNat (y := t.t8) b7
  have z4 := div240Step_toNat (y := t.t9) b8
  simp only [evalQ10] at small ⊢
  -- The last limb has 24 bits, all of which are kept.
  constructor
  · constructor <;> simp only [div264] <;> omega
  · simp only [evalQ, div264, z0, z1, z2, z3, z4]
    omega

/-- The residue modulo `2 ^ 264`. -/
theorem mod264_spec : Within56 (mod264 t) ∧ evalQ (mod264 t) = evalQ10 t % 2 ^ 264 := by
  obtain ⟨b0, b1, b2, b3, b4, b5, b6, b7, b8, b9⟩ := below
  have last : (t.t4 &&& 0xffffffffff#64).toNat = t.t4.toNat % 2 ^ 40 := Limbs.toNat_and_mask' 40 (by decide)
  constructor
  · constructor <;> simp only [mod264] <;> omega
  · simp only [evalQ, evalQ10, mod264, last]
    omega

end Division

/-! ### The reduction -/

/-- The reduction drops 248 bits of the number, and 264 bits of the product with the reciprocal. -/
def params : Barrett.Params where
  modulus := q
  low := 2 ^ 248
  high := 2 ^ 264
  low_pos := by decide
  high_pos := by decide +kernel
  close := by decide +kernel
  room := by decide +kernel

theorem evalQ_mu : evalQ mu = params.reciprocal := by decide +kernel

theorem params_modulus : params.modulus = q := rfl

theorem params_low : params.low = 2 ^ 248 := rfl

theorem params_high : params.high = 2 ^ 264 := rfl

/-- The product of two numbers of 264 bits. -/
theorem mul_lt_528 {x y : Nat} (small : x < 2 ^ 264) (small' : y < 2 ^ 264) : x * y < 2 ^ 528 := by
  have weight : 2 ^ 528 = 2 ^ 264 * 2 ^ 264 := by rw [← pow_add]
  rw [weight]
  exact Nat.mul_lt_mul'' small small'

/-- The quotient of a number of 512 bits. -/
theorem div_lt_264 {x : Nat} (small : x < 2 ^ 512) : x / 2 ^ 248 < 2 ^ 264 := by
  have weight : 2 ^ 512 = 2 ^ 248 * 2 ^ 264 := by rw [← pow_add]
  rw [weight] at small
  exact Nat.div_lt_of_lt_mul small

/-- The residue of every number of 512 bits. -/
theorem barrettReduction_spec {t : Qelem10} (below : All10Below56 t) (small : evalQ10 t < 2 ^ 512) :
    ∃ z, barrettReduction t = some z ∧ Within56 z ∧ evalQ z = evalQ10 t % q := by
  -- The quotient is estimated,
  obtain ⟨within1, high⟩ := div248_spec below small
  obtain ⟨qmu, run1, bounds, product⟩ := mul5_spec within1 mu_within
  have small1 : evalQWide qmu < 2 ^ 528 := by
    rw [product, high]
    exact mul_lt_528 (div_lt_264 small) (mu_within.evalQ_lt_264 (by decide))
  obtain ⟨qmu', run2, below', carried⟩ := carry_spec bounds small1
  obtain ⟨within2, estimate⟩ := div264_spec below' (carried.trans_lt small1)
  -- its multiple of the order is taken off,
  obtain ⟨qmul, run3, within3, multiple⟩ := lowMul5_spec within2 m_within
  obtain ⟨within4, low⟩ := mod264_spec below
  have positive : 0 < 2 ^ 264 := by omega
  obtain ⟨s, run4, within5, difference⟩ := subMod264_spec within4 within3
    (by rw [low]; exact Nat.mod_lt _ positive) (by rw [multiple]; exact Nat.mod_lt _ positive)
  -- and the order once more, if it fits.
  obtain ⟨z, run5, within6, residue⟩ := submConditional_spec within5
  have run : barrettReduction t = some z :=
    Checked.bind_run run1 (Checked.bind_run run2 (Checked.bind_run run3 (Checked.bind_run run4 run5)))
  rw [carried, product, high, evalQ_mu] at estimate
  rw [estimate, evalQ_m] at multiple
  rw [low, multiple] at difference
  have reduced := params.reduceOnce_remainder (x := evalQ10 t)
    (by rw [params_low, params_high]; omega)
  rw [Barrett.Params.remainder, Barrett.Params.estimate, params_low, params_high, params_modulus, ← difference,
    Barrett.Params.reduceOnce, params_modulus] at reduced
  exact ⟨z, run, within6, residue.trans reduced⟩

/-- Multiplication modulo the order, of numbers whose product has 512 bits. -/
theorem mulModq_spec {x y : Qelem} (within : Within56 x) (within' : Within56 y) (small : evalQ x * evalQ y < 2 ^ 512) :
    ∃ z, mulModq x y = some z ∧ Within56 z ∧ evalQ z = evalQ x * evalQ y % q := by
  have most : 2 ^ 512 < 2 ^ 528 := by omega
  obtain ⟨w, run1, bounds, product⟩ := mul5_spec within within'
  obtain ⟨t, run2, below, carried⟩ := carry_spec bounds (by rw [product]; exact small.trans most)
  rw [product] at carried
  obtain ⟨z, run3, within'', residue⟩ := barrettReduction_spec below (by rw [carried]; exact small)
  exact ⟨z, Checked.bind_run run1 (Checked.bind_run run2 run3), within'', by rw [residue, carried]⟩

/-- One step of a carry between words keeps their sum by weight. -/
theorem limbCarryStep_spec {x y : BitVec 64} (small : y.toNat < 2 ^ 63) :
    ∃ t z, limbCarryStep x y = some (t, z) ∧ t.toNat < 2 ^ 56 ∧
      x.toNat + 2 ^ 56 * y.toNat = t.toNat + 2 ^ 56 * z.toNat := by
  have above : (x >>> 56).toNat = x.toNat / 2 ^ 56 := by
    rw [BitVec.toNat_ushiftRight, Nat.shiftRight_eq_div_pow]
  have below : (x &&& 0xffffffffffffff#64).toNat = x.toNat % 2 ^ 56 := Limbs.toNat_and_mask' 56 (by decide)
  have bound := x.isLt
  have run : Checked.add y (x >>> 56) = some (y + x >>> 56) := Checked.add_eq (by omega)
  have value : (y + x >>> 56).toNat = y.toNat + (x >>> 56).toNat := Limbs.toNat_add' (by omega)
  refine ⟨x &&& 0xffffffffffffff#64, y + x >>> 56, ?_, by omega, by omega⟩
  simp only [limbCarryStep, run, Option.bind_eq_bind, Option.bind_some, Option.pure_def]

/-- The sum of two limbs. -/
theorem limbSum_spec {x y : BitVec 64} (below : x.toNat < 2 ^ 56) (below' : y.toNat < 2 ^ 56) :
    Checked.add x y = some (x + y) ∧ (x + y).toNat = x.toNat + y.toNat :=
  ⟨Checked.add_eq (by omega), Limbs.toNat_add' (by omega)⟩

/-- Addition modulo the order, of residues. -/
theorem addModq_spec {x y : Qelem} (within : Within56 x) (within' : Within56 y) (small : evalQ x < q)
    (small' : evalQ y < q) : ∃ z, addModq x y = some z ∧ Within56 z ∧ evalQ z = (evalQ x + evalQ y) % q := by
  have order : q < 2 ^ 253 := by decide
  obtain ⟨add0, sum0⟩ := limbSum_spec within.q0 within'.q0
  obtain ⟨add1, sum1⟩ := limbSum_spec within.q1 within'.q1
  obtain ⟨add2, sum2⟩ := limbSum_spec within.q2 within'.q2
  obtain ⟨add3, sum3⟩ := limbSum_spec within.q3 within'.q3
  obtain ⟨add4, sum4⟩ := limbSum_spec within.q4 within'.q4
  obtain ⟨x0, x1, x2, x3, x4⟩ := within
  obtain ⟨y0, y1, y2, y3, y4⟩ := within'
  -- Each limb keeps 56 bits, and the last one takes what is carried to it.
  obtain ⟨t0, z1, step0, small0, value0⟩ := limbCarryStep_spec (x := x.q0 + y.q0) (y := x.q1 + y.q1) (by omega)
  obtain ⟨t1, z2, step1, small1, value1⟩ := limbCarryStep_spec (x := z1) (y := x.q2 + y.q2) (by omega)
  obtain ⟨t2, z3, step2, small2, value2⟩ := limbCarryStep_spec (x := z2) (y := x.q3 + y.q3) (by omega)
  obtain ⟨t3, t4, step3, small3, value3⟩ := limbCarryStep_spec (x := z3) (y := x.q4 + y.q4) (by omega)
  have total : evalQ ⟨t0, t1, t2, t3, t4⟩ = evalQ x + evalQ y := by
    simp only [evalQ]
    omega
  have last : t4.toNat < 2 ^ 56 := by
    simp only [evalQ] at total small small'
    omega
  obtain ⟨z, run, within'', residue⟩ :=
    submConditional_spec (r := ⟨t0, t1, t2, t3, t4⟩) ⟨small0, small1, small2, small3, last⟩
  refine ⟨z, ?_, within'', ?_⟩
  · simp only [addModq, add0, add1, add2, add3, add4, step0, step1, step2, step3, run, Option.bind_eq_bind,
      Option.bind_some]
  · -- The sum is below twice the order.
    have twice : evalQ ⟨t0, t1, t2, t3, t4⟩ < 2 * params.modulus := by
      rw [total, params_modulus]
      omega
    have reduced := params.reduceOnce_eq twice
    rw [Barrett.Params.reduceOnce, params_modulus, total] at reduced
    rw [residue, total, reduced]

/-- Scalars are reduced, multiplied and added modulo the order of the base point; nothing overflows where it is not
meant to. -/
theorem scalars_modulo_order :
    (∀ t : Qelem10, All10Below56 t → evalQ10 t < 2 ^ 512 →
      ∃ z, barrettReduction t = some z ∧ Within56 z ∧ evalQ z = evalQ10 t % q) ∧
    (∀ x y : Qelem, Within56 x → Within56 y → evalQ x < 2 ^ 264 → evalQ y < 2 ^ 264 → evalQ x * evalQ y < 2 ^ 512 →
      ∃ z, mulModq x y = some z ∧ Within56 z ∧ evalQ z = evalQ x * evalQ y % q) ∧
    (∀ x y : Qelem, Within56 x → Within56 y → evalQ x < q → evalQ y < q →
      ∃ z, addModq x y = some z ∧ Within56 z ∧ evalQ z = (evalQ x + evalQ y) % q) :=
  ⟨fun _ below small => barrettReduction_spec below small,
    fun _ _ within within' _ _ small => mulModq_spec within within' small,
    fun _ _ within within' small small' => addModq_spec within within' small small'⟩

theorem scalars_modulo_order_reciprocal :
    ∃ z, mulModq m mu = some z ∧ Within56 z ∧ evalQ z = evalQ m * evalQ mu % q :=
  scalars_modulo_order.2.1 m mu m_within mu_within (m_within.evalQ_lt_264 (by decide))
    (mu_within.evalQ_lt_264 (by decide)) (by decide +kernel)

end HaclStar.Impl.BignumQ
