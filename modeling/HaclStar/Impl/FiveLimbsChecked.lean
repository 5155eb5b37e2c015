import HaclStar.Lib.Checked
import HaclStar.Impl.FiveLimbs

/-! The operations on field elements of five limbs with every sum, product and cast checked. They never fail
within the bounds that the operations keep. -/

namespace HaclStar.Impl.FiveLimbs

variable {w : Nat}

/-- Add limb by limb, with checks. -/
def fsumChecked (a b : Felem w) : Option (Felem w) := do
  let c0 ← Checked.add (a.get limb0) (b.get limb0)
  let c1 ← Checked.add (a.get limb1) (b.get limb1)
  let c2 ← Checked.add (a.get limb2) (b.get limb2)
  let c3 ← Checked.add (a.get limb3) (b.get limb3)
  let c4 ← Checked.add (a.get limb4) (b.get limb4)
  return upd5 c0 c1 c2 c3 c4

/-- Add the multiple of a field element by a limb, with checks; the products of limbs always fit. -/
def sumScalarMultiplicationChecked (output : FelemWide w) (input : Felem w) (s : BitVec w) :
    Option (FelemWide w) := do
  let c0 ← Checked.add (output.get limb0) (mulWide (input.get limb0) s)
  let c1 ← Checked.add (output.get limb1) (mulWide (input.get limb1) s)
  let c2 ← Checked.add (output.get limb2) (mulWide (input.get limb2) s)
  let c3 ← Checked.add (output.get limb3) (mulWide (input.get limb3) s)
  let c4 ← Checked.add (output.get limb4) (mulWide (input.get limb4) s)
  return upd5 c0 c1 c2 c3 c4

/-- Narrow the wide limbs, with checks. -/
def copyFromWideChecked (input : FelemWide w) : Option (Felem w) := do
  let c0 ← Checked.cast w (input.get limb0)
  let c1 ← Checked.cast w (input.get limb1)
  let c2 ← Checked.cast w (input.get limb2)
  let c3 ← Checked.cast w (input.get limb3)
  let c4 ← Checked.cast w (input.get limb4)
  return upd5 c0 c1 c2 c3 c4

namespace Modulo

variable (m : Modulo w)

/-- A limb times the factor, with a check. -/
def timesChecked (x : BitVec w) : Option (BitVec w) :=
  if m.factor * x.toNat < 2 ^ w then some (m.times x) else none

/-- A limb times the factor as a double word, with a check that no bits are lost. -/
def timesWideChecked (x : BitVec w) : Option (BitVec (2 * w)) :=
  if m.factor * x.toNat < 2 ^ w then some (m.timesWide x) else none

/-- Multiply by the limb base, and reduce, with a check. -/
def shiftReduceChecked (output : Felem w) : Option (Felem w) := do
  let tmp ← m.timesChecked (output.get limb4)
  return upd5 tmp (output.get limb0) (output.get limb1) (output.get limb2) (output.get limb3)

/-- One turn of the product, with checks. -/
def mulStepChecked (input2 : Felem w) (i : Fin 5) (state : FelemWide w × Felem w) :
    Option (FelemWide w × Felem w) := do
  let output ← sumScalarMultiplicationChecked state.1 state.2 (input2.get i)
  let input ← m.shiftReduceChecked state.2
  return (output, input)

/-- Multiply by the limbs of the second input, with checks. -/
def mulShiftReduceChecked (output : FelemWide w) (input input2 : Felem w) : Option (FelemWide w) := do
  let state ← m.mulStepChecked input2 limb0 (output, input)
  let state ← m.mulStepChecked input2 limb1 state
  let state ← m.mulStepChecked input2 limb2 state
  let state ← m.mulStepChecked input2 limb3 state
  sumScalarMultiplicationChecked state.1 state.2 (input2.get limb4)

/-- Carry from the bottom to the top limb, with checks; the low bits are those that a function keeps. -/
def carryChecked {n : Nat} (low : BitVec n → BitVec n) (tmp : Felem n) : Option (Felem n) := do
  let t1 ← Checked.add (tmp.get limb1) (tmp.get limb0 >>> m.limbSize)
  let t2 ← Checked.add (tmp.get limb2) (t1 >>> m.limbSize)
  let t3 ← Checked.add (tmp.get limb3) (t2 >>> m.limbSize)
  let t4 ← Checked.add (tmp.get limb4) (t3 >>> m.limbSize)
  return upd5 (low (tmp.get limb0)) (low t1) (low t2) (low t3) t4

/-- Carry from the bottom to the top wide limb, with checks. -/
def carryWideChecked (tmp : FelemWide w) : Option (FelemWide w) := m.carryChecked m.lowWide tmp

/-- Carry from the bottom to the top limb, with checks. -/
def carryLimbChecked (tmp : Felem w) : Option (Felem w) := m.carryChecked (· &&& m.climbMask) tmp

/-- Fold the high bits of the top wide limb to the bottom, with checks. -/
def carryTopWideChecked (b : FelemWide w) : Option (FelemWide w) := do
  let high ← Checked.cast w (b.get limb4 >>> m.limbSize)
  let folded ← m.timesWideChecked high
  let b0' ← Checked.add (b.get limb0) folded
  return upd5 b0' (b.get limb1) (b.get limb2) (b.get limb3) (b.get limb4 &&& limbToWide m.climbMask)

/-- Fold the high bits of the top limb to the bottom, with checks. -/
def carryTopChecked (b : Felem w) : Option (Felem w) := do
  let folded ← m.timesChecked (b.get limb4 >>> m.limbSize)
  let b0' ← Checked.add folded (b.get limb0)
  return upd5 b0' (b.get limb1) (b.get limb2) (b.get limb3) (b.get limb4 &&& m.climbMask)

/-- Carry from the bottom limb to the next one, with a check. -/
def carry0To1Checked (output : Felem w) : Option (Felem w) := do
  let i1' ← Checked.add (output.get limb1) (output.get limb0 >>> m.limbSize)
  return upd5 (output.get limb0 &&& m.climbMask) i1' (output.get limb2) (output.get limb3) (output.get limb4)

/-- Carry, fold and narrow a wide element, with checks. -/
def narrowWideChecked (t : FelemWide w) : Option (Felem w) := do
  let t ← m.carryWideChecked t
  let t ← m.carryTopWideChecked t
  copyFromWideChecked t

/-- Carry, fold and narrow a product, with checks. -/
def reduceWideChecked (t : FelemWide w) : Option (Felem w) := do
  let t ← m.carryWideChecked t
  let t ← m.carryTopWideChecked t
  let output ← copyFromWideChecked t
  m.carry0To1Checked output

/-- Multiply two field elements, with checks. -/
def fmulChecked (input input2 : Felem w) : Option (Felem w) := do
  let t ← m.mulShiftReduceChecked (upd5 0 0 0 0 0) input input2
  m.reduceWideChecked t

end Modulo

/-- Sums of limbs within bounds that fit do not fail. -/
theorem fsumChecked_eq {a b : Felem w} {A B : Nat} (below : Below A a) (below' : Below B b) (fits : A + B ≤ 2 ^ w) :
    fsumChecked a b = some (fsum a b) := by
  have limb (i : Fin 5) : Checked.add (a.get i) (b.get i) = some (a.get i + b.get i) :=
    Checked.add_eq ((Nat.add_lt_add (below i) (below' i)).trans_le fits)
  obtain ⟨a0, a1, a2, a3, a4, rfl⟩ := five a
  obtain ⟨b0, b1, b2, b3, b4, rfl⟩ := five b
  simp only [fsumChecked, limb, Option.bind_eq_bind, Option.bind_some]
  rw [fsum, zipWith_upd5]
  rfl

/-- Multiples do not fail where each sum fits. -/
theorem sumScalarMultiplicationChecked_eq {output : FelemWide w} {input : Felem w} {s : BitVec w}
    (fits : ∀ i, (output.get i).toNat + (input.get i).toNat * s.toNat < 2 ^ (2 * w)) :
    sumScalarMultiplicationChecked output input s = some (sumScalarMultiplication output input s) := by
  have limb (i : Fin 5) : Checked.add (output.get i) (mulWide (input.get i) s) =
      some (output.get i + mulWide (input.get i) s) := Checked.add_eq (by rw [mulWide_toNat]; exact fits i)
  obtain ⟨o0, o1, o2, o3, o4, rfl⟩ := five output
  obtain ⟨i0, i1, i2, i3, i4, rfl⟩ := five input
  simp only [sumScalarMultiplicationChecked, limb, Option.bind_eq_bind, Option.bind_some]
  rw [sumScalarMultiplication, zipWith_upd5]
  rfl

/-- Narrowing does not fail where each limb fits. -/
theorem copyFromWideChecked_eq {input : FelemWide w} (fits : ∀ i, (input.get i).toNat < 2 ^ w) :
    copyFromWideChecked input = some (copyFromWide input) := by
  have limb (i : Fin 5) : Checked.cast w (input.get i) = some (wideToLimb (input.get i)) := Checked.cast_eq (fits i)
  obtain ⟨i0, i1, i2, i3, i4, rfl⟩ := five input
  have narrowed : copyFromWide (upd5 i0 i1 i2 i3 i4) = upd5 (wideToLimb i0) (wideToLimb i1) (wideToLimb i2)
      (wideToLimb i3) (wideToLimb i4) := by
    apply Vector.ext
    intro i inside
    rw [copyFromWide, Vector.getElem_map]
    interval_cases i <;> rfl
  simp only [copyFromWideChecked, limb, Option.bind_eq_bind, Option.bind_some]
  rw [narrowed]
  rfl

namespace Modulo

variable {m : Modulo w} {A B : Nat} {a b : Felem w} {state : FelemWide w × Felem w}

theorem timesChecked_eq {x : BitVec w} (fits : m.factor * x.toNat < 2 ^ w) : m.timesChecked x = some (m.times x) :=
  if_pos fits

theorem timesWideChecked_eq {x : BitVec w} (fits : m.factor * x.toNat < 2 ^ w) :
    m.timesWideChecked x = some (m.timesWide x) := if_pos fits

/-- The sums of a turn fit. -/
theorem Turned.sum_fits {i : Fin 5} (fits : m.Fits A B) (below : Below (B + 1) b) (turned : m.Turned A B a b i state)
    (k : Fin 5) : (state.1.get k).toNat + (state.2.get k).toNat * (b.get i).toNat < 2 ^ (2 * w) := by
  have product : (state.2.get k).toNat * (b.get i).toNat ≤ m.factor * (A * B) := by
    calc (state.2.get k).toNat * (b.get i).toNat ≤ m.factor * A * B :=
          Nat.mul_le_mul (turned.input k) (Nat.le_of_lt_succ (below i))
      _ = m.factor * (A * B) := Nat.mul_assoc _ _ _
  have turns : i.val + 1 ≤ 5 := i.isLt
  calc (state.1.get k).toNat + (state.2.get k).toNat * (b.get i).toNat
      ≤ i * (m.factor * (A * B)) + m.factor * (A * B) := Nat.add_le_add (turned.output k) product
    _ = (i + 1) * (m.factor * (A * B)) := (Nat.succ_mul _ _).symm
    _ ≤ 5 * (m.factor * (A * B)) := Nat.mul_le_mul_right _ turns
    _ < 2 ^ (2 * w - 1) := fits.sum
    _ ≤ 2 ^ (2 * w) := Nat.pow_le_pow_right (by decide) (Nat.sub_le _ _)

/-- A turn does not fail. -/
theorem Turned.stepChecked_eq {i : Fin 5} (fits : m.Fits A B) (below : Below (B + 1) b)
    (turned : m.Turned A B a b i state) : m.mulStepChecked b i state = some (m.mulStep b i state) := by
  have top : m.factor * (state.2.get 4).toNat < 2 ^ w :=
    (Nat.mul_le_mul_left _ (turned.inputHigh 4 (Nat.le_of_lt_succ i.isLt))).trans_lt fits.times
  have moved : m.shiftReduceChecked state.2 = some (m.shiftReduce state.2) := by
    rw [shiftReduceChecked, timesChecked_eq top]
    rfl
  rw [mulStepChecked, sumScalarMultiplicationChecked_eq (turned.sum_fits fits below), moved]
  rfl

/-- The five turns do not fail. -/
theorem mulShiftReduceChecked_eq (fits : m.Fits A B) (below : Below (A + 1) a) (below' : Below (B + 1) b) :
    m.mulShiftReduceChecked (upd5 0 0 0 0 0) a b = some (m.mulShiftReduce (upd5 0 0 0 0 0) a b) := by
  have turned0 := turned_zero (m := m) (B := B) (b := b) below
  have turned1 := turned0.step (i := 0) fits below'
  have turned2 := turned1.step (i := 1) fits below'
  have turned3 := turned2.step (i := 2) fits below'
  have turned4 := turned3.step (i := 3) fits below'
  have step0 := turned0.stepChecked_eq (i := 0) fits below'
  have step1 := turned1.stepChecked_eq (i := 1) fits below'
  have step2 := turned2.stepChecked_eq (i := 2) fits below'
  have step3 := turned3.stepChecked_eq (i := 3) fits below'
  have last := sumScalarMultiplicationChecked_eq (turned4.sum_fits (i := 4) fits below')
  simp only [mulShiftReduceChecked, step0, step1, step2, step3, last, Option.bind_eq_bind, Option.bind_some]
  rfl

/-- A limb with a free bit has room for a carry. -/
theorem addCarry_eq {n size : Nat} {x t : BitVec n} (positive : 0 < size) (fits : t.toNat < 2 ^ (n - 1))
    (enough : 0 < n) : Checked.add t (x >>> size) = some (t + x >>> size) := by
  have room := carry_fits positive x.isLt fits enough
  exact Checked.add_eq (by rwa [BitVec.toNat_ushiftRight, Nat.shiftRight_eq_div_pow])

/-- Carries do not fail when a bit of each limb is free. -/
theorem carryChecked_eq {n : Nat} (enough : 0 < n) (low : BitVec n → BitVec n) {t0 t1 t2 t3 t4 : BitVec n}
    (below : Below (2 ^ (n - 1)) (upd5 t0 t1 t2 t3 t4)) :
    m.carryChecked low (upd5 t0 t1 t2 t3 t4) = some (upd5 (low t0) (low (t1 + t0 >>> m.limbSize))
      (low (t2 + (t1 + t0 >>> m.limbSize) >>> m.limbSize))
      (low (t3 + (t2 + (t1 + t0 >>> m.limbSize) >>> m.limbSize) >>> m.limbSize))
      (t4 + (t3 + (t2 + (t1 + t0 >>> m.limbSize) >>> m.limbSize) >>> m.limbSize) >>> m.limbSize)) := by
  obtain ⟨-, below1, below2, below3, below4⟩ := below_upd5.mp below
  have size := m.limbSize_pos
  show ((Checked.add t1 (t0 >>> m.limbSize)).bind fun u1 => (Checked.add t2 (u1 >>> m.limbSize)).bind fun u2 =>
    (Checked.add t3 (u2 >>> m.limbSize)).bind fun u3 => (Checked.add t4 (u3 >>> m.limbSize)).bind fun u4 =>
    some (upd5 (low t0) (low u1) (low u2) (low u3) u4)) = _
  simp only [addCarry_eq size below1 enough, addCarry_eq size below2 enough, addCarry_eq size below3 enough,
    addCarry_eq size below4 enough, Option.bind_some]

theorem carryWideChecked_eq {t : FelemWide w} (below : Below (2 ^ (2 * w - 1)) t) :
    m.carryWideChecked t = some (m.carryWide t) := by
  have size := m.limbSize_lt
  obtain ⟨t0, t1, t2, t3, t4, rfl⟩ := five t
  exact carryChecked_eq (by omega) m.lowWide below

theorem carryLimbChecked_eq {t : Felem w} (below : Below (2 ^ (w - 1)) t) :
    m.carryLimbChecked t = some (m.carryLimb t) := by
  have size := m.limbSize_lt
  obtain ⟨t0, t1, t2, t3, t4, rfl⟩ := five t
  exact carryChecked_eq (by omega) (· &&& m.climbMask) below

/-- The fold of the top wide limb does not fail where it fits in a word. -/
theorem carryTopWideChecked_eq {t : FelemWide w} {high : Nat} (top : (t.get 4).toNat / 2 ^ m.limbSize ≤ high)
    (fits : 2 ^ m.limbSize + m.factor * high ≤ 2 ^ w) (low : (t.get 0).toNat < 2 ^ m.limbSize) :
    m.carryTopWideChecked t = some (m.carryTopWide t) := by
  have small : 2 ^ w ≤ 2 ^ (2 * w) := Nat.pow_le_pow_right (by decide) (by omega)
  obtain ⟨t0, t1, t2, t3, t4, rfl⟩ := five t
  change t4.toNat / 2 ^ m.limbSize ≤ high at top
  change t0.toNat < 2 ^ m.limbSize at low
  have scaled : m.factor * (t4.toNat / 2 ^ m.limbSize) ≤ m.factor * high := Nat.mul_le_mul_left _ top
  have le : t4.toNat / 2 ^ m.limbSize ≤ m.factor * (t4.toNat / 2 ^ m.limbSize) :=
    Nat.le_mul_of_pos_left _ m.factor_pos
  have positive : 0 < 2 ^ m.limbSize := by positivity
  have shifted : (t4 >>> m.limbSize).toNat = t4.toNat / 2 ^ m.limbSize := by
    rw [BitVec.toNat_ushiftRight, Nat.shiftRight_eq_div_pow]
  have narrow : Checked.cast w (t4 >>> m.limbSize) = some (wideToLimb (t4 >>> m.limbSize)) :=
    Checked.cast_eq (by rw [shifted]; omega)
  have kept : (wideToLimb (t4 >>> m.limbSize)).toNat = t4.toNat / 2 ^ m.limbSize := by
    rw [wideToLimb_toNat, shifted, Nat.mod_eq_of_lt (by omega)]
  have room : m.factor * (wideToLimb (t4 >>> m.limbSize)).toNat < 2 ^ w := by rw [kept]; omega
  have folded := timesWideChecked_eq room
  have product := m.timesWide_toNat _ room
  rw [kept] at product
  have sum : Checked.add t0 (m.timesWide (wideToLimb (t4 >>> m.limbSize))) =
      some (t0 + m.timesWide (wideToLimb (t4 >>> m.limbSize))) := Checked.add_eq (by rw [product]; omega)
  show ((Checked.cast w (t4 >>> m.limbSize)).bind fun high => (m.timesWideChecked high).bind fun folded =>
    (Checked.add t0 folded).bind fun b0' => some (upd5 b0' t1 t2 t3 (t4 &&& limbToWide m.climbMask))) = _
  rw [narrow, Option.bind_some, folded, Option.bind_some, sum]
  rfl

/-- The fold of the top limb does not fail where it fits. -/
theorem carryTopChecked_eq (fits : (a.get 0).toNat + m.factor * ((a.get 4).toNat / 2 ^ m.limbSize) < 2 ^ w) :
    m.carryTopChecked a = some (m.carryTop a) := by
  obtain ⟨a0, a1, a2, a3, a4, rfl⟩ := five a
  change a0.toNat + m.factor * (a4.toNat / 2 ^ m.limbSize) < 2 ^ w at fits
  have shifted : (a4 >>> m.limbSize).toNat = a4.toNat / 2 ^ m.limbSize := by
    rw [BitVec.toNat_ushiftRight, Nat.shiftRight_eq_div_pow]
  have room : m.factor * (a4 >>> m.limbSize).toNat < 2 ^ w := by rw [shifted]; omega
  have product := m.times_toNat _ room
  rw [shifted] at product
  have sum : Checked.add (m.times (a4 >>> m.limbSize)) a0 = some (m.times (a4 >>> m.limbSize) + a0) :=
    Checked.add_eq (by rw [product]; omega)
  show ((m.timesChecked (a4 >>> m.limbSize)).bind fun folded => (Checked.add folded a0).bind fun b0' =>
    some (upd5 b0' a1 a2 a3 (a4 &&& m.climbMask))) = _
  rw [timesChecked_eq room, Option.bind_some, sum]
  rfl

/-- The last carry does not fail where it fits. -/
theorem carry0To1Checked_eq (fits : (a.get 1).toNat + (a.get 0).toNat / 2 ^ m.limbSize < 2 ^ w) :
    m.carry0To1Checked a = some (m.carry0To1 a) := by
  have sum : Checked.add (a.get 1) (a.get 0 >>> m.limbSize) = some (a.get 1 + a.get 0 >>> m.limbSize) :=
    Checked.add_eq (by rw [BitVec.toNat_ushiftRight, Nat.shiftRight_eq_div_pow]; exact fits)
  rw [carry0To1Checked, sum]
  rfl

/-- Carrying, folding and narrowing do not fail. -/
theorem narrowWideChecked_eq {t : FelemWide w} {top : Nat} (room : Below (2 ^ (2 * w - 1)) t)
    (le : (t.get 4).toNat ≤ top)
    (fits : 2 ^ m.limbSize + m.factor * ((top + 2 ^ (2 * w - m.limbSize)) / 2 ^ m.limbSize) ≤ 2 ^ w) :
    m.narrowWideChecked t = some (copyFromWide (m.carryTopWide (m.carryWide t))) := by
  have size := m.limbSize_lt
  have carried := m.carryWide_carried room
  obtain ⟨wide0, wide1, wide2, wide3⟩ := carried.bounds
  have wide4 := carried.top (by omega) room
  have first := carryWideChecked_eq (m := m) room
  set c := m.carryWide t
  have high : (c.get 4).toNat / 2 ^ m.limbSize ≤ (top + 2 ^ (2 * w - m.limbSize)) / 2 ^ m.limbSize :=
    Nat.div_le_div_right (by omega)
  have second := carryTopWideChecked_eq high fits wide0
  obtain ⟨fold0, fold1, fold2, fold3, fold4, -⟩ := m.carryTopWide_spec high fits wide0
  set d := m.carryTopWide c
  have limb : 2 ^ m.limbSize < 2 ^ w := Nat.pow_lt_pow_right (by decide) size
  have narrow (i : Fin 5) : (d.get i).toNat < 2 ^ w := by
    fin_cases i
    · exact fold0.trans_le fits
    · exact (congrArg BitVec.toNat fold1).trans_lt (wide1.trans limb)
    · exact (congrArg BitVec.toNat fold2).trans_lt (wide2.trans limb)
    · exact (congrArg BitVec.toNat fold3).trans_lt (wide3.trans limb)
    · exact fold4.trans limb
  have third := copyFromWideChecked_eq narrow
  simp only [narrowWideChecked, first, second, third, Option.bind_eq_bind, Option.bind_some]

/-- Carrying, folding and narrowing a product do not fail. -/
theorem reduceWideChecked_eq {t : FelemWide w} {top : Nat} (room : Below (2 ^ (2 * w - 1)) t)
    (le : (t.get 4).toNat ≤ top)
    (fits : 2 ^ m.limbSize + m.factor * ((top + 2 ^ (2 * w - m.limbSize)) / 2 ^ m.limbSize) ≤ 2 ^ w) :
    m.reduceWideChecked t = some (m.carry0To1 (copyFromWide (m.carryTopWide (m.carryWide t)))) := by
  have size := m.limbSize_lt
  have split : m.reduceWideChecked t = (m.narrowWideChecked t).bind m.carry0To1Checked := by
    simp only [reduceWideChecked, narrowWideChecked, Option.bind_eq_bind, Option.bind_assoc]
  obtain ⟨-, next, -⟩ := m.narrowWide_spec room le fits
  rw [split, narrowWideChecked_eq room le fits, Option.bind_some]
  set d := copyFromWide (m.carryTopWide (m.carryWide t))
  have carry : (d.get 0).toNat / 2 ^ m.limbSize < 2 ^ (w - m.limbSize) := by
    rw [Nat.div_lt_iff_lt_mul (by positivity), ← Nat.pow_add, Nat.sub_add_cancel size.le]
    exact BitVec.isLt _
  have spare := m.carriedBound_le
  rw [carriedBound] at spare
  exact carry0To1Checked_eq (by omega)

/-- Products of limbs within bounds that fit do not fail. -/
theorem fmulChecked_eq (fits : m.Fits A B) (below : Below (A + 1) a) (below' : Below (B + 1) b) :
    m.fmulChecked a b = some (m.fmul a b) := by
  obtain ⟨output, outputTop, -⟩ := mulShiftReduce_spec fits below below'
  have room : Below (2 ^ (2 * w - 1)) (m.mulShiftReduce (upd5 0 0 0 0 0) a b) :=
    fun i => (output i).trans_lt fits.sum
  rw [fmulChecked, mulShiftReduceChecked_eq fits below below', Option.bind_eq_bind, Option.bind_some,
    reduceWideChecked_eq room outputTop fits.top]
  rfl

end Modulo

end HaclStar.Impl.FiveLimbs
