import HaclStar.Lib.Checked
import HaclStar.Impl.Bignum

/-! The step of the accumulation on 44-bit limbs with every sum, shift and cast checked. -/

namespace HaclStar.Impl.Bignum

open Limbs

/-! The positions of the three limbs, and of a carry. -/

theorem low_lt : 0 < 3 := by decide

theorem middle_lt : 1 < 3 := by decide

theorem high_lt : 2 < 3 := by decide

theorem carry_lt (ctr : Fin 2) : ctr.val < 3 := by omega

theorem carry_succ_lt (ctr : Fin 2) : ctr.val + 1 < 3 := by omega

/-- Add limbs, and fail on an overflow. -/
def addChecked (x y : Limb) : Option Limb := if x.toNat + y.toNat < 2 ^ 64 then some (x + y) else none

/-- Shift a limb to the left, and fail when bits are lost. -/
def shiftLeftChecked (x s : Limb) : Option Limb := if x.toNat * 2 ^ s.toNat < 2 ^ 64 then some (x <<< s) else none

/-- Narrow a wide limb, and fail when bits are lost. -/
def wideToLimbChecked (x : Wide) : Option Limb := if x.toNat < 2 ^ 64 then some (wideToLimb x) else none

/-- Add limb by limb, with checks. -/
def fsumChecked (a b : Felem) : Option Felem := do
  let c0 ← addChecked (getElem a 0 low_lt) (getElem b 0 low_lt)
  let c1 ← addChecked (getElem a 1 middle_lt) (getElem b 1 middle_lt)
  let c2 ← addChecked (getElem a 2 high_lt) (getElem b 2 high_lt)
  return #v[c0, c1, c2]

/-- Multiply the bottom limb by twenty, with checks. -/
def reduceChecked (b : Felem) : Option Felem := do
  let sixteen ← shiftLeftChecked (getElem b 0 low_lt) 4
  let four ← shiftLeftChecked (getElem b 0 low_lt) 2
  let twenty ← addChecked sixteen four
  return b.set 0 twenty low_lt

/-- Multiply by the limb base, and reduce, with checks. -/
def shiftReduceChecked (output : Felem) : Option Felem := reduceChecked (shift output)

/-- Add the multiple of a field element by a limb, with checks; the products of limbs always fit. -/
def sumScalarMultiplicationChecked (output : FelemWide) (input : Felem) (s : Limb) : Option FelemWide := do
  let c0 ← Checked.add (getElem output 0 low_lt) (mulWide (getElem input 0 low_lt) s)
  let c1 ← Checked.add (getElem output 1 middle_lt) (mulWide (getElem input 1 middle_lt) s)
  let c2 ← Checked.add (getElem output 2 high_lt) (mulWide (getElem input 2 high_lt) s)
  return #v[c0, c1, c2]

/-- Multiply by the limbs of the second input, with checks. -/
def mulShiftReduceChecked (output : FelemWide) (input input2 : Felem) : Option FelemWide := do
  let output ← sumScalarMultiplicationChecked output input (getElem input2 0 low_lt)
  let input ← shiftReduceChecked input
  let output ← sumScalarMultiplicationChecked output input (getElem input2 1 middle_lt)
  let input ← shiftReduceChecked input
  sumScalarMultiplicationChecked output input (getElem input2 2 high_lt)

/-- Carry from one wide limb to the next, with a check. -/
def carryWideStepChecked (tmp : FelemWide) (ctr : Fin 2) : Option FelemWide := do
  let tctr := getElem tmp ctr.val (carry_lt ctr)
  let tctrp1 := getElem tmp (ctr.val + 1) (carry_succ_lt ctr)
  let r0 := wideToLimb tctr &&& climbMask
  let sum ← Checked.add tctrp1 (tctr >>> 44)
  let tmp := tmp.set ctr.val (limbToWide r0) (carry_lt ctr)
  return tmp.set (ctr.val + 1) sum (carry_succ_lt ctr)

/-- Carry from the bottom to the top wide limb, with checks. -/
def carryWideChecked (tmp : FelemWide) : Option FelemWide := do
  let tmp ← carryWideStepChecked tmp ⟨0, Nat.two_pos⟩
  carryWideStepChecked tmp ⟨1, Nat.one_lt_two⟩

/-- Fold the high bits of the top wide limb to the bottom, with checks. -/
def carryTopWideChecked (b : FelemWide) : Option FelemWide := do
  let b2 := getElem b 2 high_lt
  let b0 := getElem b 0 low_lt
  let b242 ← wideToLimbChecked (b2 >>> 42)
  let four ← shiftLeftChecked b242 2
  let five ← addChecked four b242
  let b0' ← Checked.add b0 (limbToWide five)
  let b := b.set 2 (b2 &&& mask242Wide) high_lt
  return b.set 0 b0' low_lt

/-- Narrow the wide limbs, with checks. -/
def copyFromWideChecked (input : FelemWide) : Option Felem := do
  let c0 ← wideToLimbChecked (getElem input 0 low_lt)
  let c1 ← wideToLimbChecked (getElem input 1 middle_lt)
  let c2 ← wideToLimbChecked (getElem input 2 high_lt)
  return #v[c0, c1, c2]

/-- Carry from the bottom limb to the middle one, with a check. -/
def carry0To1Checked (output : Felem) : Option Felem := do
  let i1' ← addChecked (getElem output 1 middle_lt) ((getElem output 0 low_lt) >>> 44)
  let output' := output.set 0 (getElem output 0 low_lt &&& climbMask) low_lt
  return output'.set 1 i1' middle_lt

/-- Multiply two field elements, with checks. -/
def fmulChecked (input input2 : Felem) : Option Felem := do
  let t ← mulShiftReduceChecked (Vector.replicate 3 0) input input2
  let t ← carryWideChecked t
  let t ← carryTopWideChecked t
  let output ← copyFromWideChecked t
  carry0To1Checked output

/-- Add a block to the accumulator, and multiply by the key, with checks. -/
def addAndMultiplyChecked (acc block r : Felem) : Option Felem := do
  let acc ← fsumChecked acc block
  fmulChecked acc r

theorem addChecked_eq {x y : Limb} (fits : x.toNat + y.toNat < 2 ^ 64) : addChecked x y = some (x + y) := if_pos fits

theorem shiftLeftChecked_eq {x s : Limb} (fits : x.toNat * 2 ^ s.toNat < 2 ^ 64) :
    shiftLeftChecked x s = some (x <<< s) := if_pos fits

theorem wideToLimbChecked_eq {x : Wide} (fits : x.toNat < 2 ^ 64) : wideToLimbChecked x = some (wideToLimb x) :=
  if_pos fits

/-- A field element is its three limbs. -/
theorem three {α : Type} (a : Vector α 3) :
    a = #v[getElem a 0 low_lt, getElem a 1 middle_lt, getElem a 2 high_lt] := by
  apply Vector.ext
  intro i inside
  interval_cases i <;> rfl

variable {a b : Felem}

theorem fsumChecked_eq (bound : Red45 a) (bound' : Red44 b) : fsumChecked a b = some (fsum a b) := by
  obtain ⟨a0, a1, a2⟩ := bound
  obtain ⟨b0, b1, b2⟩ := bound'
  have sum : fsum a b = #v[a[0] + b[0], a[1] + b[1], a[2] + b[2]] := by
    rw [three (fsum a b)]
    simp only [fsum, Vector.getElem_zipWith]
  rw [fsumChecked, addChecked_eq (x := a[0]) (by omega), addChecked_eq (x := a[1]) (by omega),
    addChecked_eq (x := a[2]) (by omega), sum]
  rfl

/-- The multiplication by twenty does not fail where it fits. -/
theorem shiftReduceChecked_eq (fits : 20 * (getElem a 2 high_lt).toNat < 2 ^ 64) :
    shiftReduceChecked a = some (shiftReduce a) := by
  have top : (shift a)[0] = a[2] := by simp [shift]
  have sixteen : ((shift a)[0] <<< 4).toNat = a[2].toNat * 2 ^ 4 % 2 ^ 64 := by
    rw [top, toNat_shiftLeft 4 rfl (by omega)]
  have four : ((shift a)[0] <<< 2).toNat = a[2].toNat * 2 ^ 2 % 2 ^ 64 := by
    rw [top, toNat_shiftLeft 2 rfl (by omega)]
  rw [shiftReduceChecked, reduceChecked,
    shiftLeftChecked_eq (x := (shift a)[0]) (s := 4) (by rw [top]; show a[2].toNat * 2 ^ 4 < 2 ^ 64; omega),
    shiftLeftChecked_eq (x := (shift a)[0]) (s := 2) (by rw [top]; show a[2].toNat * 2 ^ 2 < 2 ^ 64; omega),
    Option.bind_eq_bind, Option.bind_some, Option.bind_some, addChecked_eq (by rw [sixteen, four]; omega)]
  rfl

/-- Multiples do not fail where each sum fits. -/
theorem sumScalarMultiplicationChecked_eq (output : FelemWide) (input : Felem) (s : Limb)
    (fits0 : (getElem output 0 low_lt).toNat + (getElem input 0 low_lt).toNat * s.toNat < 2 ^ 128)
    (fits1 : (getElem output 1 middle_lt).toNat + (getElem input 1 middle_lt).toNat * s.toNat < 2 ^ 128)
    (fits2 : (getElem output 2 high_lt).toNat + (getElem input 2 high_lt).toNat * s.toNat < 2 ^ 128) :
    sumScalarMultiplicationChecked output input s = some (sumScalarMultiplication output input s) := by
  have sum : sumScalarMultiplication output input s = #v[output[0] + mulWide input[0] s,
      output[1] + mulWide input[1] s, output[2] + mulWide input[2] s] := by
    rw [three (sumScalarMultiplication output input s)]
    simp only [sumScalarMultiplication, Vector.getElem_zipWith]
  rw [sumScalarMultiplicationChecked, Checked.add_eq (x := output[0]) (by rwa [mulWide_toNat]),
    Checked.add_eq (x := output[1]) (by rwa [mulWide_toNat]), Checked.add_eq (x := output[2]) (by rwa [mulWide_toNat]),
    sum]
  rfl

/-- The three turns of the product do not fail. -/
theorem mulShiftReduceChecked_eq (bound : Bounds a (2 ^ 46) (2 ^ 46) (2 ^ 46)) (bound' : Red44 b) :
    mulShiftReduceChecked #v[0, 0, 0] a b = some (mulShiftReduce #v[0, 0, 0] a b) := by
  obtain ⟨t0, t1, t2⟩ := mulShiftReduce_toNat bound bound'
  obtain ⟨a0, a1, a2⟩ := bound
  obtain ⟨b0, b1, b2⟩ := bound'
  obtain ⟨once0, once1, once2⟩ := shiftReduce_toNat (a := a) (by omega)
  obtain ⟨twice0, twice1, twice2⟩ := shiftReduce_toNat (a := shiftReduce a) (by rw [once2]; omega)
  rw [once2] at twice0
  rw [once1] at twice2
  have p00 := product_lt a0 b0
  have p01 := product_lt a0 b1
  have p02 := product_lt a0 b2
  have p10 := product_lt a1 b0
  have p11 := product_lt a1 b1
  have p12 := product_lt a1 b2
  have p20 := product_lt a2 b0
  have p21 := product_lt a2 b1
  have p22 := product_lt a2 b2
  have zero (i : Nat) (inside : i < 3) : (#v[0, 0, 0] : FelemWide)[i].toNat = 0 := by
    interval_cases i <;> rfl
  have first (i : Nat) (inside : i < 3) (fits : a[i].toNat * b[0].toNat < 2 ^ 90) :
      (sumScalarMultiplication #v[0, 0, 0] a b[0])[i].toNat = a[i].toNat * b[0].toNat := by
    rw [sumScalarMultiplication_toNat _ _ _ inside (by rw [zero i inside]; omega), zero i inside, Nat.zero_add]
  have first0 := first 0 (by omega) p00
  have first1 := first 1 (by omega) p10
  have first2 := first 2 (by omega) p20
  have turn0 := sumScalarMultiplicationChecked_eq #v[0, 0, 0] a b[0]
    (by rw [zero 0 (by omega)]; omega) (by rw [zero 1 (by omega)]; omega) (by rw [zero 2 (by omega)]; omega)
  have moved0 := shiftReduceChecked_eq (a := a) (by omega)
  have turn1 := sumScalarMultiplicationChecked_eq (sumScalarMultiplication #v[0, 0, 0] a b[0])
    (shiftReduce a) b[1] (by rw [first0, once0, Nat.mul_assoc]; omega)
    (by rw [first1, once1]; omega) (by rw [first2, once2]; omega)
  have moved1 := shiftReduceChecked_eq (a := shiftReduce a) (by rw [once2]; omega)
  have second0 := sumScalarMultiplication_toNat (sumScalarMultiplication #v[0, 0, 0] a b[0])
    (shiftReduce a) b[1] (i := 0) (by omega) (by rw [first0, once0, Nat.mul_assoc]; omega)
  have second1 := sumScalarMultiplication_toNat (sumScalarMultiplication #v[0, 0, 0] a b[0])
    (shiftReduce a) b[1] (i := 1) (by omega) (by rw [first1, once1]; omega)
  have second2 := sumScalarMultiplication_toNat (sumScalarMultiplication #v[0, 0, 0] a b[0])
    (shiftReduce a) b[1] (i := 2) (by omega) (by rw [first2, once2]; omega)
  rw [first0, once0, Nat.mul_assoc] at second0
  rw [first1, once1] at second1
  rw [first2, once2] at second2
  have turn2 := sumScalarMultiplicationChecked_eq
    (sumScalarMultiplication (sumScalarMultiplication #v[0, 0, 0] a b[0]) (shiftReduce a) b[1])
    (shiftReduce (shiftReduce a)) b[2] (by rw [second0, twice0, Nat.mul_assoc]; omega)
    (by rw [second1, twice1, once0, Nat.mul_assoc]; omega) (by rw [second2, twice2]; omega)
  simp only [mulShiftReduceChecked, turn0, moved0, turn1, moved1, turn2, Option.bind_eq_bind, Option.bind_some]
  rfl

/-- A wide carry does not fail where it fits. -/
theorem carryWideStepChecked_eq (t : FelemWide) (ctr : Fin 2)
    (fits : (getElem t (ctr.val + 1) (carry_succ_lt ctr)).toNat +
      (getElem t ctr.val (carry_lt ctr)).toNat / 2 ^ 44 < 2 ^ 128) :
    carryWideStepChecked t ctr = some (carryWideStep t ctr) := by
  have sum : Checked.add t[ctr.val + 1] (t[ctr.val] >>> 44) = some (t[ctr.val + 1] + t[ctr.val] >>> 44) :=
    Checked.add_eq (by rwa [BitVec.toNat_ushiftRight, Nat.shiftRight_eq_div_pow])
  simp only [carryWideStepChecked, sum, Option.bind_eq_bind, Option.bind_some]
  rfl

theorem carryWideChecked_eq {t : FelemWide} (bound0 : (getElem t 0 low_lt).toNat < 2 ^ 96)
    (bound1 : (getElem t 1 middle_lt).toNat < 2 ^ 96) (bound2 : (getElem t 2 high_lt).toNat < 2 ^ 96) : carryWideChecked t = some (carryWide t) := by
  have fits : t[1].toNat + t[0].toNat / 2 ^ 44 < 2 ^ 128 := by omega
  obtain ⟨-, low1⟩ := carryWideStep_toNat t 0 fits
  have low2 : (carryWideStep t 0)[2] = t[2] := by simp [carryWideStep]
  change (carryWideStep t 0)[1].toNat = t[1].toNat + t[0].toNat / 2 ^ 44 at low1
  have fits' : (carryWideStep t 0)[2].toNat + (carryWideStep t 0)[1].toNat / 2 ^ 44 < 2 ^ 128 := by
    rw [low2, low1]
    omega
  have step : carryWideStepChecked t ⟨0, Nat.two_pos⟩ = some (carryWideStep t 0) :=
    carryWideStepChecked_eq t 0 fits
  have step' : carryWideStepChecked (carryWideStep t 0) ⟨1, Nat.one_lt_two⟩ = some (carryWide t) :=
    carryWideStepChecked_eq (carryWideStep t 0) 1 fits'
  rw [carryWideChecked, step, Option.bind_eq_bind, Option.bind_some, step']

/-- The fold of the top wide limb does not fail. -/
theorem carryTopWideChecked_eq {t : FelemWide} (bound0 : (getElem t 0 low_lt).toNat < 2 ^ 44)
    (bound2 : (getElem t 2 high_lt).toNat < 2 ^ 97) : carryTopWideChecked t = some (carryTopWide t) := by
  have shifted : (t[2] >>> 42).toNat = t[2].toNat / 2 ^ 42 := by
    rw [BitVec.toNat_ushiftRight, Nat.shiftRight_eq_div_pow]
  have high : (wideToLimb (t[2] >>> 42)).toNat = t[2].toNat / 2 ^ 42 := by
    rw [wideToLimb_toNat, shifted]
    omega
  have five := five_toNat (x := wideToLimb (t[2] >>> 42)) (by rw [high]; omega)
  rw [high] at five
  have four : (wideToLimb (t[2] >>> 42) <<< 2).toNat = t[2].toNat / 2 ^ 42 * 2 ^ 2 % 2 ^ 64 := by
    rw [toNat_shiftLeft 2 rfl (by omega), high]
  have cast := wideToLimbChecked_eq (x := t[2] >>> 42) (by rw [shifted]; omega)
  have shift := shiftLeftChecked_eq (x := wideToLimb (t[2] >>> 42)) (s := 2)
    (by rw [high]; show t[2].toNat / 2 ^ 42 * 2 ^ 2 < 2 ^ 64; omega)
  have sum := addChecked_eq (x := wideToLimb (t[2] >>> 42) <<< 2) (y := wideToLimb (t[2] >>> 42))
    (by rw [four, high]; omega)
  have total := Checked.add_eq (x := t[0])
    (y := limbToWide ((wideToLimb (t[2] >>> 42) <<< 2) + wideToLimb (t[2] >>> 42)))
    (by rw [limbToWide_toNat, five]; omega)
  simp only [carryTopWideChecked, cast, shift, sum, total, Option.bind_eq_bind, Option.bind_some]
  rfl

/-- Multiplication of a sum by the key does not fail. -/
theorem fmulChecked_eq (bound : Bounds a (2 ^ 46) (2 ^ 46) (2 ^ 46)) (bound' : Red44 b) :
    fmulChecked a b = some (fmul a b) := by
  have product : mulShiftReduceChecked (Vector.replicate 3 0) a b = some (mulShiftReduce #v[0, 0, 0] a b) :=
    mulShiftReduceChecked_eq bound bound'
  obtain ⟨t0, t1, t2⟩ := mulShiftReduce_toNat bound bound'
  obtain ⟨a0, a1, a2⟩ := bound
  obtain ⟨b0, b1, b2⟩ := bound'
  have result : fmul a b = carry0To1 (copyFromWide (carryTopWide (carryWide (mulShiftReduce #v[0, 0, 0] a b)))) := rfl
  set t := mulShiftReduce #v[0, 0, 0] a b
  have p00 := product_lt a0 b0
  have p01 := product_lt a0 b1
  have p02 := product_lt a0 b2
  have p10 := product_lt a1 b0
  have p11 := product_lt a1 b1
  have p12 := product_lt a1 b2
  have p20 := product_lt a2 b0
  have p21 := product_lt a2 b1
  have p22 := product_lt a2 b2
  have carries := carryWideChecked_eq (t := t) (by omega) (by omega) (by omega)
  obtain ⟨wide0, wide1, wide2, -⟩ := carryWide_toNat (t := t) (by omega) (by omega) (by omega)
  have fold := carryTopWideChecked_eq wide0 wide2
  obtain ⟨top0, top1, top2⟩ := carryTopWide_toNat wide0 wide2
  set d := carryTopWide (carryWide t)
  have fits0 : d[0].toNat < 2 ^ 64 := by omega
  have fits1 : d[1].toNat < 2 ^ 64 := by rw [top1]; omega
  have fits2 : d[2].toNat < 2 ^ 64 := by omega
  have narrowed : copyFromWide d = #v[wideToLimb d[0], wideToLimb d[1], wideToLimb d[2]] := by
    rw [three (copyFromWide d)]
    simp only [copyFromWide, Vector.getElem_map]
  have narrow : copyFromWideChecked d = some (copyFromWide d) := by
    rw [copyFromWideChecked, wideToLimbChecked_eq fits0, wideToLimbChecked_eq fits1, wideToLimbChecked_eq fits2,
      narrowed]
    rfl
  have last0 : (copyFromWide d)[0].toNat = d[0].toNat := by
    rw [copyFromWide, Vector.getElem_map, wideToLimb_toNat, Nat.mod_eq_of_lt fits0]
  have last1 : (copyFromWide d)[1].toNat = d[1].toNat := by
    rw [copyFromWide, Vector.getElem_map, wideToLimb_toNat, Nat.mod_eq_of_lt fits1]
  have shifted : ((copyFromWide d)[0] >>> 44).toNat = (copyFromWide d)[0].toNat / 2 ^ 44 :=
    toNat_shiftRight 44 rfl (by omega)
  have carry : carry0To1Checked (copyFromWide d) = some (carry0To1 (copyFromWide d)) := by
    rw [carry0To1Checked, addChecked_eq (by rw [shifted, last0, last1, top1]; omega)]
    rfl
  simp only [fmulChecked, product, carries, fold, narrow, carry, result, Option.bind_eq_bind, Option.bind_some]

/-- No step of the accumulation overflows. -/
theorem addAndMultiplyChecked_eq {acc block r : Felem} (bound : Red45 acc) (bound' : Red44 block) (bound'' : Red44 r) :
    addAndMultiplyChecked acc block r = some (addAndMultiply acc block r) := by
  rw [addAndMultiplyChecked, fsumChecked_eq bound bound', Option.bind_eq_bind, Option.bind_some,
    fmulChecked_eq (fsum_spec bound bound').1 bound'']
  rfl

end HaclStar.Impl.Bignum
