import HaclStar.Lib.Limbs

/-! Arithmetic modulo `2 ^ 130 - 5` on three limbs of 44, 44 and 42 bits in 64-bit words. -/

namespace HaclStar.Impl.Bignum

open Limbs

abbrev Limb := UInt64

/-- A double word, which holds the products of limbs. -/
abbrev Wide := BitVec 128

/-- A field element. -/
abbrev Felem := Vector Limb 3

/-- A field element with wide limbs. -/
abbrev FelemWide := Vector Wide 3

def limbToWide (x : Limb) : Wide := x.toBitVec.setWidth 128

def wideToLimb (x : Wide) : Limb := UInt64.ofBitVec (x.setWidth 64)

/-- The full product of two limbs. -/
def mulWide (a b : Limb) : Wide := limbToWide a * limbToWide b

/-- Ones when the limbs are equal. -/
def eqMask (a b : Limb) : Limb := if a = b then 0xffffffffffffffff else 0

/-- Ones when the first limb is at least the second. -/
def gteMask (a b : Limb) : Limb := if a ≥ b then 0xffffffffffffffff else 0

/-- Forty-four ones. -/
def climbMask : Limb := 0xfffffffffff

/-- Forty-two ones. -/
def mask242Limb : Limb := 0x3ffffffffff

/-- Forty-two ones, as a wide limb. -/
def mask242Wide : Wide := limbToWide mask242Limb

/-- Add limb by limb. -/
def fsum (a b : Felem) : Felem := Vector.zipWith (· + ·) a b

/-- Move each limb up, and the top one to the bottom. -/
def shift (output : Felem) : Felem :=
  let tmp := output[2]
  let output := output.set 2 output[1]
  let output := output.set 1 output[0]
  output.set 0 tmp

/-- Multiply the bottom limb by twenty. -/
def reduce (b : Felem) : Felem :=
  let b0 := b[0]
  b.set 0 ((b0 <<< 4) + (b0 <<< 2))

/-- Multiply by the limb base, and reduce. -/
def shiftReduce (output : Felem) : Felem := reduce (shift output)

/-- Add the multiple of a field element by a limb. -/
def sumScalarMultiplication (output : FelemWide) (input : Felem) (s : Limb) : FelemWide :=
  Vector.zipWith (fun x y => x + mulWide y s) output input

/-- Multiply by the limbs of the second input, one after another. -/
def mulShiftReduce (output : FelemWide) (input input2 : Felem) : FelemWide :=
  let output := sumScalarMultiplication output input input2[0]
  let input := shiftReduce input
  let output := sumScalarMultiplication output input input2[1]
  let input := shiftReduce input
  sumScalarMultiplication output input input2[2]

/-- Carry from one wide limb to the next. -/
def carryWideStep (tmp : FelemWide) (ctr : Fin 2) : FelemWide :=
  let tctr := tmp[ctr.val]
  let tctrp1 := tmp[ctr.val + 1]
  let r0 := wideToLimb tctr &&& climbMask
  let c := tctr >>> 44
  let tmp := tmp.set ctr.val (limbToWide r0)
  tmp.set (ctr.val + 1) (tctrp1 + c)

/-- Carry from the bottom to the top wide limb. -/
def carryWide (tmp : FelemWide) : FelemWide := carryWideStep (carryWideStep tmp 0) 1

/-- Fold the high bits of the top wide limb to the bottom. -/
def carryTopWide (b : FelemWide) : FelemWide :=
  let b2 := b[2]
  let b0 := b[0]
  let b2' := b2 &&& mask242Wide
  let b242 := wideToLimb (b2 >>> 42)
  let b0' := b0 + limbToWide ((b242 <<< 2) + b242)
  let b := b.set 2 b2'
  b.set 0 b0'

/-- Narrow the wide limbs. -/
def copyFromWide (input : FelemWide) : Felem := input.map wideToLimb

/-- Carry from the bottom limb to the middle one. -/
def carry0To1 (output : Felem) : Felem :=
  let i0 := output[0]
  let i1 := output[1]
  let i0' := i0 &&& climbMask
  let i1' := i1 + (i0 >>> 44)
  let output := output.set 0 i0'
  output.set 1 i1'

/-- Multiply two field elements. -/
def fmul (input input2 : Felem) : Felem :=
  let t : FelemWide := #v[0, 0, 0]
  let t := mulShiftReduce t input input2
  let t := carryWide t
  let t := carryTopWide t
  let output := copyFromWide t
  carry0To1 output

/-- Add a block to the accumulator, and multiply by the key. -/
def addAndMultiply (acc block r : Felem) : Felem :=
  let acc := fsum acc block
  fmul acc r

/-- Carry from one limb to the next. -/
def carryLimbStep (tmp : Felem) (ctr : Fin 2) : Felem :=
  let tctr := tmp[ctr.val]
  let tctrp1 := tmp[ctr.val + 1]
  let r0 := tctr &&& climbMask
  let c := tctr >>> 44
  let tmp := tmp.set ctr.val r0
  tmp.set (ctr.val + 1) (tctrp1 + c)

/-- Carry from the bottom to the top limb. -/
def carryLimb (tmp : Felem) : Felem := carryLimbStep (carryLimbStep tmp 0) 1

/-- Fold the high bits of the top limb to the bottom. -/
def carryTop (b : Felem) : Felem :=
  let b2 := b[2]
  let b0 := b[0]
  let b242 := b2 >>> 42
  let b := b.set 2 (b2 &&& mask242Limb)
  b.set 0 (((b242 <<< 2) + b242) + b0)

/-- The modulus. -/
def prime : Nat := 2 ^ 130 - 5

/-- The value of a field element. -/
def seval (a : Felem) : Nat := value 44 [a[0].toNat, a[1].toNat, a[2].toNat]

/-- Strict bounds on the three limbs. -/
structure Bounds (a : Felem) (s0 s1 s2 : Nat) : Prop where
  limb0 : a[0].toNat < s0
  limb1 : a[1].toNat < s1
  limb2 : a[2].toNat < s2

/-- Every limb has at most 44 bits. -/
def Red44 (a : Felem) : Prop := Bounds a (2 ^ 44) (2 ^ 44) (2 ^ 44)

/-- Every limb has at most 45 bits. -/
def Red45 (a : Felem) : Prop := Bounds a (2 ^ 45) (2 ^ 45) (2 ^ 45)

/-- The value is the weighted sum of the limbs. -/
theorem seval_eq (a : Felem) :
    seval a = a[0].toNat + 2 ^ 44 * a[1].toNat + 2 ^ 88 * a[2].toNat := value_three 44 _ _ _

@[simp] theorem limbToWide_toNat (x : Limb) : (limbToWide x).toNat = x.toNat := by
  have bound := x.toNat_lt
  simp only [limbToWide, BitVec.toNat_setWidth, UInt64.toNat_toBitVec]
  omega

@[simp] theorem wideToLimb_toNat (x : Wide) : (wideToLimb x).toNat = x.toNat % 2 ^ 64 := by
  simp [wideToLimb]

@[simp] theorem mulWide_toNat (a b : Limb) : (mulWide a b).toNat = a.toNat * b.toNat := by
  -- The product of two 64-bit numbers has at most 128 bits.
  have fits : a.toNat * b.toNat < 2 ^ 64 * 2 ^ 64 := Nat.mul_lt_mul'' a.toNat_lt b.toNat_lt
  rw [mulWide, BitVec.toNat_mul, limbToWide_toNat, limbToWide_toNat]
  exact Nat.mod_eq_of_lt fits

@[simp] theorem climbMask_toNat (x : Limb) : (x &&& climbMask).toNat = x.toNat % 2 ^ 44 :=
  toNat_and_mask 44 rfl

@[simp] theorem mask242Limb_toNat (x : Limb) : (x &&& mask242Limb).toNat = x.toNat % 2 ^ 42 :=
  toNat_and_mask 42 rfl

@[simp] theorem mask242Wide_toNat (x : Wide) : (x &&& mask242Wide).toNat = x.toNat % 2 ^ 42 :=
  toNat_and_mask' 42 rfl

/-- Limbs below `2 ^ 45` and `2 ^ 44` add without overflow. -/
theorem fsum_spec {a b : Felem} (bound : Red45 a) (bound' : Red44 b) :
    Bounds (fsum a b) (2 ^ 46) (2 ^ 46) (2 ^ 46) ∧ seval (fsum a b) = seval a + seval b := by
  obtain ⟨a0, a1, a2⟩ := bound
  obtain ⟨b0, b1, b2⟩ := bound'
  have limb (i : Nat) (inside : i < 3) : (fsum a b)[i] = a[i] + b[i] := by
    simp only [fsum, Vector.getElem_zipWith]
  have sum0 : (fsum a b)[0].toNat = a[0].toNat + b[0].toNat := by
    rw [limb 0, toNat_add (by omega)]
  have sum1 : (fsum a b)[1].toNat = a[1].toNat + b[1].toNat := by
    rw [limb 1, toNat_add (by omega)]
  have sum2 : (fsum a b)[2].toNat = a[2].toNat + b[2].toNat := by
    rw [limb 2, toNat_add (by omega)]
  refine ⟨⟨by omega, by omega, by omega⟩, ?_⟩
  rw [seval_eq, seval_eq, seval_eq, sum0, sum1, sum2]
  omega

/-- Shifting a limb left by four and by two multiplies it by twenty when the result fits. -/
theorem twenty_toNat {x : Limb} (fits : 20 * x.toNat < 2 ^ 64) :
    ((x <<< 4) + (x <<< 2)).toNat = 20 * x.toNat := by
  rw [UInt64.toNat_add, toNat_shiftLeft 4 rfl (by omega), toNat_shiftLeft 2 rfl (by omega)]
  omega

/-- Shifting a limb left by two and adding it multiplies it by five when the result fits. -/
theorem five_toNat {x : Limb} (fits : 5 * x.toNat < 2 ^ 64) :
    ((x <<< 2) + x).toNat = 5 * x.toNat := by
  rw [UInt64.toNat_add, toNat_shiftLeft 2 rfl (by omega)]
  omega

/-- The limbs move up, and the top one comes back multiplied by twenty. -/
theorem shiftReduce_toNat {a : Felem} (fits : 20 * a[2].toNat < 2 ^ 64) :
    (shiftReduce a)[0].toNat = 20 * a[2].toNat ∧ (shiftReduce a)[1] = a[0] ∧
      (shiftReduce a)[2] = a[1] := by
  have twenty := twenty_toNat fits
  refine ⟨?_, ?_, ?_⟩ <;> simp [shiftReduce, reduce, shift, twenty]

/-- Adding a multiple adds the products of the limbs when the sums fit. -/
theorem sumScalarMultiplication_toNat (output : FelemWide) (input : Felem) (s : Limb) {i : Nat}
    (inside : i < 3) (fits : output[i].toNat + input[i].toNat * s.toNat < 2 ^ 128) :
    (sumScalarMultiplication output input s)[i].toNat =
      output[i].toNat + input[i].toNat * s.toNat := by
  simp only [sumScalarMultiplication, Vector.getElem_zipWith]
  rw [toNat_add' (by rwa [mulWide_toNat]), mulWide_toNat]

/-- The product of limbs of 46 and 44 bits has at most ninety bits. -/
theorem product_lt {x y : Nat} (below : x < 2 ^ 46) (below' : y < 2 ^ 44) : x * y < 2 ^ 90 :=
  calc x * y < 2 ^ 46 * 2 ^ 44 := Nat.mul_lt_mul'' below below'
    _ = 2 ^ 90 := by norm_num

/-- The wide limbs of a product: products of limbs, those that wrap around multiplied by twenty. -/
theorem mulShiftReduce_toNat {a b : Felem} (bound : Bounds a (2 ^ 46) (2 ^ 46) (2 ^ 46))
    (bound' : Red44 b) :
    (mulShiftReduce #v[0, 0, 0] a b)[0].toNat = a[0].toNat * b[0].toNat +
      20 * (a[2].toNat * b[1].toNat) + 20 * (a[1].toNat * b[2].toNat) ∧
    (mulShiftReduce #v[0, 0, 0] a b)[1].toNat = a[1].toNat * b[0].toNat +
      a[0].toNat * b[1].toNat + 20 * (a[2].toNat * b[2].toNat) ∧
    (mulShiftReduce #v[0, 0, 0] a b)[2].toNat = a[2].toNat * b[0].toNat +
      a[1].toNat * b[1].toNat + a[0].toNat * b[2].toNat := by
  obtain ⟨a0, a1, a2⟩ := bound
  obtain ⟨b0, b1, b2⟩ := bound'
  obtain ⟨once0, once1, once2⟩ := shiftReduce_toNat (a := a) (by omega)
  obtain ⟨twice0, twice1, twice2⟩ := shiftReduce_toNat (a := shiftReduce a) (by rw [once2]; omega)
  rw [once2] at twice0
  rw [once1] at twice2
  have p00 := product_lt a0 b0
  have p01 := product_lt a0 b1
  have p02 := product_lt a0 b2
  have p10 := product_lt a1 b0
  have p11 := product_lt a1 b1
  have p12 := product_lt a1 b2
  have p20 := product_lt a2 b0
  have p21 := product_lt a2 b1
  have p22 := product_lt a2 b2
  have zero (i : Nat) (inside : i < 3) : (#v[0, 0, 0] : FelemWide)[i].toNat = 0 := by
    interval_cases i <;> rfl
  have first (i : Nat) (inside : i < 3) (fits : a[i].toNat * b[0].toNat < 2 ^ 90) :
      (sumScalarMultiplication #v[0, 0, 0] a b[0])[i].toNat = a[i].toNat * b[0].toNat := by
    rw [sumScalarMultiplication_toNat _ _ _ inside (by rw [zero i inside]; omega), zero i inside,
      Nat.zero_add]
  have first0 := first 0 (by omega) p00
  have first1 := first 1 (by omega) p10
  have first2 := first 2 (by omega) p20
  have second0 := sumScalarMultiplication_toNat (sumScalarMultiplication #v[0, 0, 0] a b[0])
    (shiftReduce a) b[1] (i := 0) (by omega)
    (by rw [first0, once0, Nat.mul_assoc]; omega)
  have second1 := sumScalarMultiplication_toNat (sumScalarMultiplication #v[0, 0, 0] a b[0])
    (shiftReduce a) b[1] (i := 1) (by omega) (by rw [first1, once1]; omega)
  have second2 := sumScalarMultiplication_toNat (sumScalarMultiplication #v[0, 0, 0] a b[0])
    (shiftReduce a) b[1] (i := 2) (by omega) (by rw [first2, once2]; omega)
  rw [first0, once0, Nat.mul_assoc] at second0
  rw [first1, once1] at second1
  rw [first2, once2] at second2
  refine ⟨?_, ?_, ?_⟩
  · rw [mulShiftReduce, sumScalarMultiplication_toNat _ _ _ (by omega)
      (by rw [second0, twice0, Nat.mul_assoc]; omega), second0, twice0, Nat.mul_assoc]
  · rw [mulShiftReduce, sumScalarMultiplication_toNat _ _ _ (by omega)
      (by rw [second1, twice1, once0, Nat.mul_assoc]; omega), second1, twice1, once0, Nat.mul_assoc]
  · rw [mulShiftReduce, sumScalarMultiplication_toNat _ _ _ (by omega)
      (by rw [second2, twice2]; omega), second2, twice2]

/-- The modulus lets the weight `2 ^ 130` count as five. -/
theorem top_wraps : 2 ^ 88 * 2 ^ 42 ≡ 5 [MOD prime] := by decide +kernel

/-- A product of values, with the limbs that wrap around multiplied by twenty. -/
theorem product_modEq (a0 a1 a2 b0 b1 b2 : Nat) :
    (a0 * b0 + 20 * (a2 * b1) + 20 * (a1 * b2)) +
      2 ^ 44 * (a1 * b0 + a0 * b1 + 20 * (a2 * b2)) +
      2 ^ 88 * (a2 * b0 + a1 * b1 + a0 * b2) ≡
    (a0 + 2 ^ 44 * a1 + 2 ^ 88 * a2) * (b0 + 2 ^ 44 * b1 + 2 ^ 88 * b2) [MOD prime] := by
  -- The difference is a multiple of `2 ^ 132 - 20`, four times the modulus.
  have difference : (a0 + 2 ^ 44 * a1 + 2 ^ 88 * a2) * (b0 + 2 ^ 44 * b1 + 2 ^ 88 * b2) =
      (a0 * b0 + 20 * (a2 * b1) + 20 * (a1 * b2)) +
        2 ^ 44 * (a1 * b0 + a0 * b1 + 20 * (a2 * b2)) +
        2 ^ 88 * (a2 * b0 + a1 * b1 + a0 * b2) +
        prime * (4 * (a2 * b1 + a1 * b2 + 2 ^ 44 * (a2 * b2))) := by
    unfold prime
    ring
  rw [difference]
  exact (Nat.modEq_iff_dvd' (Nat.le_add_right _ _)).mpr (by simp)

/-- A wide carry moves the high bits to the next limb. -/
theorem carryWideStep_toNat (t : FelemWide) (ctr : Fin 2)
    (fits : t[ctr.val + 1].toNat + t[ctr.val].toNat / 2 ^ 44 < 2 ^ 128) :
    (carryWideStep t ctr)[ctr.val].toNat = t[ctr.val].toNat % 2 ^ 44 ∧
    (carryWideStep t ctr)[ctr.val + 1].toNat = t[ctr.val + 1].toNat + t[ctr.val].toNat / 2 ^ 44 := by
  have shifted : (t[ctr.val] >>> 44).toNat = t[ctr.val].toNat / 2 ^ 44 := by
    rw [BitVec.toNat_ushiftRight, Nat.shiftRight_eq_div_pow]
  have low : t[ctr.val].toNat % 2 ^ 64 % 2 ^ 44 = t[ctr.val].toNat % 2 ^ 44 := by omega
  constructor
  · simp only [carryWideStep, Vector.getElem_set_self,
      Vector.getElem_set_ne _ _ (show ctr.val + 1 ≠ ctr.val by omega), limbToWide_toNat,
      climbMask_toNat, wideToLimb_toNat, low]
  · simp only [carryWideStep, Vector.getElem_set_self]
    rw [toNat_add' (by rw [shifted]; exact fits), shifted]

/-- After the wide carries the two lower limbs have forty-four bits. -/
theorem carryWide_toNat {t : FelemWide} (bound0 : t[0].toNat < 2 ^ 96) (bound1 : t[1].toNat < 2 ^ 96)
    (bound2 : t[2].toNat < 2 ^ 96) :
    (carryWide t)[0].toNat < 2 ^ 44 ∧ (carryWide t)[1].toNat < 2 ^ 44 ∧
      (carryWide t)[2].toNat < 2 ^ 97 ∧
      value 44 [(carryWide t)[0].toNat, (carryWide t)[1].toNat, (carryWide t)[2].toNat] =
        value 44 [t[0].toNat, t[1].toNat, t[2].toNat] := by
  obtain ⟨low0, low1⟩ := carryWideStep_toNat t 0 (by show t[1].toNat + _ < _; omega)
  have low2 : (carryWideStep t 0)[2] = t[2] := by simp [carryWideStep]
  change (carryWideStep t 0)[0].toNat = t[0].toNat % 2 ^ 44 at low0
  change (carryWideStep t 0)[1].toNat = t[1].toNat + t[0].toNat / 2 ^ 44 at low1
  obtain ⟨high1, high2⟩ := carryWideStep_toNat (carryWideStep t 0) 1
    (by show (carryWideStep t 0)[2].toNat + (carryWideStep t 0)[1].toNat / 2 ^ 44 < _
        rw [low2, low1]; omega)
  have high0 : (carryWide t)[0] = (carryWideStep t 0)[0] := by simp [carryWide, carryWideStep]
  change (carryWide t)[1].toNat = (carryWideStep t 0)[1].toNat % 2 ^ 44 at high1
  change (carryWide t)[2].toNat = (carryWideStep t 0)[2].toNat + (carryWideStep t 0)[1].toNat / 2 ^ 44
    at high2
  rw [low2] at high2
  refine ⟨by rw [high0, low0]; omega, by rw [high1]; omega, by rw [high2, low1]; omega, ?_⟩
  -- The first carry keeps the value, and so does the second.
  calc value 44 [(carryWide t)[0].toNat, (carryWide t)[1].toNat, (carryWide t)[2].toNat]
      = value 44 [(carryWideStep t 0)[0].toNat, (carryWideStep t 0)[1].toNat % 2 ^ 44,
          t[2].toNat + (carryWideStep t 0)[1].toNat / 2 ^ 44] := by rw [high0, high1, high2]
    _ = value 44 [(carryWideStep t 0)[0].toNat, (carryWideStep t 0)[1].toNat, t[2].toNat] :=
        value_carry 44 [_] _ _ []
    _ = value 44 [t[0].toNat % 2 ^ 44, t[1].toNat + t[0].toNat / 2 ^ 44, t[2].toNat] := by
        rw [low0, low1]
    _ = value 44 [t[0].toNat, t[1].toNat, t[2].toNat] := value_carry 44 [] _ _ [_]

/-- Folding the top bits keeps the value modulo the modulus. -/
theorem value_fold (x y z : Nat) :
    value 44 [x + 5 * (z / 2 ^ 42), y, z % 2 ^ 42] ≡ value 44 [x, y, z] [MOD prime] := by
  have folded := (fold_modEq top_wraps z).add_left (x + 2 ^ 44 * y)
  rw [value_three, value_three]
  calc x + 5 * (z / 2 ^ 42) + 2 ^ 44 * y + 2 ^ (2 * 44) * (z % 2 ^ 42)
      = x + 2 ^ 44 * y + (5 * (z / 2 ^ 42) + 2 ^ 88 * (z % 2 ^ 42)) := by ring
    _ ≡ x + 2 ^ 44 * y + 2 ^ 88 * z [MOD prime] := folded

/-- The top wide limb keeps forty-two bits, and five times the others are added at the bottom. -/
theorem carryTopWide_toNat {t : FelemWide} (bound0 : t[0].toNat < 2 ^ 44)
    (bound2 : t[2].toNat < 2 ^ 97) :
    (carryTopWide t)[0].toNat = t[0].toNat + 5 * (t[2].toNat / 2 ^ 42) ∧
      (carryTopWide t)[1] = t[1] ∧ (carryTopWide t)[2].toNat = t[2].toNat % 2 ^ 42 := by
  have high : (wideToLimb (t[2] >>> 42)).toNat = t[2].toNat / 2 ^ 42 := by
    rw [wideToLimb_toNat, BitVec.toNat_ushiftRight, Nat.shiftRight_eq_div_pow]
    omega
  have five := five_toNat (x := wideToLimb (t[2] >>> 42)) (by rw [high]; omega)
  rw [high] at five
  refine ⟨?_, by simp [carryTopWide], ?_⟩
  · simp only [carryTopWide, Vector.getElem_set_self]
    rw [toNat_add' (by rw [limbToWide_toNat, five]; omega), limbToWide_toNat, five]
  · simp only [carryTopWide, Vector.getElem_set_self,
      Vector.getElem_set_ne _ _ (show (0 : Nat) ≠ 2 by decide), mask242Wide_toNat]

/-- The carry from the bottom limb keeps the value. -/
theorem carry0To1_toNat {a : Felem} (fits : a[1].toNat + a[0].toNat / 2 ^ 44 < 2 ^ 64) :
    (carry0To1 a)[0].toNat = a[0].toNat % 2 ^ 44 ∧
      (carry0To1 a)[1].toNat = a[1].toNat + a[0].toNat / 2 ^ 44 ∧ (carry0To1 a)[2] = a[2] ∧
      seval (carry0To1 a) = seval a := by
  have shifted : (a[0] >>> 44).toNat = a[0].toNat / 2 ^ 44 := toNat_shiftRight 44 rfl (by omega)
  have first : (carry0To1 a)[0].toNat = a[0].toNat % 2 ^ 44 := by
    simp only [carry0To1, Vector.getElem_set_self,
      Vector.getElem_set_ne _ _ (show (1 : Nat) ≠ 0 by decide), climbMask_toNat]
  have second : (carry0To1 a)[1].toNat = a[1].toNat + a[0].toNat / 2 ^ 44 := by
    simp only [carry0To1, Vector.getElem_set_self]
    rw [toNat_add (by rw [shifted]; exact fits), shifted]
  have third : (carry0To1 a)[2] = a[2] := by simp [carry0To1]
  refine ⟨first, second, third, ?_⟩
  rw [seval, first, second, third]
  exact value_carry 44 [] _ _ [_]

/-- Multiplication of a sum by the key keeps the bounds, and multiplies the values. -/
theorem fmul_spec {a b : Felem} (bound : Bounds a (2 ^ 46) (2 ^ 46) (2 ^ 46)) (bound' : Red44 b) :
    Red45 (fmul a b) ∧ seval (fmul a b) ≡ seval a * seval b [MOD prime] := by
  obtain ⟨t0, t1, t2⟩ := mulShiftReduce_toNat bound bound'
  obtain ⟨a0, a1, a2⟩ := bound
  obtain ⟨b0, b1, b2⟩ := bound'
  set t := mulShiftReduce #v[0, 0, 0] a b
  have p00 := product_lt a0 b0
  have p01 := product_lt a0 b1
  have p02 := product_lt a0 b2
  have p10 := product_lt a1 b0
  have p11 := product_lt a1 b1
  have p12 := product_lt a1 b2
  have p20 := product_lt a2 b0
  have p21 := product_lt a2 b1
  have p22 := product_lt a2 b2
  obtain ⟨wide0, wide1, wide2, carried⟩ := carryWide_toNat (t := t) (by omega) (by omega) (by omega)
  obtain ⟨top0, top1, top2⟩ := carryTopWide_toNat wide0 wide2
  -- The limbs fit in single words again.
  have narrow (i : Nat) (inside : i < 3) (fits : (carryTopWide (carryWide t))[i].toNat < 2 ^ 64) :
      (copyFromWide (carryTopWide (carryWide t)))[i].toNat =
        (carryTopWide (carryWide t))[i].toNat := by
    rw [copyFromWide, Vector.getElem_map, wideToLimb_toNat, Nat.mod_eq_of_lt fits]
  have narrow0 := narrow 0 (by omega) (by rw [top0]; omega)
  have narrow1 := narrow 1 (by omega) (by rw [top1]; omega)
  have narrow2 := narrow 2 (by omega) (by rw [top2]; omega)
  rw [top0] at narrow0
  rw [top1] at narrow1
  rw [top2] at narrow2
  obtain ⟨last0, last1, last2, kept⟩ := carry0To1_toNat
    (a := copyFromWide (carryTopWide (carryWide t))) (by rw [narrow0, narrow1]; omega)
  have result : fmul a b = carry0To1 (copyFromWide (carryTopWide (carryWide t))) := rfl
  rw [narrow0] at last0
  rw [narrow0, narrow1] at last1
  refine ⟨⟨by rw [result, last0]; omega, by rw [result, last1]; omega, by
    rw [result, last2, narrow2]; omega⟩, ?_⟩
  calc seval (fmul a b)
      = value 44 [(carryWide t)[0].toNat + 5 * ((carryWide t)[2].toNat / 2 ^ 42),
          (carryWide t)[1].toNat, (carryWide t)[2].toNat % 2 ^ 42] := by
        rw [result, kept, seval, narrow0, narrow1, narrow2]
    _ ≡ value 44 [(carryWide t)[0].toNat, (carryWide t)[1].toNat, (carryWide t)[2].toNat]
        [MOD prime] := value_fold _ _ _
    _ = value 44 [t[0].toNat, t[1].toNat, t[2].toNat] := carried
    _ ≡ seval a * seval b [MOD prime] := by
        rw [value_three, t0, t1, t2, seval_eq, seval_eq]
        exact product_modEq _ _ _ _ _ _

/-- One step of the accumulation: the bounds are kept, and the value is that of the formula. -/
theorem addAndMultiply_spec {acc block r : Felem} (bound : Red45 acc) (bound' : Red44 block)
    (bound'' : Red44 r) :
    Red45 (addAndMultiply acc block r) ∧
      seval (addAndMultiply acc block r) ≡ (seval acc + seval block) * seval r [MOD prime] := by
  obtain ⟨summed, sum⟩ := fsum_spec bound bound'
  have product := fmul_spec summed bound''
  rwa [sum] at product

/-- The carries over the three limbs keep the value. -/
theorem carryLimb_toNat {a : Felem} (bound : Red45 a) :
    (carryLimb a)[0].toNat = a[0].toNat % 2 ^ 44 ∧
      (carryLimb a)[1].toNat = (a[1].toNat + a[0].toNat / 2 ^ 44) % 2 ^ 44 ∧
      (carryLimb a)[2].toNat = a[2].toNat + (a[1].toNat + a[0].toNat / 2 ^ 44) / 2 ^ 44 ∧
      seval (carryLimb a) = seval a := by
  obtain ⟨a0, a1, a2⟩ := bound
  have step (t : Felem) (ctr : Fin 2)
      (fits : t[ctr.val + 1].toNat + t[ctr.val].toNat / 2 ^ 44 < 2 ^ 64) :
      (carryLimbStep t ctr)[ctr.val].toNat = t[ctr.val].toNat % 2 ^ 44 ∧
        (carryLimbStep t ctr)[ctr.val + 1].toNat =
          t[ctr.val + 1].toNat + t[ctr.val].toNat / 2 ^ 44 := by
    have shifted : (t[ctr.val] >>> 44).toNat = t[ctr.val].toNat / 2 ^ 44 :=
      toNat_shiftRight 44 rfl (by omega)
    constructor
    · simp only [carryLimbStep, Vector.getElem_set_self,
        Vector.getElem_set_ne _ _ (show ctr.val + 1 ≠ ctr.val by omega), climbMask_toNat]
    · simp only [carryLimbStep, Vector.getElem_set_self]
      rw [toNat_add (by rw [shifted]; exact fits), shifted]
  obtain ⟨low0, low1⟩ := step a 0 (by show a[1].toNat + a[0].toNat / 2 ^ 44 < _; omega)
  change (carryLimbStep a 0)[0].toNat = a[0].toNat % 2 ^ 44 at low0
  change (carryLimbStep a 0)[1].toNat = a[1].toNat + a[0].toNat / 2 ^ 44 at low1
  have low2 : (carryLimbStep a 0)[2] = a[2] := by simp [carryLimbStep]
  obtain ⟨high1, high2⟩ := step (carryLimbStep a 0) 1
    (by show (carryLimbStep a 0)[2].toNat + (carryLimbStep a 0)[1].toNat / 2 ^ 44 < _
        rw [low2, low1]; omega)
  change (carryLimb a)[1].toNat = (carryLimbStep a 0)[1].toNat % 2 ^ 44 at high1
  change (carryLimb a)[2].toNat = (carryLimbStep a 0)[2].toNat + (carryLimbStep a 0)[1].toNat / 2 ^ 44
    at high2
  have high0 : (carryLimb a)[0] = (carryLimbStep a 0)[0] := by simp [carryLimb, carryLimbStep]
  rw [low1] at high1
  rw [low1, low2] at high2
  have first : (carryLimb a)[0].toNat = a[0].toNat % 2 ^ 44 := by rw [high0, low0]
  refine ⟨first, high1, high2, ?_⟩
  calc seval (carryLimb a)
      = value 44 [a[0].toNat % 2 ^ 44, (a[1].toNat + a[0].toNat / 2 ^ 44) % 2 ^ 44,
          a[2].toNat + (a[1].toNat + a[0].toNat / 2 ^ 44) / 2 ^ 44] := by
        rw [seval, first, high1, high2]
    _ = value 44 [a[0].toNat % 2 ^ 44, a[1].toNat + a[0].toNat / 2 ^ 44, a[2].toNat] :=
        value_carry 44 [_] _ _ []
    _ = seval a := value_carry 44 [] _ _ [_]

/-- The top limb keeps forty-two bits, and five times the others are added at the bottom. -/
theorem carryTop_toNat {a : Felem} (fits : a[0].toNat + 5 * (a[2].toNat / 2 ^ 42) < 2 ^ 64) :
    (carryTop a)[0].toNat = a[0].toNat + 5 * (a[2].toNat / 2 ^ 42) ∧ (carryTop a)[1] = a[1] ∧
      (carryTop a)[2].toNat = a[2].toNat % 2 ^ 42 ∧ seval (carryTop a) ≡ seval a [MOD prime] := by
  have high : (a[2] >>> 42).toNat = a[2].toNat / 2 ^ 42 := toNat_shiftRight 42 rfl (by omega)
  have five := five_toNat (x := a[2] >>> 42) (by rw [high]; omega)
  rw [high] at five
  have first : (carryTop a)[0].toNat = a[0].toNat + 5 * (a[2].toNat / 2 ^ 42) := by
    simp only [carryTop, Vector.getElem_set_self]
    rw [toNat_add (by rw [five]; omega), five, Nat.add_comm]
  have second : (carryTop a)[1] = a[1] := by simp [carryTop]
  have third : (carryTop a)[2].toNat = a[2].toNat % 2 ^ 42 := by
    simp only [carryTop, Vector.getElem_set_self,
      Vector.getElem_set_ne _ _ (show (0 : Nat) ≠ 2 by decide), mask242Limb_toNat]
  refine ⟨first, second, third, ?_⟩
  rw [seval, first, second, third]
  exact value_fold _ _ _

end HaclStar.Impl.Bignum
