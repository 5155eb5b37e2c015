import HaclStar.Lib.Limbs

/-! Field elements of five limbs, for any word size and any number of bits in a limb. -/

namespace HaclStar.Impl.FiveLimbs

open Limbs

/-- A field element of five limbs. -/
abbrev Felem (w : Nat) := Vector (BitVec w) 5

/-- The positions of the limbs. -/
abbrev limb0 : Fin 5 := 0
abbrev limb1 : Fin 5 := 1
abbrev limb2 : Fin 5 := 2
abbrev limb3 : Fin 5 := 3
abbrev limb4 : Fin 5 := 4

/-- A field element with double words, which hold the products of limbs. -/
abbrev FelemWide (w : Nat) := Felem (2 * w)

/--
What a field of five limbs fixes.

The weight above the top limb counts as the factor, and the code has its own ways of multiplying a
limb by it.
-/
structure Modulo (w : Nat) where
  limbSize : Nat
  factor : Nat
  climbMask : BitVec w
  /-- A limb times the factor, as a limb. -/
  times : BitVec w → BitVec w
  /-- A limb times the factor, as a double word. -/
  timesWide : BitVec w → BitVec (2 * w)
  limbSize_pos : 0 < limbSize
  limbSize_lt : limbSize < w
  factor_pos : 0 < factor
  factor_lt : factor < 2 ^ limbSize
  climbMask_toNat : climbMask.toNat = 2 ^ limbSize - 1
  times_toNat : ∀ x, factor * x.toNat < 2 ^ w → (times x).toNat = factor * x.toNat
  timesWide_toNat : ∀ x, factor * x.toNat < 2 ^ w → (timesWide x).toNat = factor * x.toNat

/-- The five limbs, the least significant one first. -/
def upd5 {α : Type} (b0 b1 b2 b3 b4 : α) : Vector α 5 := #v[b0, b1, b2, b3, b4]

/-- Every field element is its five limbs. -/
theorem five {α : Type} (a : Vector α 5) : ∃ a0 a1 a2 a3 a4, a = upd5 a0 a1 a2 a3 a4 := by
  refine ⟨a.get 0, a.get 1, a.get 2, a.get 3, a.get 4, ?_⟩
  apply Vector.ext
  intro i inside
  interval_cases i <;> rfl

/-- A function of two elements acts on each pair of limbs. -/
theorem zipWith_upd5 {α β γ : Type} (f : α → β → γ) (a0 a1 a2 a3 a4 : α) (b0 b1 b2 b3 b4 : β) :
    Vector.zipWith f (upd5 a0 a1 a2 a3 a4) (upd5 b0 b1 b2 b3 b4) =
      upd5 (f a0 b0) (f a1 b1) (f a2 b2) (f a3 b3) (f a4 b4) := by
  apply Vector.ext
  intro i inside
  rw [Vector.getElem_zipWith]
  interval_cases i <;> rfl

variable {w : Nat}

def limbToWide (x : BitVec w) : BitVec (2 * w) := x.setWidth (2 * w)

def wideToLimb (x : BitVec (2 * w)) : BitVec w := x.setWidth w

/-- The full product of two limbs. -/
def mulWide (a b : BitVec w) : BitVec (2 * w) := limbToWide a * limbToWide b

/-- Ones when the limbs are equal. -/
def eqMask (a b : BitVec w) : BitVec w := if a = b then BitVec.allOnes w else 0

/-- Ones when the first limb is at least the second. -/
def gteMask (a b : BitVec w) : BitVec w := if b ≤ a then BitVec.allOnes w else 0

/-- Add limb by limb. -/
def fsum (a b : Felem w) : Felem w := Vector.zipWith (· + ·) a b

/-- Move each limb up, and the top one to the bottom. -/
def shift (output : Felem w) : Felem w :=
  let tmp := output.get 4
  upd5 tmp (output.get 0) (output.get 1) (output.get 2) (output.get 3)

/-- Add the multiple of a field element by a limb. -/
def sumScalarMultiplication (output : FelemWide w) (input : Felem w) (s : BitVec w) : FelemWide w :=
  Vector.zipWith (fun x y => x + mulWide y s) output input

/-- Narrow the wide limbs. -/
def copyFromWide (input : FelemWide w) : Felem w := input.map wideToLimb

namespace Modulo

variable (m : Modulo w)

/-- The modulus. -/
def prime : Nat := 2 ^ (5 * m.limbSize) - m.factor

/-- The value of a field element. -/
def seval {n : Nat} (a : Felem n) : Nat :=
  value m.limbSize [(a.get 0).toNat, (a.get 1).toNat, (a.get 2).toNat, (a.get 3).toNat,
    (a.get 4).toNat]

/-- Multiply the bottom limb by the factor. -/
def reduce (b : Felem w) : Felem w :=
  upd5 (m.times (b.get 0)) (b.get 1) (b.get 2) (b.get 3) (b.get 4)

/-- Multiply by the limb base, and reduce. -/
def shiftReduce (output : Felem w) : Felem w := m.reduce (shift output)

/-- One turn of the product: add the multiple by a limb, and move the first input up. -/
def mulStep (input2 : Felem w) (i : Fin 5) (state : FelemWide w × Felem w) : FelemWide w × Felem w :=
  (sumScalarMultiplication state.1 state.2 (input2.get i), m.shiftReduce state.2)

/-- Multiply by the limbs of the second input, one after another. -/
def mulShiftReduce (output : FelemWide w) (input input2 : Felem w) : FelemWide w :=
  let state := m.mulStep input2 0 (output, input)
  let state := m.mulStep input2 1 state
  let state := m.mulStep input2 2 state
  let state := m.mulStep input2 3 state
  sumScalarMultiplication state.1 state.2 (input2.get 4)

/-- The low bits of a wide limb, which fit in a limb. -/
def lowWide (x : BitVec (2 * w)) : BitVec (2 * w) := limbToWide (wideToLimb x &&& m.climbMask)

/-- Carry from the bottom to the top wide limb; the loop is written out. -/
def carryWide (tmp : FelemWide w) : FelemWide w :=
  let t1 := tmp.get 1 + tmp.get 0 >>> m.limbSize
  let t2 := tmp.get 2 + t1 >>> m.limbSize
  let t3 := tmp.get 3 + t2 >>> m.limbSize
  let t4 := tmp.get 4 + t3 >>> m.limbSize
  upd5 (m.lowWide (tmp.get 0)) (m.lowWide t1) (m.lowWide t2) (m.lowWide t3) t4

/-- Fold the high bits of the top wide limb to the bottom. -/
def carryTopWide (b : FelemWide w) : FelemWide w :=
  let b4 := b.get 4
  let b0 := b.get 0
  let b4' := b4 &&& limbToWide m.climbMask
  let b0' := b0 + m.timesWide (wideToLimb (b4 >>> m.limbSize))
  upd5 b0' (b.get 1) (b.get 2) (b.get 3) b4'

/-- Carry from the bottom limb to the next one. -/
def carry0To1 (output : Felem w) : Felem w :=
  let i0 := output.get 0
  let i1 := output.get 1
  let i0' := i0 &&& m.climbMask
  let i1' := i1 + i0 >>> m.limbSize
  upd5 i0' i1' (output.get 2) (output.get 3) (output.get 4)

/-- Multiply two field elements. -/
def fmul (input input2 : Felem w) : Felem w :=
  let t : FelemWide w := upd5 0 0 0 0 0
  let t := m.mulShiftReduce t input input2
  let t := m.carryWide t
  let t := m.carryTopWide t
  let output := copyFromWide t
  m.carry0To1 output

/-- Carry from the bottom to the top limb; the loop is written out. -/
def carryLimb (tmp : Felem w) : Felem w :=
  let t1 := tmp.get 1 + tmp.get 0 >>> m.limbSize
  let t2 := tmp.get 2 + t1 >>> m.limbSize
  let t3 := tmp.get 3 + t2 >>> m.limbSize
  let t4 := tmp.get 4 + t3 >>> m.limbSize
  upd5 (tmp.get 0 &&& m.climbMask) (t1 &&& m.climbMask) (t2 &&& m.climbMask) (t3 &&& m.climbMask) t4

/-- Fold the high bits of the top limb to the bottom. -/
def carryTop (b : Felem w) : Felem w :=
  let b4 := b.get 4
  let b0 := b.get 0
  upd5 (m.times (b4 >>> m.limbSize) + b0) (b.get 1) (b.get 2) (b.get 3) (b4 &&& m.climbMask)

end Modulo

/-- Every limb is below a bound. -/
def Below {n : Nat} (bound : Nat) (a : Felem n) : Prop := ∀ i : Fin 5, (a.get i).toNat < bound

/-- Bounds on the five limbs are a bound on each. -/
theorem below_upd5 {n bound : Nat} {b0 b1 b2 b3 b4 : BitVec n} :
    Below bound (upd5 b0 b1 b2 b3 b4) ↔ b0.toNat < bound ∧ b1.toNat < bound ∧ b2.toNat < bound ∧
      b3.toNat < bound ∧ b4.toNat < bound := by
  constructor
  · intro below
    exact ⟨below 0, below 1, below 2, below 3, below 4⟩
  · rintro ⟨below0, below1, below2, below3, below4⟩ i
    fin_cases i
    · exact below0
    · exact below1
    · exact below2
    · exact below3
    · exact below4

theorem Below.mono {n bound bound' : Nat} {a : Felem n} (below : Below bound a)
    (le : bound ≤ bound') : Below bound' a := fun i => (below i).trans_le le

@[simp] theorem limbToWide_toNat (x : BitVec w) : (limbToWide x).toNat = x.toNat := by
  have bound := x.isLt
  have wider : 2 ^ w ≤ 2 ^ (2 * w) := Nat.pow_le_pow_right (by decide) (by omega)
  rw [limbToWide, BitVec.toNat_setWidth, Nat.mod_eq_of_lt (bound.trans_le wider)]

@[simp] theorem wideToLimb_toNat (x : BitVec (2 * w)) : (wideToLimb x).toNat = x.toNat % 2 ^ w := by
  rw [wideToLimb, BitVec.toNat_setWidth]

@[simp] theorem mulWide_toNat (a b : BitVec w) : (mulWide a b).toNat = a.toNat * b.toNat := by
  -- The product of two words has at most the bits of a double word.
  have fits : a.toNat * b.toNat < 2 ^ (2 * w) := by
    rw [Nat.two_mul, Nat.pow_add]
    exact Nat.mul_lt_mul'' a.isLt b.isLt
  rw [mulWide, BitVec.toNat_mul, limbToWide_toNat, limbToWide_toNat, Nat.mod_eq_of_lt fits]

/-- Limbs that add without overflow add up to the sum of the values. -/
theorem fsum_spec (m : Modulo w) {a b : Felem w} {A B : Nat} (below : Below A a) (below' : Below B b)
    (fits : A + B ≤ 2 ^ w) :
    Below (A + B) (fsum a b) ∧ m.seval (fsum a b) = m.seval a + m.seval b := by
  have limb (i : Fin 5) : ((fsum a b).get i).toNat = (a.get i).toNat + (b.get i).toNat := by
    have small := below i
    have small' := below' i
    have added : (fsum a b).get i = a.get i + b.get i := by
      simp only [fsum, Vector.get_eq_getElem, Vector.getElem_zipWith]
    rw [added, toNat_add' (by omega)]
  constructor
  · intro i
    rw [limb]
    exact Nat.add_lt_add (below i) (below' i)
  · simp only [Modulo.seval, limb, value, Nat.ofDigits_cons, Nat.ofDigits_nil]
    ring

namespace Modulo

variable (m : Modulo w)

/-- The weight above the top limb counts as the factor. -/
theorem top_wraps : 2 ^ (4 * m.limbSize) * 2 ^ m.limbSize ≡ m.factor [MOD m.prime] := by
  have base : 1 < 2 ^ m.limbSize := Nat.one_lt_two_pow m.limbSize_pos.ne'
  have power : 2 ^ (4 * m.limbSize) * 2 ^ m.limbSize = 2 ^ (5 * m.limbSize) := by
    rw [← Nat.pow_add]
    congr 1
    omega
  have le : m.factor ≤ 2 ^ (5 * m.limbSize) :=
    m.factor_lt.le.trans (Nat.pow_le_pow_right (by decide) (by omega))
  rw [power]
  -- The weight exceeds the factor by the modulus itself.
  refine ((Nat.modEq_iff_dvd' le).mpr ?_).symm
  rw [Modulo.prime]

/-- The value is the weighted sum of the limbs. -/
theorem seval_upd5 {n : Nat} (b0 b1 b2 b3 b4 : BitVec n) :
    m.seval (upd5 b0 b1 b2 b3 b4) =
      value m.limbSize [b0.toNat, b1.toNat, b2.toNat, b3.toNat, b4.toNat] := rfl

/-- Folding the top bits keeps the value modulo the modulus. -/
theorem value_fold (x0 x1 x2 x3 x4 : Nat) :
    value m.limbSize [x0 + m.factor * (x4 / 2 ^ m.limbSize), x1, x2, x3, x4 % 2 ^ m.limbSize] ≡
      value m.limbSize [x0, x1, x2, x3, x4] [MOD m.prime] := by
  have weight : 2 ^ (4 * m.limbSize) = 2 ^ m.limbSize * 2 ^ m.limbSize * 2 ^ m.limbSize *
      2 ^ m.limbSize := by
    simp only [← Nat.pow_add]
    congr 1
    omega
  have folded := (fold_modEq m.top_wraps x4).add_left (value m.limbSize [x0, x1, x2, x3])
  have left : value m.limbSize [x0 + m.factor * (x4 / 2 ^ m.limbSize), x1, x2, x3,
      x4 % 2 ^ m.limbSize] = value m.limbSize [x0, x1, x2, x3] +
        (m.factor * (x4 / 2 ^ m.limbSize) + 2 ^ (4 * m.limbSize) * (x4 % 2 ^ m.limbSize)) := by
    simp only [value, Nat.ofDigits_cons, Nat.ofDigits_nil, weight]
    ring
  have right : value m.limbSize [x0, x1, x2, x3, x4] =
      value m.limbSize [x0, x1, x2, x3] + 2 ^ (4 * m.limbSize) * x4 := by
    simp only [value, Nat.ofDigits_cons, Nat.ofDigits_nil, weight]
    ring
  rw [left, right]
  exact folded

/-- The limbs move up, and the top one comes back multiplied by the factor. -/
theorem shiftReduce_upd5 (b0 b1 b2 b3 b4 : BitVec w) :
    m.shiftReduce (upd5 b0 b1 b2 b3 b4) = upd5 (m.times b4) b0 b1 b2 b3 := rfl

/-- Moving the limbs up multiplies the value by the limb base. -/
theorem shiftReduce_seval {a : Felem w} (fits : m.factor * (a.get 4).toNat < 2 ^ w) :
    m.seval (m.shiftReduce a) ≡ 2 ^ m.limbSize * m.seval a [MOD m.prime] := by
  obtain ⟨a0, a1, a2, a3, a4, rfl⟩ := five a
  have weight : 2 ^ m.limbSize * (2 ^ m.limbSize * 2 ^ m.limbSize * 2 ^ m.limbSize *
      2 ^ m.limbSize) = 2 ^ (4 * m.limbSize) * 2 ^ m.limbSize := by
    simp only [← Nat.pow_add]
    congr 1
    omega
  have top := m.times_toNat a4 fits
  have wraps := (m.top_wraps.mul_right a4.toNat).symm.add_left
    (2 ^ m.limbSize * value m.limbSize [a0.toNat, a1.toNat, a2.toNat, a3.toNat])
  rw [shiftReduce_upd5, seval_upd5, seval_upd5, top]
  calc value m.limbSize [m.factor * a4.toNat, a0.toNat, a1.toNat, a2.toNat, a3.toNat]
      = 2 ^ m.limbSize * value m.limbSize [a0.toNat, a1.toNat, a2.toNat, a3.toNat] +
          m.factor * a4.toNat := by
        simp only [value, Nat.ofDigits_cons, Nat.ofDigits_nil]
        ring
    _ ≡ 2 ^ m.limbSize * value m.limbSize [a0.toNat, a1.toNat, a2.toNat, a3.toNat] +
          2 ^ (4 * m.limbSize) * 2 ^ m.limbSize * a4.toNat [MOD m.prime] := wraps
    _ = 2 ^ m.limbSize * value m.limbSize [a0.toNat, a1.toNat, a2.toNat, a3.toNat, a4.toNat] := by
        rw [← weight]
        simp only [value, Nat.ofDigits_cons, Nat.ofDigits_nil]
        ring

/-- The value of the lowest limbs. -/
def lowValue (b : Felem w) (i : Nat) : Nat :=
  value m.limbSize ([(b.get 0).toNat, (b.get 1).toNat, (b.get 2).toNat, (b.get 3).toNat,
    (b.get 4).toNat].take i)

/-- The next limb counts with its weight. -/
theorem lowValue_succ (b : Felem w) (i : Fin 5) :
    m.lowValue b (i + 1) = m.lowValue b i + 2 ^ (m.limbSize * i) * (b.get i).toNat := by
  have limb : [(b.get 0).toNat, (b.get 1).toNat, (b.get 2).toNat, (b.get 3).toNat,
      (b.get 4).toNat][i.val]? = some (b.get i).toNat := by
    fin_cases i <;> rfl
  have size : ([(b.get 0).toNat, (b.get 1).toNat, (b.get 2).toNat, (b.get 3).toNat,
      (b.get 4).toNat].take i).length = i := by
    rw [List.length_take]
    exact Nat.min_eq_left i.isLt.le
  rw [lowValue, lowValue, List.take_add_one, limb, value, Nat.ofDigits_append, size, ← Nat.pow_mul]
  simp [value]

/-- Adding a multiple adds the products of the limbs when the sums fit. -/
theorem sumScalarMultiplication_get {output : FelemWide w} {input : Felem w} {s : BitVec w} {i : Fin 5}
    (fits : (output.get i).toNat + (input.get i).toNat * s.toNat < 2 ^ (2 * w)) :
    ((sumScalarMultiplication output input s).get i).toNat =
      (output.get i).toNat + (input.get i).toNat * s.toNat := by
  have added : (sumScalarMultiplication output input s).get i =
      output.get i + mulWide (input.get i) s := by
    simp only [sumScalarMultiplication, Vector.get_eq_getElem, Vector.getElem_zipWith]
  rw [added, toNat_add' (by rwa [mulWide_toNat]), mulWide_toNat]

/-- Inputs whose product does not overflow: limbs at most `A` and `B`. -/
structure Fits (A B : Nat) : Prop where
  /-- A limb may be multiplied by the factor. -/
  times : m.factor * A < 2 ^ w
  /-- Five products, each multiplied by the factor, leave a bit of the double word. -/
  sum : 5 * (m.factor * (A * B)) < 2 ^ (2 * w - 1)
  /-- What the top wide limb hands to the bottom one fits in a word. -/
  top : 2 ^ m.limbSize + m.factor * ((5 * (A * B) + 2 ^ (2 * w - m.limbSize)) / 2 ^ m.limbSize) ≤ 2 ^ w

/-- The product after some turns, for limbs at most `A` and `B`. -/
structure Turned (A B : Nat) (a b : Felem w) (i : Nat) (state : FelemWide w × Felem w) : Prop where
  output : ∀ k, (state.1.get k).toNat ≤ i * (m.factor * (A * B))
  outputTop : (state.1.get 4).toNat ≤ i * (A * B)
  input : ∀ k, (state.2.get k).toNat ≤ m.factor * A
  /-- The limbs that have not come round yet are not multiplied by the factor. -/
  inputHigh : ∀ k : Fin 5, i ≤ k → (state.2.get k).toNat ≤ A
  outputValue : m.seval state.1 ≡ m.seval a * m.lowValue b i [MOD m.prime]
  inputValue : m.seval state.2 ≡ 2 ^ (m.limbSize * i) * m.seval a [MOD m.prime]

variable {m} {A B : Nat} {a b : Felem w} {state : FelemWide w × Felem w}

/-- Nothing is multiplied yet. -/
theorem turned_zero (below : Below (A + 1) a) : m.Turned A B a b 0 (upd5 0 0 0 0 0, a) where
  output k := by
    have zero : ((upd5 0 0 0 0 0 : FelemWide w).get k).toNat = 0 := by
      fin_cases k <;> exact BitVec.toNat_ofNat _ _
    exact zero.le.trans (Nat.zero_le _)
  outputTop := by simp [upd5]
  input k := (Nat.le_of_lt_succ (below k)).trans (Nat.le_mul_of_pos_left A m.factor_pos)
  inputHigh k _ := Nat.le_of_lt_succ (below k)
  outputValue := by
    have none : m.lowValue b 0 = 0 := rfl
    rw [none, Nat.mul_zero, seval_upd5]
    simp [value]
    rfl
  inputValue := by
    rw [Nat.mul_zero, Nat.pow_zero, Nat.one_mul]

/-- One turn adds products that fit, and adds the multiple to the value. -/
theorem Turned.sum {i : Fin 5} (fits : m.Fits A B) (below : Below (B + 1) b)
    (turned : m.Turned A B a b i state) :
    (∀ k, ((sumScalarMultiplication state.1 state.2 (b.get i)).get k).toNat ≤
      (i + 1) * (m.factor * (A * B))) ∧
    ((sumScalarMultiplication state.1 state.2 (b.get i)).get 4).toNat ≤ (i + 1) * (A * B) ∧
    m.seval (sumScalarMultiplication state.1 state.2 (b.get i)) ≡
      m.seval a * m.lowValue b (i + 1) [MOD m.prime] := by
  have small : (b.get i).toNat ≤ B := Nat.le_of_lt_succ (below i)
  have product (k : Fin 5) : (state.2.get k).toNat * (b.get i).toNat ≤ m.factor * (A * B) := by
    calc (state.2.get k).toNat * (b.get i).toNat ≤ m.factor * A * B :=
          Nat.mul_le_mul (turned.input k) small
      _ = m.factor * (A * B) := Nat.mul_assoc _ _ _
  have room (k : Fin 5) : (state.1.get k).toNat + (state.2.get k).toNat * (b.get i).toNat ≤
      (i + 1) * (m.factor * (A * B)) := by
    rw [Nat.add_mul, Nat.one_mul]
    exact Nat.add_le_add (turned.output k) (product k)
  have narrow : (i + 1) * (m.factor * (A * B)) < 2 ^ (2 * w) := by
    have turns : i.val + 1 ≤ 5 := i.isLt
    calc (i + 1) * (m.factor * (A * B)) ≤ 5 * (m.factor * (A * B)) := Nat.mul_le_mul_right _ turns
      _ < 2 ^ (2 * w - 1) := fits.sum
      _ ≤ 2 ^ (2 * w) := Nat.pow_le_pow_right (by decide) (Nat.sub_le _ _)
  have limb (k : Fin 5) := sumScalarMultiplication_get (s := b.get i) ((room k).trans_lt narrow)
  refine ⟨fun k => ?_, ?_, ?_⟩
  · rw [limb k]
    exact room k
  · -- The top limb has not come round, in any of the five turns.
    have high := turned.inputHigh 4 (Nat.le_of_lt_succ i.isLt)
    rw [limb 4, Nat.add_mul, Nat.one_mul]
    exact Nat.add_le_add turned.outputTop (Nat.mul_le_mul high small)
  · have added : m.seval (sumScalarMultiplication state.1 state.2 (b.get i)) =
        m.seval state.1 + m.seval state.2 * (b.get i).toNat := by
      simp only [seval, limb, value, Nat.ofDigits_cons, Nat.ofDigits_nil]
      ring
    rw [added, lowValue_succ]
    calc m.seval state.1 + m.seval state.2 * (b.get i).toNat
        ≡ m.seval a * m.lowValue b i + 2 ^ (m.limbSize * i) * m.seval a * (b.get i).toNat
          [MOD m.prime] := turned.outputValue.add (turned.inputValue.mul_right _)
      _ = m.seval a * (m.lowValue b i + 2 ^ (m.limbSize * i) * (b.get i).toNat) := by ring

/-- One turn of the product. -/
theorem Turned.step {i : Fin 5} (fits : m.Fits A B) (below : Below (B + 1) b)
    (turned : m.Turned A B a b i state) : m.Turned A B a b (i + 1) (m.mulStep b i state) := by
  obtain ⟨output, outputTop, outputValue⟩ := turned.sum fits below
  have high := turned.inputHigh 4 (Nat.le_of_lt_succ i.isLt)
  have top : m.factor * (state.2.get 4).toNat < 2 ^ w :=
    (Nat.mul_le_mul_left _ high).trans_lt fits.times
  have moved := m.shiftReduce_seval top
  obtain ⟨sum, input⟩ := state
  obtain ⟨a0, a1, a2, a3, a4, rfl⟩ := five input
  have first := m.times_toNat a4 top
  refine ⟨output, outputTop, fun k => ?_, fun k later => ?_, outputValue, ?_⟩
  · -- The top limb comes round, multiplied by the factor; the others only move up.
    fin_cases k
    · exact first.le.trans (Nat.mul_le_mul_left _ high)
    · exact turned.input 0
    · exact turned.input 1
    · exact turned.input 2
    · exact turned.input 3
  · fin_cases k
    · exact absurd later (Nat.not_succ_le_zero _)
    · exact turned.inputHigh 0 (Nat.le_of_succ_le_succ later)
    · exact turned.inputHigh 1 (Nat.le_of_succ_le_succ later)
    · exact turned.inputHigh 2 (Nat.le_of_succ_le_succ later)
    · exact turned.inputHigh 3 (Nat.le_of_succ_le_succ later)
  · calc m.seval (m.shiftReduce (upd5 a0 a1 a2 a3 a4))
        ≡ 2 ^ m.limbSize * m.seval (upd5 a0 a1 a2 a3 a4) [MOD m.prime] := moved
      _ ≡ 2 ^ m.limbSize * (2 ^ (m.limbSize * i) * m.seval a) [MOD m.prime] :=
          turned.inputValue.mul_left _
      _ = 2 ^ (m.limbSize * (i + 1)) * m.seval a := by
          rw [Nat.mul_succ, Nat.pow_add]
          ring

/-- The five turns multiply the values. -/
theorem mulShiftReduce_spec (fits : m.Fits A B) (below : Below (A + 1) a) (below' : Below (B + 1) b) :
    (∀ k, ((m.mulShiftReduce (upd5 0 0 0 0 0) a b).get k).toNat ≤ 5 * (m.factor * (A * B))) ∧
    ((m.mulShiftReduce (upd5 0 0 0 0 0) a b).get 4).toNat ≤ 5 * (A * B) ∧
    m.seval (m.mulShiftReduce (upd5 0 0 0 0 0) a b) ≡ m.seval a * m.seval b [MOD m.prime] := by
  have turned0 := turned_zero (m := m) (B := B) (b := b) below
  have turned1 := turned0.step (i := 0) fits below'
  have turned2 := turned1.step (i := 1) fits below'
  have turned3 := turned2.step (i := 2) fits below'
  have turned4 := turned3.step (i := 3) fits below'
  exact turned4.sum (i := 4) fits below'

/-- A carry fits in a limb with a free bit. -/
theorem carry_fits {n size x t : Nat} (positive : 0 < size) (word : x < 2 ^ n) (fits : t < 2 ^ (n - 1)) (enough : 0 < n) :
    t + x / 2 ^ size < 2 ^ n := by
  -- The carry has at least one bit less than a word, and so has the limb.
  have half : x / 2 ^ size < 2 ^ (n - 1) := by
    rw [Nat.div_lt_iff_lt_mul (by positivity), ← Nat.pow_add]
    exact word.trans_le (Nat.pow_le_pow_right (by decide) (by omega))
  have double : 2 ^ (n - 1) + 2 ^ (n - 1) = 2 ^ n := by
    rw [← Nat.two_mul, ← Nat.pow_succ']
    congr 1
    omega
  omega

/-- A carry that fits in the next limb. -/
theorem toNat_add_carry {n size : Nat} {x t : BitVec n} (positive : 0 < size)
    (fits : t.toNat < 2 ^ (n - 1)) (enough : 0 < n) :
    (t + x >>> size).toNat = t.toNat + x.toNat / 2 ^ size := by
  have shifted : (x >>> size).toNat = x.toNat / 2 ^ size := by
    rw [BitVec.toNat_ushiftRight, Nat.shiftRight_eq_div_pow]
  have room := carry_fits positive x.isLt fits enough
  rw [toNat_add' (by rwa [shifted]), shifted]

variable (m)

/-- The low bits of a limb. -/
theorem toNat_and_climbMask (x : BitVec w) : (x &&& m.climbMask).toNat = x.toNat % 2 ^ m.limbSize :=
  toNat_and_mask' _ m.climbMask_toNat

/-- The low bits of a wide limb. -/
theorem lowWide_toNat (x : BitVec (2 * w)) : (m.lowWide x).toNat = x.toNat % 2 ^ m.limbSize := by
  rw [lowWide, limbToWide_toNat, toNat_and_climbMask, wideToLimb_toNat,
    Nat.mod_mod_of_dvd _ (Nat.pow_dvd_pow 2 m.limbSize_lt.le)]

/-- A number of `2 ^ limbSize` times a bound is cut below the bound. -/
theorem mod_limb_lt (x : Nat) : x % 2 ^ m.limbSize < 2 ^ m.limbSize := Nat.mod_lt _ (by positivity)

/-- The carried limbs: each sum with the carry below it, all but the last cut to its low bits. -/
structure Carried {n : Nat} (t t' : Felem n) : Prop where
  row : [(t'.get 0).toNat, (t'.get 1).toNat, (t'.get 2).toNat, (t'.get 3).toNat,
    (t'.get 4).toNat] = ripple m.limbSize 0 [(t.get 0).toNat, (t.get 1).toNat, (t.get 2).toNat,
      (t.get 3).toNat, (t.get 4).toNat]

/-- Carries whose sums fit. -/
theorem carried_of_below {n : Nat} (enough : 0 < n) (low : BitVec n → BitVec n)
    (low_toNat : ∀ x, (low x).toNat = x.toNat % 2 ^ m.limbSize) {t0 t1 t2 t3 t4 u1 u2 u3 u4 : BitVec n}
    (below : Below (2 ^ (n - 1)) (upd5 t0 t1 t2 t3 t4)) (sum1 : u1 = t1 + t0 >>> m.limbSize)
    (sum2 : u2 = t2 + u1 >>> m.limbSize) (sum3 : u3 = t3 + u2 >>> m.limbSize)
    (sum4 : u4 = t4 + u3 >>> m.limbSize) :
    m.Carried (upd5 t0 t1 t2 t3 t4) (upd5 (low t0) (low u1) (low u2) (low u3) u4) := by
  obtain ⟨-, below1, below2, below3, below4⟩ := below_upd5.mp below
  have carry1 := toNat_add_carry (x := t0) m.limbSize_pos below1 enough
  have carry2 := toNat_add_carry (x := u1) m.limbSize_pos below2 enough
  have carry3 := toNat_add_carry (x := u2) m.limbSize_pos below3 enough
  have carry4 := toNat_add_carry (x := u3) m.limbSize_pos below4 enough
  rw [← sum1] at carry1
  rw [← sum2] at carry2
  rw [← sum3] at carry3
  rw [← sum4] at carry4
  constructor
  show [(low t0).toNat, (low u1).toNat, (low u2).toNat, (low u3).toNat, u4.toNat] =
    ripple m.limbSize 0 [t0.toNat, t1.toNat, t2.toNat, t3.toNat, t4.toNat]
  simp only [low_toNat, ripple, Nat.add_zero, carry1, carry2, carry3, carry4]

/-- The wide carries fit when a bit of each double word is free. -/
theorem carryWide_carried {t : FelemWide w} (below : Below (2 ^ (2 * w - 1)) t) :
    m.Carried t (m.carryWide t) := by
  have size := m.limbSize_lt
  obtain ⟨t0, t1, t2, t3, t4, rfl⟩ := five t
  exact m.carried_of_below (by omega) m.lowWide m.lowWide_toNat below rfl rfl rfl rfl

/-- The carries fit when a bit of each word is free. -/
theorem carryLimb_carried {t : Felem w} (below : Below (2 ^ (w - 1)) t) :
    m.Carried t (m.carryLimb t) := by
  have size := m.limbSize_lt
  obtain ⟨t0, t1, t2, t3, t4, rfl⟩ := five t
  exact m.carried_of_below (by omega) (· &&& m.climbMask) m.toNat_and_climbMask below rfl rfl rfl rfl

variable {m} {n : Nat} {t t' : Felem n}

/-- Carries keep the value. -/
theorem Carried.seval (carried : m.Carried t t') : m.seval t' = m.seval t := by
  rw [Modulo.seval, carried.row, value_ripple m.limbSize 0 (by simp), Nat.add_zero, Modulo.seval]

/-- The four lower limbs are cut, and the top one takes at most what a word hands on. -/
theorem Carried.bounds (carried : m.Carried t t') :
    (t'.get 0).toNat < 2 ^ m.limbSize ∧ (t'.get 1).toNat < 2 ^ m.limbSize ∧
      (t'.get 2).toNat < 2 ^ m.limbSize ∧ (t'.get 3).toNat < 2 ^ m.limbSize := by
  have row := carried.row
  simp only [ripple, List.cons.injEq] at row
  obtain ⟨limb0, limb1, limb2, limb3, -⟩ := row
  exact ⟨limb0.trans_lt (m.mod_limb_lt _), limb1.trans_lt (m.mod_limb_lt _),
    limb2.trans_lt (m.mod_limb_lt _), limb3.trans_lt (m.mod_limb_lt _)⟩

/-- The top limb takes a carry, which has fewer bits than a word. -/
theorem Carried.top (carried : m.Carried t t') (within : m.limbSize ≤ n)
    (below : Below (2 ^ (n - 1)) t) :
    (t'.get 4).toNat < (t.get 4).toNat + 2 ^ (n - m.limbSize) := by
  have row := carried.row
  simp only [ripple, List.cons.injEq, Nat.add_zero] at row
  obtain ⟨-, -, -, -, limb4, -⟩ := row
  have positive := m.limbSize_pos
  -- A sum with a carry is below a word, so its own carry is below what the shift leaves of a word.
  have carry {x c : Nat} (small : x < 2 ^ (n - 1)) (small' : c < 2 ^ (n - m.limbSize)) :
      (x + c) / 2 ^ m.limbSize < 2 ^ (n - m.limbSize) := by
    have half : 2 ^ (n - m.limbSize) ≤ 2 ^ (n - 1) := Nat.pow_le_pow_right (by decide) (by omega)
    have double : 2 ^ (n - 1) + 2 ^ (n - 1) = 2 ^ n := by
      rw [← Nat.two_mul, ← Nat.pow_succ']
      congr 1
      omega
    rw [Nat.div_lt_iff_lt_mul (by positivity), ← Nat.pow_add, Nat.sub_add_cancel within]
    omega
  have carry0 := carry (c := 0) (below 0) (by positivity)
  rw [Nat.add_zero] at carry0
  have carry1 := carry (below 1) carry0
  have carry2 := carry (below 2) carry1
  have carry3 := carry (below 3) carry2
  rw [limb4]
  exact Nat.add_lt_add_left carry3 _

variable (m)

/-- Folding the top wide limb keeps the value, where the fold fits in a word. -/
theorem carryTopWide_spec {t : FelemWide w} {high : Nat} (top : (t.get 4).toNat / 2 ^ m.limbSize ≤ high)
    (fits : 2 ^ m.limbSize + m.factor * high ≤ 2 ^ w) (low : (t.get 0).toNat < 2 ^ m.limbSize) :
    ((m.carryTopWide t).get 0).toNat < 2 ^ m.limbSize + m.factor * high ∧ (m.carryTopWide t).get 1 = t.get 1 ∧
      (m.carryTopWide t).get 2 = t.get 2 ∧ (m.carryTopWide t).get 3 = t.get 3 ∧
      ((m.carryTopWide t).get 4).toNat < 2 ^ m.limbSize ∧
      m.seval (m.carryTopWide t) ≡ m.seval t [MOD m.prime] := by
  have small : 2 ^ w ≤ 2 ^ (2 * w) := Nat.pow_le_pow_right (by decide) (by omega)
  obtain ⟨t0, t1, t2, t3, t4, rfl⟩ := five t
  change t4.toNat / 2 ^ m.limbSize ≤ high at top
  change t0.toNat < 2 ^ m.limbSize at low
  have scaled : m.factor * (t4.toNat / 2 ^ m.limbSize) ≤ m.factor * high := Nat.mul_le_mul_left _ top
  have le : t4.toNat / 2 ^ m.limbSize ≤ m.factor * (t4.toNat / 2 ^ m.limbSize) :=
    Nat.le_mul_of_pos_left _ m.factor_pos
  have positive : 0 < 2 ^ m.limbSize := by positivity
  have shifted : (wideToLimb (t4 >>> m.limbSize)).toNat = t4.toNat / 2 ^ m.limbSize := by
    rw [wideToLimb_toNat, BitVec.toNat_ushiftRight, Nat.shiftRight_eq_div_pow,
      Nat.mod_eq_of_lt (by omega)]
  have product := m.timesWide_toNat (wideToLimb (t4 >>> m.limbSize)) (by rw [shifted]; omega)
  rw [shifted] at product
  have bottom : (t0 + m.timesWide (wideToLimb (t4 >>> m.limbSize))).toNat =
      t0.toNat + m.factor * (t4.toNat / 2 ^ m.limbSize) := by
    rw [toNat_add' (by rw [product]; omega), product]
  have cut : (t4 &&& limbToWide m.climbMask).toNat = t4.toNat % 2 ^ m.limbSize :=
    toNat_and_mask' _ (by rw [limbToWide_toNat, m.climbMask_toNat])
  refine ⟨?_, rfl, rfl, rfl, cut.trans_lt (m.mod_limb_lt _), ?_⟩
  · show (t0 + m.timesWide (wideToLimb (t4 >>> m.limbSize))).toNat < 2 ^ m.limbSize + m.factor * high
    omega
  · show value m.limbSize [(t0 + m.timesWide (wideToLimb (t4 >>> m.limbSize))).toNat, t1.toNat,
      t2.toNat, t3.toNat, (t4 &&& limbToWide m.climbMask).toNat] ≡ _ [MOD m.prime]
    rw [bottom, cut, seval_upd5]
    exact m.value_fold _ _ _ _ _

/-- The carry from the bottom limb to the next one keeps the value. -/
theorem carry0To1_spec {a : Felem w} (fits : (a.get 1).toNat + (a.get 0).toNat / 2 ^ m.limbSize < 2 ^ w) :
    ((m.carry0To1 a).get 0).toNat < 2 ^ m.limbSize ∧
      ((m.carry0To1 a).get 1).toNat = (a.get 1).toNat + (a.get 0).toNat / 2 ^ m.limbSize ∧
      (m.carry0To1 a).get 2 = a.get 2 ∧ (m.carry0To1 a).get 3 = a.get 3 ∧
      (m.carry0To1 a).get 4 = a.get 4 ∧ m.seval (m.carry0To1 a) = m.seval a := by
  obtain ⟨a0, a1, a2, a3, a4, rfl⟩ := five a
  change a1.toNat + a0.toNat / 2 ^ m.limbSize < 2 ^ w at fits
  have shifted : (a0 >>> m.limbSize).toNat = a0.toNat / 2 ^ m.limbSize := by
    rw [BitVec.toNat_ushiftRight, Nat.shiftRight_eq_div_pow]
  have next : (a1 + a0 >>> m.limbSize).toNat = a1.toNat + a0.toNat / 2 ^ m.limbSize := by
    rw [toNat_add' (by rwa [shifted]), shifted]
  have cut := m.toNat_and_climbMask a0
  refine ⟨cut.trans_lt (m.mod_limb_lt _), next, rfl, rfl, rfl, ?_⟩
  show value m.limbSize [(a0 &&& m.climbMask).toNat, (a1 + a0 >>> m.limbSize).toNat, a2.toNat,
    a3.toNat, a4.toNat] = _
  rw [cut, next, seval_upd5]
  exact value_carry m.limbSize [] _ _ [_, _, _]

/-- Narrowing keeps limbs that fit in a word. -/
theorem copyFromWide_get {t : FelemWide w} {i : Fin 5} (fits : (t.get i).toNat < 2 ^ w) :
    ((copyFromWide t).get i).toNat = (t.get i).toNat := by
  have narrowed : (copyFromWide t).get i = wideToLimb (t.get i) := by
    simp only [copyFromWide, Vector.get_eq_getElem, Vector.getElem_map]
  rw [narrowed, wideToLimb_toNat, Nat.mod_eq_of_lt fits]

/-- The bound that products keep: a limb, and what a carry may add to it. -/
def carriedBound : Nat := 2 ^ m.limbSize + 2 ^ (w - m.limbSize)

/-- The bound that products keep fits in a word. -/
theorem carriedBound_le : m.carriedBound ≤ 2 ^ w := by
  have size := m.limbSize_lt
  have positive := m.limbSize_pos
  have double : 2 ^ (w - 1) + 2 ^ (w - 1) = 2 ^ w := by
    rw [← Nat.two_mul, ← Nat.pow_succ']
    congr 1
    omega
  have lower : 2 ^ m.limbSize ≤ 2 ^ (w - 1) := Nat.pow_le_pow_right (by decide) (by omega)
  have upper : 2 ^ (w - m.limbSize) ≤ 2 ^ (w - 1) := Nat.pow_le_pow_right (by decide) (by omega)
  rw [carriedBound]
  omega

/-- Carrying, folding and narrowing a wide element keep the value, and only the bottom limb may keep high bits. -/
theorem narrowWide_spec {t : FelemWide w} {top : Nat} (room : Below (2 ^ (2 * w - 1)) t)
    (le : (t.get 4).toNat ≤ top)
    (fits : 2 ^ m.limbSize + m.factor * ((top + 2 ^ (2 * w - m.limbSize)) / 2 ^ m.limbSize) ≤ 2 ^ w) :
    ((copyFromWide (m.carryTopWide (m.carryWide t))).get 0).toNat <
        2 ^ m.limbSize + m.factor * ((top + 2 ^ (2 * w - m.limbSize)) / 2 ^ m.limbSize) ∧
      ((copyFromWide (m.carryTopWide (m.carryWide t))).get 1).toNat < 2 ^ m.limbSize ∧
      ((copyFromWide (m.carryTopWide (m.carryWide t))).get 2).toNat < 2 ^ m.limbSize ∧
      ((copyFromWide (m.carryTopWide (m.carryWide t))).get 3).toNat < 2 ^ m.limbSize ∧
      ((copyFromWide (m.carryTopWide (m.carryWide t))).get 4).toNat < 2 ^ m.limbSize ∧
      m.seval (copyFromWide (m.carryTopWide (m.carryWide t))) ≡ m.seval t [MOD m.prime] := by
  have size := m.limbSize_lt
  have carried := m.carryWide_carried room
  obtain ⟨wide0, wide1, wide2, wide3⟩ := carried.bounds
  have wide4 := carried.top (by omega) room
  set c := m.carryWide t
  -- What the top limb hands down, times the factor, fits in a word beside the bottom limb.
  have high : (c.get 4).toNat / 2 ^ m.limbSize ≤ (top + 2 ^ (2 * w - m.limbSize)) / 2 ^ m.limbSize :=
    Nat.div_le_div_right (by omega)
  obtain ⟨fold0, fold1, fold2, fold3, fold4, folded⟩ := m.carryTopWide_spec high fits wide0
  set d := m.carryTopWide c
  have limb : 2 ^ m.limbSize < 2 ^ w := Nat.pow_lt_pow_right (by decide) size
  have narrow0 := copyFromWide_get (fold0.trans_le fits)
  have narrow1 := copyFromWide_get (t := d) (i := 1) (by rw [fold1]; omega)
  have narrow2 := copyFromWide_get (t := d) (i := 2) (by rw [fold2]; omega)
  have narrow3 := copyFromWide_get (t := d) (i := 3) (by rw [fold3]; omega)
  have narrow4 := copyFromWide_get (t := d) (i := 4) (fold4.trans limb)
  have narrowed : m.seval (copyFromWide d) = m.seval d := by
    simp only [seval, narrow0, narrow1, narrow2, narrow3, narrow4]
  refine ⟨narrow0.trans_lt fold0, ?_, ?_, ?_, narrow4.trans_lt fold4, ?_⟩
  · rw [narrow1, fold1]
    exact wide1
  · rw [narrow2, fold2]
    exact wide2
  · rw [narrow3, fold3]
    exact wide3
  · calc m.seval (copyFromWide d) = m.seval d := narrowed
      _ ≡ m.seval c [MOD m.prime] := folded
      _ = m.seval t := carried.seval

/-- Carrying, folding and narrowing a wide element keep the value, and leave limbs with a carry at most. -/
theorem reduceWide_spec {t : FelemWide w} {top : Nat} (room : Below (2 ^ (2 * w - 1)) t)
    (le : (t.get 4).toNat ≤ top)
    (fits : 2 ^ m.limbSize + m.factor * ((top + 2 ^ (2 * w - m.limbSize)) / 2 ^ m.limbSize) ≤ 2 ^ w) :
    Below m.carriedBound (m.carry0To1 (copyFromWide (m.carryTopWide (m.carryWide t)))) ∧
      m.seval (m.carry0To1 (copyFromWide (m.carryTopWide (m.carryWide t)))) ≡ m.seval t [MOD m.prime] := by
  have size := m.limbSize_lt
  obtain ⟨-, narrow1, narrow2, narrow3, narrow4, narrowed⟩ := m.narrowWide_spec room le fits
  set d := copyFromWide (m.carryTopWide (m.carryWide t))
  -- The bottom limb, which has a whole word, hands the rest to the next one.
  have carry : (d.get 0).toNat / 2 ^ m.limbSize < 2 ^ (w - m.limbSize) := by
    rw [Nat.div_lt_iff_lt_mul (by positivity), ← Nat.pow_add, Nat.sub_add_cancel size.le]
    exact BitVec.isLt _
  have spare := m.carriedBound_le
  rw [carriedBound] at spare
  obtain ⟨last0, last1, last2, last3, last4, kept⟩ := m.carry0To1_spec (a := d) (by omega)
  have more : 0 < 2 ^ (w - m.limbSize) := by positivity
  constructor
  · intro i
    rw [carriedBound]
    fin_cases i
    · exact last0.trans_le (Nat.le_add_right _ _)
    · exact last1.trans_lt (Nat.add_lt_add narrow1 carry)
    · exact (congrArg BitVec.toNat last2).trans_lt (by omega)
    · exact (congrArg BitVec.toNat last3).trans_lt (by omega)
    · exact (congrArg BitVec.toNat last4).trans_lt (by omega)
  · rw [kept]
    exact narrowed

variable {m} {A B : Nat} {a b : Felem w}

/-- Multiplication keeps the bounds, and multiplies the values. -/
theorem fmul_spec (fits : m.Fits A B) (below : Below (A + 1) a) (below' : Below (B + 1) b) :
    Below m.carriedBound (m.fmul a b) ∧
      m.seval (m.fmul a b) ≡ m.seval a * m.seval b [MOD m.prime] := by
  obtain ⟨output, outputTop, product⟩ := mulShiftReduce_spec fits below below'
  have result : m.fmul a b = m.carry0To1 (copyFromWide (m.carryTopWide (m.carryWide
    (m.mulShiftReduce (upd5 0 0 0 0 0) a b)))) := rfl
  have room : Below (2 ^ (2 * w - 1)) (m.mulShiftReduce (upd5 0 0 0 0 0) a b) :=
    fun i => (output i).trans_lt fits.sum
  obtain ⟨small, reduced⟩ := m.reduceWide_spec room outputTop fits.top
  rw [result]
  exact ⟨small, reduced.trans product⟩

/-- Folding the top limb keeps the value, where the fold fits in a word. -/
theorem carryTop_spec (fits : (a.get 0).toNat + m.factor * ((a.get 4).toNat / 2 ^ m.limbSize) < 2 ^ w) :
    ((m.carryTop a).get 0).toNat = (a.get 0).toNat + m.factor * ((a.get 4).toNat / 2 ^ m.limbSize) ∧
      (m.carryTop a).get 1 = a.get 1 ∧ (m.carryTop a).get 2 = a.get 2 ∧
      (m.carryTop a).get 3 = a.get 3 ∧
      ((m.carryTop a).get 4).toNat = (a.get 4).toNat % 2 ^ m.limbSize ∧
      m.seval (m.carryTop a) ≡ m.seval a [MOD m.prime] := by
  obtain ⟨a0, a1, a2, a3, a4, rfl⟩ := five a
  change a0.toNat + m.factor * (a4.toNat / 2 ^ m.limbSize) < 2 ^ w at fits
  have shifted : (a4 >>> m.limbSize).toNat = a4.toNat / 2 ^ m.limbSize := by
    rw [BitVec.toNat_ushiftRight, Nat.shiftRight_eq_div_pow]
  have product := m.times_toNat (a4 >>> m.limbSize) (by rw [shifted]; omega)
  rw [shifted] at product
  have bottom : (m.times (a4 >>> m.limbSize) + a0).toNat =
      a0.toNat + m.factor * (a4.toNat / 2 ^ m.limbSize) := by
    rw [toNat_add' (by rw [product]; omega), product, Nat.add_comm]
  have cut := m.toNat_and_climbMask a4
  refine ⟨bottom, rfl, rfl, rfl, cut, ?_⟩
  show value m.limbSize [(m.times (a4 >>> m.limbSize) + a0).toNat, a1.toNat, a2.toNat, a3.toNat,
    (a4 &&& m.climbMask).toNat] ≡ _ [MOD m.prime]
  rw [bottom, cut, seval_upd5]
  exact m.value_fold _ _ _ _ _

variable (m)

/-- A limb without high bits hands nothing on. -/
theorem shiftRight_of_lt {x : BitVec w} (small : x.toNat < 2 ^ m.limbSize) : x >>> m.limbSize = 0#w := by
  apply BitVec.eq_of_toNat_eq
  rw [BitVec.toNat_ushiftRight, Nat.shiftRight_eq_div_pow, Nat.div_eq_of_lt small]
  rfl

/-- A limb without high bits is its low bits. -/
theorem and_climbMask_of_lt {x : BitVec w} (small : x.toNat < 2 ^ m.limbSize) :
    x &&& m.climbMask = x := by
  apply BitVec.eq_of_toNat_eq
  rw [toNat_and_climbMask, Nat.mod_eq_of_lt small]

variable {m}

/-- Carries leave limbs without high bits alone. -/
theorem carryLimb_of_below (below : Below (2 ^ m.limbSize) a) : m.carryLimb a = a := by
  obtain ⟨a0, a1, a2, a3, a4, rfl⟩ := five a
  obtain ⟨below0, below1, below2, below3, -⟩ := below_upd5.mp below
  show upd5 (a0 &&& m.climbMask) ((a1 + a0 >>> m.limbSize) &&& m.climbMask)
    ((a2 + (a1 + a0 >>> m.limbSize) >>> m.limbSize) &&& m.climbMask)
    ((a3 + (a2 + (a1 + a0 >>> m.limbSize) >>> m.limbSize) >>> m.limbSize) &&& m.climbMask)
    (a4 + (a3 + (a2 + (a1 + a0 >>> m.limbSize) >>> m.limbSize) >>> m.limbSize) >>> m.limbSize) = _
  simp only [m.shiftRight_of_lt below0, m.shiftRight_of_lt below1, m.shiftRight_of_lt below2,
    m.shiftRight_of_lt below3, m.and_climbMask_of_lt below0, m.and_climbMask_of_lt below1,
    m.and_climbMask_of_lt below2, m.and_climbMask_of_lt below3, BitVec.add_zero]

/-- The fold leaves a top limb without high bits alone. -/
theorem carryTop_of_below (below : Below (2 ^ m.limbSize) a) : m.carryTop a = a := by
  obtain ⟨a0, a1, a2, a3, a4, rfl⟩ := five a
  obtain ⟨-, -, -, -, below4⟩ := below_upd5.mp below
  have none : m.times 0#w = 0#w := by
    apply BitVec.eq_of_toNat_eq
    rw [m.times_toNat 0#w (by simp), BitVec.toNat_zero, Nat.mul_zero]
  show upd5 (m.times (a4 >>> m.limbSize) + a0) a1 a2 a3 (a4 &&& m.climbMask) = _
  rw [m.shiftRight_of_lt below4, m.and_climbMask_of_lt below4, none, BitVec.zero_add]

/-- The last carry leaves a bottom limb without high bits alone. -/
theorem carry0To1_of_below (below : Below (2 ^ m.limbSize) a) : m.carry0To1 a = a := by
  obtain ⟨a0, a1, a2, a3, a4, rfl⟩ := five a
  obtain ⟨below0, -⟩ := below_upd5.mp below
  show upd5 (a0 &&& m.climbMask) (a1 + a0 >>> m.limbSize) a2 a3 a4 = _
  rw [m.shiftRight_of_lt below0, m.and_climbMask_of_lt below0, BitVec.add_zero]

end Modulo

end HaclStar.Impl.FiveLimbs
