import HaclStar.Impl.FiveLimbsChecked
import HaclStar.Impl.Bignum25519

/-! The operations of the field with checks: each checks what it requires, and every sum, difference and product
of words inside fails where it does not fit. -/

namespace HaclStar.Impl.Bignum25519

open FiveLimbs

instance {n bound : Nat} (a : FiveLimbs.Felem n) : Decidable (Below bound a) :=
  inferInstanceAs (Decidable (∀ i : Fin 5, (a.get i).toNat < bound))

/-- Add limb by limb, with checks. -/
def fsumChecked (a b : Felem) : Option Felem := do
  guard (Below p513 a ∧ Below p513 b)
  FiveLimbs.fsumChecked a b

/-- Add eight times the modulus, with checks. -/
def addZeroChecked (b : Felem) : Option Felem := do
  let c0 ← Checked.add (b.get limb0) two54m152
  let c1 ← Checked.add (b.get limb1) two54m8
  let c2 ← Checked.add (b.get limb2) two54m8
  let c3 ← Checked.add (b.get limb3) two54m8
  let c4 ← Checked.add (b.get limb4) two54m8
  return upd5 c0 c1 c2 c3 c4

/-- Subtract the first element from the second one, with checks. -/
def fdifferenceChecked (a b : Felem) : Option Felem := do
  guard (Below p513 a ∧ Below p513 b)
  let tmp ← addZeroChecked b
  let c0 ← Checked.sub (tmp.get limb0) (a.get limb0)
  let c1 ← Checked.sub (tmp.get limb1) (a.get limb1)
  let c2 ← Checked.sub (tmp.get limb2) (a.get limb2)
  let c3 ← Checked.sub (tmp.get limb3) (a.get limb3)
  let c4 ← Checked.sub (tmp.get limb4) (a.get limb4)
  return upd5 c0 c1 c2 c3 c4

/-- Bring the limbs back to the bound of products, with checks. -/
def reduce513Checked (a : Felem) : Option Felem := do
  guard (Below p5413 a)
  let a ← field.carryLimbChecked a
  let a ← field.carryTopChecked a
  field.carry0To1Checked a

def fdifferenceReducedChecked (a b : Felem) : Option Felem := do
  guard (Below p513 a ∧ Below p513 b)
  let a ← fdifferenceChecked a b
  reduce513Checked a

/-- Multiply, with checks. -/
def fmulChecked (a b : Felem) : Option Felem := do
  guard (Below p53 a ∧ Below p5413 b)
  field.fmulChecked a b

/-- Double, with checks. -/
def times2Checked (a : Felem) : Option Felem := do
  guard (Below p513 a)
  let c0 ← Checked.mul 2 (a.get limb0)
  let c1 ← Checked.mul 2 (a.get limb1)
  let c2 ← Checked.mul 2 (a.get limb2)
  let c3 ← Checked.mul 2 (a.get limb3)
  let c4 ← Checked.mul 2 (a.get limb4)
  return upd5 c0 c1 c2 c3 c4

/-- Multiply by twice the coefficient of the curve, with checks. -/
def times2dChecked (a : Felem) : Option Felem := do
  guard (Below p513 a)
  let d2 := upd5 0x00069b9426b2f159 0x00035050762add7a 0x0003cf44c0038052 0x0006738cc7407977 0x0002406d9dc56dff
  fmulChecked a d2

/-- A column of three products, with checks. -/
def columnChecked (x y z : BitVec (2 * 64)) : Option (BitVec (2 * 64)) := do
  let sum ← Checked.add x y
  Checked.add sum z

/-- The products of the limbs of a square, with checks; products of two limbs always fit. -/
def fsquareWideChecked (output : Felem) : Option (FelemWide 64) := do
  let r0 := output.get limb0
  let r1 := output.get limb1
  let r2 := output.get limb2
  let r3 := output.get limb3
  let r4 := output.get limb4
  let d0 ← Checked.mul r0 2
  let d1 ← Checked.mul r1 2
  let d2' ← Checked.mul r2 2
  let d2 ← Checked.mul d2' 19
  let d419 ← Checked.mul r4 19
  let d4 ← Checked.mul d419 2
  let r3' ← Checked.mul r3 19
  let s0 ← columnChecked (mulWide r0 r0) (mulWide d4 r1) (mulWide d2 r3)
  let s1 ← columnChecked (mulWide d0 r1) (mulWide d4 r2) (mulWide r3' r3)
  let s2 ← columnChecked (mulWide d0 r2) (mulWide r1 r1) (mulWide d4 r3)
  let s3 ← columnChecked (mulWide d0 r3) (mulWide d1 r2) (mulWide r4 d419)
  let s4 ← columnChecked (mulWide d0 r4) (mulWide d1 r3) (mulWide r2 r2)
  return upd5 s0 s1 s2 s3 s4

/-- Square, with checks. -/
def fsquareChecked (a : Felem) : Option Felem := do
  guard (Below p5413 a)
  let tmp ← fsquareWideChecked a
  field.reduceWideChecked tmp

variable {a b : Felem}

/-- A requirement that is met does not fail. -/
theorem guard_eq {p : Prop} [Decidable p] (met : p) : (guard p : Option Unit) = some () := if_pos met

theorem fsumChecked_eq (first : Below p513 a) (second : Below p513 b) : fsumChecked a b = some (fsum a b) := by
  rw [fsumChecked, guard_eq ⟨first, second⟩]
  exact FiveLimbs.fsumChecked_eq first second (by decide)

/-- No limb of a difference goes below zero, since eight times the modulus was added. -/
theorem fdifferenceChecked_eq (first : Below p513 a) (second : Below p513 b) :
    fdifferenceChecked a b = some (fdifference a b) := by
  have met := guard_eq (⟨first, second⟩ : Below p513 a ∧ Below p513 b)
  obtain ⟨a0, a1, a2, a3, a4, rfl⟩ := five a
  obtain ⟨b0, b1, b2, b3, b4, rfl⟩ := five b
  obtain ⟨a0_lt, a1_lt, a2_lt, a3_lt, a4_lt⟩ := below_upd5.mp first
  obtain ⟨b0_lt, b1_lt, b2_lt, b3_lt, b4_lt⟩ := below_upd5.mp second
  have bound : p513 = 2 ^ 51 + 2 ^ 13 := rfl
  have sum {y : Limb} (c : Limb) (small : y.toNat < p513) (bound : c.toNat < 2 ^ 54) :
      Checked.add y c = some (y + c) := Checked.add_eq (by omega)
  have difference {x y : Limb} (c : Limb) (small : x.toNat < p513) (small' : y.toNat < p513)
      (large : p513 ≤ c.toNat) (bound : c.toNat < 2 ^ 54) : Checked.sub (y + c) x = some (y + c - x) := by
    have added : (y + c).toNat = y.toNat + c.toNat := Limbs.toNat_add' (by omega)
    exact Checked.sub_eq (by omega)
  have zero : addZeroChecked (upd5 b0 b1 b2 b3 b4) = some (addZero (upd5 b0 b1 b2 b3 b4)) := by
    show ((Checked.add b0 two54m152).bind fun c0 => (Checked.add b1 two54m8).bind fun c1 =>
      (Checked.add b2 two54m8).bind fun c2 => (Checked.add b3 two54m8).bind fun c3 =>
      (Checked.add b4 two54m8).bind fun c4 => some (upd5 c0 c1 c2 c3 c4)) = _
    simp only [sum two54m152 b0_lt (by decide), sum two54m8 b1_lt (by decide), sum two54m8 b2_lt (by decide),
      sum two54m8 b3_lt (by decide), sum two54m8 b4_lt (by decide), Option.bind_some]
    rfl
  have result : fdifference (upd5 a0 a1 a2 a3 a4) (upd5 b0 b1 b2 b3 b4) = upd5 (b0 + two54m152 - a0)
      (b1 + two54m8 - a1) (b2 + two54m8 - a2) (b3 + two54m8 - a3) (b4 + two54m8 - a4) :=
    zipWith_upd5 _ _ _ _ _ _ _ _ _ _ _
  rw [fdifferenceChecked, met, zero, result]
  show ((Checked.sub (b0 + two54m152) a0).bind fun c0 => (Checked.sub (b1 + two54m8) a1).bind fun c1 =>
    (Checked.sub (b2 + two54m8) a2).bind fun c2 => (Checked.sub (b3 + two54m8) a3).bind fun c3 =>
    (Checked.sub (b4 + two54m8) a4).bind fun c4 => some (upd5 c0 c1 c2 c3 c4)) = _
  simp only [difference two54m152 a0_lt b0_lt (by decide) (by decide),
    difference two54m8 a1_lt b1_lt (by decide) (by decide), difference two54m8 a2_lt b2_lt (by decide) (by decide),
    difference two54m8 a3_lt b3_lt (by decide) (by decide), difference two54m8 a4_lt b4_lt (by decide) (by decide),
    Option.bind_some]

theorem reduce513Checked_eq (below : Below p5413 a) : reduce513Checked a = some (reduce513 a) := by
  have size : field.limbSize = 51 := rfl
  have factor : field.factor = 19 := rfl
  have room : Below (2 ^ 63) a := below.mono (by decide)
  have carried := field.carryLimb_carried room
  obtain ⟨c0, c1, c2, c3⟩ := carried.bounds
  have c4 := carried.top (by decide) room
  have top : (a.get 4).toNat < 2 ^ 54 + 2 ^ 51 + 2 ^ 13 := below 4
  rw [size] at c0 c1 c2 c3 c4
  have first := Modulo.carryLimbChecked_eq (m := field) room
  have result : reduce513 a = field.carry0To1 (field.carryTop (field.carryLimb a)) := rfl
  set c := field.carryLimb a
  have fits : (c.get 0).toNat + field.factor * ((c.get 4).toNat / 2 ^ field.limbSize) < 2 ^ 64 := by
    rw [size, factor]
    omega
  have second := Modulo.carryTopChecked_eq fits
  obtain ⟨d0, d1, d2, d3, d4, -⟩ := Modulo.carryTop_spec fits
  rw [size, factor] at d0
  have third := Modulo.carry0To1Checked_eq (m := field) (a := field.carryTop c) (by rw [d0, d1, size]; omega)
  simp only [reduce513Checked, guard_eq below, first, second, third, result, Option.bind_eq_bind, Option.bind_some]

theorem fdifferenceReducedChecked_eq (first : Below p513 a) (second : Below p513 b) :
    fdifferenceReducedChecked a b = some (fdifferenceReduced a b) := by
  have met := guard_eq (⟨first, second⟩ : Below p513 a ∧ Below p513 b)
  have below := (fdifference_holds (d := field.seval a) ⟨first, rfl⟩ ⟨second, rfl⟩).below
  simp only [fdifferenceReducedChecked, met, fdifferenceChecked_eq first second, Option.bind_eq_bind,
    Option.bind_some, reduce513Checked_eq below]
  rfl

theorem fmulChecked_eq (first : Below p53 a) (second : Below p5413 b) : fmulChecked a b = some (fmul a b) := by
  rw [fmulChecked, guard_eq ⟨first, second⟩]
  exact Modulo.fmulChecked_eq field_fits first (second.mono (by decide))

theorem times2Checked_eq (below : Below p513 a) : times2Checked a = some (times2 a) := by
  have two : (2 : Limb).toNat = 2 := rfl
  have limb (i : Fin 5) : Checked.mul 2 (a.get i) = some (2 * a.get i) := by
    have small : (a.get i).toNat < 2 ^ 51 + 2 ^ 13 := below i
    exact Checked.mul_eq (by rw [two]; omega)
  simp only [times2Checked, guard_eq below, limb, Option.bind_eq_bind, Option.bind_some]
  rfl

theorem times2dChecked_eq (below : Below p513 a) : times2dChecked a = some (times2d a) := by
  have constant : Below p5413 (upd5 0x00069b9426b2f159 0x00035050762add7a 0x0003cf44c0038052
      0x0006738cc7407977 0x0002406d9dc56dff : Felem) := below_upd5.mpr (by decide)
  have product := fmulChecked_eq (below.mono (by decide)) constant
  simp only [times2dChecked, guard_eq below, Option.bind_eq_bind, Option.bind_some, product, times2d]

/-- A column whose sum fits does not fail. -/
theorem columnChecked_eq {x y z : BitVec (2 * 64)} (fits : x.toNat + y.toNat + z.toNat < 2 ^ (2 * 64)) :
    columnChecked x y z = some (x + y + z) := by
  have sum : (x + y).toNat = x.toNat + y.toNat := Limbs.toNat_add' (by omega)
  rw [columnChecked, Checked.add_eq (by omega), Option.bind_eq_bind, Option.bind_some, Checked.add_eq (by rwa [sum])]

/-- The columns of a square fit: their factors have at most six bits more than a limb. -/
theorem fsquareWideChecked_eq (below : Below p5413 a) : fsquareWideChecked a = some (fsquareWide a) := by
  obtain ⟨r0, r1, r2, r3, r4, rfl⟩ := five a
  obtain ⟨r0_lt, r1_lt, r2_lt, r3_lt, r4_lt⟩ := below_upd5.mp below
  have bound : p5413 = 2 ^ 54 + 2 ^ 51 + 2 ^ 13 := rfl
  have scale (x : Limb) (k : Nat) (c : Limb) (amount : c.toNat = k) (fits : x.toNat * k < 2 ^ 64) :
      (x * c).toNat = x.toNat * k := by
    rw [BitVec.toNat_mul, amount, Nat.mod_eq_of_lt fits]
  have times (x : Limb) (k : Nat) (c : Limb) (amount : c.toNat = k) (fits : x.toNat * k < 2 ^ 64) :
      Checked.mul x c = some (x * c) := Checked.mul_eq (by rwa [amount])
  have double0 := scale r0 2 2 rfl (by omega)
  have double1 := scale r1 2 2 rfl (by omega)
  have double2 := scale r2 2 2 rfl (by omega)
  have large2 := scale (r2 * 2) 19 19 rfl (by omega)
  have large4 := scale r4 19 19 rfl (by omega)
  have huge4 := scale (r4 * 19) 2 2 rfl (by omega)
  have large3 := scale r3 19 19 rfl (by omega)
  have wide {x y : Limb} {A B : Nat} (x_lt : x.toNat ≤ A) (y_lt : y.toNat ≤ B) :
      (mulWide x y).toNat ≤ A * B := by
    rw [mulWide_toNat]
    exact Nat.mul_le_mul x_lt y_lt
  have column (x x' y y' z z' : Limb) (first : x.toNat ≤ 38 * p5413) (first' : x'.toNat ≤ p5413)
      (second : y.toNat ≤ 38 * p5413) (second' : y'.toNat ≤ p5413) (third : z.toNat ≤ 38 * p5413)
      (third' : z'.toNat ≤ p5413) : columnChecked (mulWide x x') (mulWide y y') (mulWide z z') =
        some (mulWide x x' + mulWide y y' + mulWide z z') := by
    have fits : 38 * p5413 * p5413 + 38 * p5413 * p5413 + 38 * p5413 * p5413 < 2 ^ (2 * 64) := by decide
    exact columnChecked_eq ((Nat.add_le_add (Nat.add_le_add (wide first first') (wide second second'))
      (wide third third')).trans_lt fits)
  have swap (x y : Limb) : mulWide x y = mulWide y x := BitVec.mul_comm _ _
  have s0 := column r0 r0 (r4 * 19 * 2) r1 (r2 * 2 * 19) r3 (by omega)
    (by omega) (by omega) (by omega) (by omega) (by omega)
  have s1 := column (r0 * 2) r1 (r4 * 19 * 2) r2 (r3 * 19) r3 (by omega)
    (by omega) (by omega) (by omega) (by omega) (by omega)
  have s2 := column (r0 * 2) r2 r1 r1 (r4 * 19 * 2) r3 (by omega)
    (by omega) (by omega) (by omega) (by omega) (by omega)
  have s3 := column (r0 * 2) r3 (r1 * 2) r2 (r4 * 19) r4 (by omega)
    (by omega) (by omega) (by omega) (by omega) (by omega)
  have s4 := column (r0 * 2) r4 (r1 * 2) r3 r2 r2 (by omega)
    (by omega) (by omega) (by omega) (by omega) (by omega)
  rw [swap (r4 * 19) r4] at s3
  have result : fsquareWide (upd5 r0 r1 r2 r3 r4) = upd5
    (mulWide r0 r0 + mulWide (r4 * 19 * 2) r1 + mulWide (r2 * 2 * 19) r3)
    (mulWide (r0 * 2) r1 + mulWide (r4 * 19 * 2) r2 + mulWide (r3 * 19) r3)
    (mulWide (r0 * 2) r2 + mulWide r1 r1 + mulWide (r4 * 19 * 2) r3)
    (mulWide (r0 * 2) r3 + mulWide (r1 * 2) r2 + mulWide r4 (r4 * 19))
    (mulWide (r0 * 2) r4 + mulWide (r1 * 2) r3 + mulWide r2 r2) := rfl
  rw [result]
  show ((Checked.mul r0 2).bind fun d0 => (Checked.mul r1 2).bind fun d1 => (Checked.mul r2 2).bind fun d2' =>
    (Checked.mul d2' 19).bind fun d2 => (Checked.mul r4 19).bind fun d419 => (Checked.mul d419 2).bind fun d4 =>
    (Checked.mul r3 19).bind fun r3' =>
    (columnChecked (mulWide r0 r0) (mulWide d4 r1) (mulWide d2 r3)).bind fun s0 =>
    (columnChecked (mulWide d0 r1) (mulWide d4 r2) (mulWide r3' r3)).bind fun s1 =>
    (columnChecked (mulWide d0 r2) (mulWide r1 r1) (mulWide d4 r3)).bind fun s2 =>
    (columnChecked (mulWide d0 r3) (mulWide d1 r2) (mulWide r4 d419)).bind fun s3 =>
    (columnChecked (mulWide d0 r4) (mulWide d1 r3) (mulWide r2 r2)).bind fun s4 =>
    some (upd5 s0 s1 s2 s3 s4)) = _
  rw [times r0 2 2 rfl (by omega), Option.bind_some, times r1 2 2 rfl (by omega), Option.bind_some,
    times r2 2 2 rfl (by omega), Option.bind_some, times (r2 * 2) 19 19 rfl (by omega), Option.bind_some,
    times r4 19 19 rfl (by omega), Option.bind_some, times (r4 * 19) 2 2 rfl (by omega), Option.bind_some,
    times r3 19 19 rfl (by omega), Option.bind_some, s0, Option.bind_some, s1, Option.bind_some, s2,
    Option.bind_some, s3, Option.bind_some, s4, Option.bind_some]

theorem fsquareChecked_eq (below : Below p5413 a) : fsquareChecked a = some (fsquare a) := by
  obtain ⟨room, top, -⟩ := fsquareWide_spec below
  simp only [fsquareChecked, guard_eq below, fsquareWideChecked_eq below, Option.bind_eq_bind, Option.bind_some]
  exact Modulo.reduceWideChecked_eq room top (by decide)

end HaclStar.Impl.Bignum25519
