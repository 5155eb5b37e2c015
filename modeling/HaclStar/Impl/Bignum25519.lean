import HaclStar.Impl.FiveLimbsReduce
import HaclStar.Spec.Ed25519Group

/-! The field of Curve25519 on five limbs of 51 bits. -/

namespace HaclStar.Impl.Bignum25519

open FiveLimbs Limbs
open Spec.Curve25519 (modulus modulus_prime)

abbrev Limb := BitVec 64

abbrev Felem := FiveLimbs.Felem 64

def mask51 : Limb := 0x7ffffffffffff

def p51m19 : Limb := 0x7ffffffffffed

def p51m1 : Limb := 0x7ffffffffffff

/-! Eight times the modulus, limb by limb. -/

def two54m152 : Limb := 0x3fffffffffff68

def two54m8 : Limb := 0x3ffffffffffff8

def nineteen : Limb := 19

/-- The field: nineteen is a product, of words or of double words. -/
def field : Modulo 64 where
  limbSize := 51
  factor := 19
  climbMask := mask51
  times x := nineteen * x
  timesWide x := mulWide nineteen x
  limbSize_pos := by decide
  limbSize_lt := by decide
  factor_pos := by decide
  factor_lt := by decide
  climbMask_toNat := rfl
  times_toNat x fits := by
    rw [BitVec.toNat_mul]
    exact Nat.mod_eq_of_lt fits
  timesWide_toNat x _ := by
    rw [mulWide_toNat]
    rfl

/-! The bounds that the code keeps limbs below. -/

abbrev p51 : Nat := 2 ^ 51

abbrev p513 : Nat := 2 ^ 51 + 2 ^ 13

abbrev p53 : Nat := 2 ^ 53

abbrev p5413 : Nat := 2 ^ 54 + 2 ^ 51 + 2 ^ 13

abbrev p55 : Nat := 2 ^ 55

/-- The value of a field element. -/
def seval (a : Felem) : Int := (field.seval a : Int) % Spec.Curve25519.prime

/-- Add eight times the modulus. -/
def addZero (b : Felem) : Felem :=
  upd5 (b.get limb0 + two54m152) (b.get limb1 + two54m8) (b.get limb2 + two54m8) (b.get limb3 + two54m8)
    (b.get limb4 + two54m8)

/-- Subtract the first element from the second one, limb by limb. -/
def fdifference (a b : Felem) : Felem :=
  let tmp := addZero b
  Vector.zipWith (fun x y => y - x) a tmp

/-- Carry from the bottom to the top limb. -/
def fcontractFirstCarryPass (input : Felem) : Felem :=
  let t0 := input.get limb0
  let t1 := input.get limb1
  let t2 := input.get limb2
  let t3 := input.get limb3
  let t4 := input.get limb4
  let t1' := t1 + t0 >>> 51
  let t0' := t0 &&& mask51
  let t2' := t2 + t1' >>> 51
  let t1'' := t1' &&& mask51
  let t3' := t3 + t2' >>> 51
  let t2'' := t2' &&& mask51
  let t4' := t4 + t3' >>> 51
  let t3'' := t3' &&& mask51
  upd5 t0' t1'' t2'' t3'' t4'

/-- Bring the limbs back to the bound of products. -/
def reduce513 (a : Felem) : Felem :=
  let a := fcontractFirstCarryPass a
  let a := field.carryTop a
  field.carry0To1 a

def fdifferenceReduced (a b : Felem) : Felem := reduce513 (fdifference a b)

def fmul (a b : Felem) : Felem := field.fmul a b

def times2 (a : Felem) : Felem :=
  upd5 (2 * a.get limb0) (2 * a.get limb1) (2 * a.get limb2) (2 * a.get limb3) (2 * a.get limb4)

/-- Multiply by the coefficient of the curve. -/
def timesD (a : Felem) : Felem :=
  let d := upd5 0x00034dca135978a3 0x0001a8283b156ebd 0x0005e7a26001c029 0x000739c663a03cbb 0x00052036cee2b6ff
  fmul d a

/-- Multiply by twice the coefficient of the curve. -/
def times2d (a : Felem) : Felem :=
  let d2 := upd5 0x00069b9426b2f159 0x00035050762add7a 0x0003cf44c0038052 0x0006738cc7407977 0x0002406d9dc56dff
  fmul a d2

/-- The products of the limbs of a square, with the equal ones taken once. -/
def fsquareWide (output : Felem) : FelemWide 64 :=
  let r0 := output.get limb0
  let r1 := output.get limb1
  let r2 := output.get limb2
  let r3 := output.get limb3
  let r4 := output.get limb4
  let d0 := r0 * 2
  let d1 := r1 * 2
  let d2 := r2 * 2 * 19
  let d419 := r4 * 19
  let d4 := d419 * 2
  let s0 := mulWide r0 r0 + mulWide d4 r1 + mulWide d2 r3
  let s1 := mulWide d0 r1 + mulWide d4 r2 + mulWide (r3 * 19) r3
  let s2 := mulWide d0 r2 + mulWide r1 r1 + mulWide d4 r3
  let s3 := mulWide d0 r3 + mulWide d1 r2 + mulWide r4 d419
  let s4 := mulWide d0 r4 + mulWide d1 r3 + mulWide r2 r2
  upd5 s0 s1 s2 s3 s4

/-- Square a field element. -/
def fsquare (a : Felem) : Felem :=
  let tmp := fsquareWide a
  let tmp := field.carryWide tmp
  let tmp := field.carryTopWide tmp
  field.carry0To1 (copyFromWide tmp)

/-- Square as often as a positive count says: once, and then in a loop. -/
def fsquareTimes (input : Felem) (count : Nat) : Felem := fsquare^[count - 1] (fsquare input)

/-- The four elements that an inversion works on. -/
structure CrecipBuffer where
  a : Felem
  t0 : Felem
  b : Felem
  c : Felem

/-- The first part of an inversion. -/
def crecip1 (buf : CrecipBuffer) (z : Felem) : CrecipBuffer :=
  let a := fsquareTimes z 1
  let t0 := fsquareTimes a 2
  let b := fmul t0 z
  let a := fmul b a
  let t0 := fsquareTimes a 1
  let b := fmul t0 b
  let t0 := fsquareTimes b 5
  { buf with a, t0, b }

/-- The second part of an inversion. -/
def crecip2 (buf : CrecipBuffer) : CrecipBuffer :=
  let b := fmul buf.t0 buf.b
  let t0 := fsquareTimes b 10
  let c := fmul t0 b
  let t0 := fsquareTimes c 20
  let t0 := fmul t0 c
  let t0 := fsquareTimes t0 10
  let b := fmul t0 b
  let t0 := fsquareTimes b 50
  { buf with t0, b, c }

/-- The last part of an inversion. -/
def crecip3 (buf : CrecipBuffer) : Felem :=
  let c := fmul buf.t0 buf.b
  let t0 := fsquareTimes c 100
  let t0 := fmul t0 c
  let t0 := fsquareTimes t0 50
  let t0 := fmul t0 buf.b
  let t0 := fsquareTimes t0 5
  fmul t0 buf.a

/-- The last part of the power for square roots. -/
def crecip3' (buf : CrecipBuffer) : Felem :=
  let c := fmul buf.t0 buf.b
  let t0 := fsquareTimes c 100
  let t0 := fmul t0 c
  let t0 := fsquareTimes t0 50
  let t0 := fmul t0 buf.b
  let t0 := fsquareTimes t0 2
  fmul t0 buf.a

def zero : Felem := upd5 0 0 0 0 0

def one : Felem := upd5 1 0 0 0 0

/-- Invert a field element by the power that is two less than the modulus. -/
def crecip (z : Felem) : Felem :=
  let buf := ⟨zero, zero, zero, zero⟩
  let buf := crecip1 buf z
  let buf := crecip2 buf
  crecip3 buf

/-- The power from which square roots are made. -/
def crecip' (z : Felem) : Felem :=
  let buf := ⟨zero, zero, zero, zero⟩
  let buf := crecip1 buf z
  let buf := crecip2 buf
  let buf := { buf with a := fsquareTimes z 1 }
  crecip3' buf

def inverse (a : Felem) : Felem := crecip a

/-- Subtract the modulus when the element is not below it. -/
def fcontractTrim (input : Felem) : Felem := subtractPrime p51m19 p51m1 input

/-- Reduce an element below the modulus. -/
def reduce (out : Felem) : Felem :=
  let out := fcontractFirstCarryPass out
  let out := field.carryTop out
  let out := fcontractFirstCarryPass out
  let out := field.carryTop out
  let out := field.carry0To1 out
  fcontractTrim out

theorem field_prime : field.prime = modulus := rfl

/-- The value is the weighted sum of the limbs. -/
theorem seval_eq (a : Felem) :
    field.seval a = (a.get 0).toNat + 2 ^ 51 * (a.get 1).toNat + 2 ^ 102 * (a.get 2).toNat +
      2 ^ 153 * (a.get 3).toNat + 2 ^ 204 * (a.get 4).toNat := by
  have size : field.limbSize = 51 := rfl
  simp only [Modulo.seval, size, value, Nat.ofDigits_cons, Nat.ofDigits_nil]
  omega

/-- An element with limbs below a bound that stands for an element of the field. -/
structure Holds (bound : Nat) (a : Felem) (e : ZMod modulus) : Prop where
  below : Below bound a
  value : (field.seval a : ZMod modulus) = e

variable {a b : Felem} {d e : ZMod modulus}

theorem Holds.mono {bound bound' : Nat} (holds : Holds bound a e) (le : bound ≤ bound') : Holds bound' a e :=
  ⟨holds.below.mono le, holds.value⟩

theorem Holds.congr {bound : Nat} (holds : Holds bound a d) (same : d = e) : Holds bound a e := same ▸ holds

/-- The integer that limbs within a bound stand for. -/
theorem holds_seval {bound : Nat} (below : Below bound a) : Holds bound a (seval a) := by
  refine ⟨below, ?_⟩
  rw [seval, Spec.Curve25519.cast_mod, Int.cast_natCast]

/-- A residue that limbs stand for is their value. -/
theorem seval_eq_of_holds {bound : Nat} {e : Int} (holds : Holds bound a e) (reduced : Spec.Curve25519.Reduced e) :
    seval a = e := by
  refine (Spec.Curve25519.Reduced.eq_iff (Spec.Curve25519.reduced_mod _) reduced).mpr ?_
  rw [Spec.Curve25519.cast_mod, Int.cast_natCast, holds.value]

/-- Congruent values stand for the same element. -/
theorem cast_eq {m n : Nat} (same : m ≡ n [MOD field.prime]) : (m : ZMod modulus) = n :=
  (ZMod.natCast_eq_natCast_iff m n modulus).mpr same

/-- Sums are not carried. -/
theorem fsum_holds (first : Holds p513 a d) (second : Holds p513 b e) : Holds p53 (fsum a b) (d + e) := by
  obtain ⟨below, value⟩ := fsum_spec field first.below second.below (by decide)
  refine ⟨below.mono (by decide), ?_⟩
  rw [value, Nat.cast_add, first.value, second.value]

/-- Adding eight times the modulus keeps the value, and leaves room for a subtraction. -/
theorem fdifference_holds (first : Holds p513 a d) (second : Holds p513 b e) :
    Holds p5413 (fdifference a b) (e - d) := by
  obtain ⟨a0, a1, a2, a3, a4, rfl⟩ := five a
  obtain ⟨b0, b1, b2, b3, b4, rfl⟩ := five b
  obtain ⟨a0_lt, a1_lt, a2_lt, a3_lt, a4_lt⟩ := below_upd5.mp first.below
  obtain ⟨b0_lt, b1_lt, b2_lt, b3_lt, b4_lt⟩ := below_upd5.mp second.below
  have limb {x y : Limb} (c : Limb) (small : x.toNat < p513) (small' : y.toNat < p513)
      (large : p513 ≤ c.toNat) (bound : c.toNat < 2 ^ 54) : (y + c - x).toNat = y.toNat + c.toNat - x.toNat := by
    have sum : (y + c).toNat = y.toNat + c.toNat := toNat_add' (by omega)
    rw [BitVec.toNat_sub_of_le (by show x.toNat ≤ (y + c).toNat; omega), sum]
  have limb0 := limb two54m152 a0_lt b0_lt (by decide) (by decide)
  have limb1 := limb two54m8 a1_lt b1_lt (by decide) (by decide)
  have limb2 := limb two54m8 a2_lt b2_lt (by decide) (by decide)
  have limb3 := limb two54m8 a3_lt b3_lt (by decide) (by decide)
  have limb4 := limb two54m8 a4_lt b4_lt (by decide) (by decide)
  have low : p513 = 2 ^ 51 + 2 ^ 13 := rfl
  have high : p5413 = 2 ^ 54 + 2 ^ 51 + 2 ^ 13 := rfl
  have m152 : two54m152.toNat = 0x3fffffffffff68 := rfl
  have m8 : two54m8.toNat = 0x3ffffffffffff8 := rfl
  have result : fdifference (upd5 a0 a1 a2 a3 a4) (upd5 b0 b1 b2 b3 b4) = upd5 (b0 + two54m152 - a0)
      (b1 + two54m8 - a1) (b2 + two54m8 - a2) (b3 + two54m8 - a3) (b4 + two54m8 - a4) :=
    zipWith_upd5 _ _ _ _ _ _ _ _ _ _ _
  have total : field.seval (fdifference (upd5 a0 a1 a2 a3 a4) (upd5 b0 b1 b2 b3 b4)) +
      field.seval (upd5 a0 a1 a2 a3 a4) = field.seval (upd5 b0 b1 b2 b3 b4) + 8 * modulus := by
    rw [result, seval_eq, seval_eq, seval_eq]
    show (b0 + two54m152 - a0).toNat + 2 ^ 51 * (b1 + two54m8 - a1).toNat +
      2 ^ 102 * (b2 + two54m8 - a2).toNat + 2 ^ 153 * (b3 + two54m8 - a3).toNat +
      2 ^ 204 * (b4 + two54m8 - a4).toNat + (a0.toNat + 2 ^ 51 * a1.toNat + 2 ^ 102 * a2.toNat +
      2 ^ 153 * a3.toNat + 2 ^ 204 * a4.toNat) = b0.toNat + 2 ^ 51 * b1.toNat + 2 ^ 102 * b2.toNat +
      2 ^ 153 * b3.toNat + 2 ^ 204 * b4.toNat + 8 * (2 ^ 255 - 19)
    omega
  constructor
  · rw [result]
    exact below_upd5.mpr ⟨by omega, by omega, by omega, by omega, by omega⟩
  · rw [eq_sub_iff_add_eq, ← first.value, ← second.value, ← Nat.cast_add, total, Nat.cast_add, Nat.cast_mul,
      ZMod.natCast_self, mul_zero, add_zero]

/-- The carries, a fold and a last carry leave the bound of products. -/
theorem reduce513_holds (holds : Holds p5413 a e) : Holds p513 (reduce513 a) e := by
  have size : field.limbSize = 51 := rfl
  have factor : field.factor = 19 := rfl
  have result : reduce513 a = field.carry0To1 (field.carryTop (field.carryLimb a)) := rfl
  have room : Below (2 ^ 63) a := holds.below.mono (by decide)
  have carried := field.carryLimb_carried room
  obtain ⟨c0, c1, c2, c3⟩ := carried.bounds
  have c4 := carried.top (by decide) room
  have top : (a.get 4).toNat < 2 ^ 54 + 2 ^ 51 + 2 ^ 13 := holds.below 4
  rw [size] at c0 c1 c2 c3 c4
  set c := field.carryLimb a
  obtain ⟨d0, d1, d2, d3, d4, folded⟩ := Modulo.carryTop_spec (m := field) (a := c)
    (by rw [size, factor]; omega)
  rw [size, factor] at d0
  rw [size] at d4
  set d := field.carryTop c
  obtain ⟨f0, f1, f2, f3, f4, kept⟩ := field.carry0To1_spec (a := d) (by rw [size, d1]; omega)
  rw [size] at f0 f1
  rw [d1] at f1
  rw [result]
  constructor
  · intro i
    fin_cases i
    · exact f0.trans (by decide)
    · show ((field.carry0To1 d).get 1).toNat < 2 ^ 51 + 2 ^ 13
      omega
    · exact (congrArg BitVec.toNat (f2.trans d2)).trans_lt (c2.trans (by decide))
    · exact (congrArg BitVec.toNat (f3.trans d3)).trans_lt (c3.trans (by decide))
    · show ((field.carry0To1 d).get 4).toNat < 2 ^ 51 + 2 ^ 13
      rw [f4]
      omega
  · rw [kept, cast_eq folded, carried.seval, holds.value]

theorem fdifferenceReduced_holds (first : Holds p513 a d) (second : Holds p513 b e) :
    Holds p513 (fdifferenceReduced a b) (e - d) := reduce513_holds (fdifference_holds first second)

/-- The bounds within which the columns of a product fit. -/
theorem field_fits : field.Fits (p53 - 1) (p55 - 1) where
  times := by decide
  sum := by decide
  top := by decide

theorem fmul_holds (first : Holds p53 a d) (second : Holds p55 b e) : Holds p513 (fmul a b) (d * e) := by
  obtain ⟨below, value⟩ := Modulo.fmul_spec field_fits first.below second.below
  exact ⟨below, by rw [fmul, cast_eq value, Nat.cast_mul, first.value, second.value]⟩

/-- The weight above the top limb, in the field. -/
theorem top_wraps : (2 : ZMod modulus) ^ 255 = 19 := by
  have wraps := cast_eq field.top_wraps
  have weight : 2 ^ (4 * field.limbSize) * 2 ^ field.limbSize = 2 ^ 255 := rfl
  have factor : field.factor = 19 := rfl
  rw [weight, factor] at wraps
  exact_mod_cast wraps

/-- A column of three products that fits is their sum. -/
theorem toNat_column {x y z : BitVec (2 * 64)} {p q r : Nat} (first : x.toNat = p) (second : y.toNat = q)
    (third : z.toNat = r) (fits : p + q + r < 2 ^ 128) : (x + y + z).toNat = p + q + r := by
  have sum : (x + y).toNat = p + q := by rw [toNat_add' (by omega), first, second]
  rw [toNat_add' (by omega), sum, third]

/-- The columns of a square: each product once or twice, and those from above the top nineteen times. -/
theorem fsquareWide_spec (below : Below p5413 a) :
    Below (2 ^ 127) (fsquareWide a) ∧ ((fsquareWide a).get 4).toNat ≤ 5 * (p5413 * p5413) ∧
      (field.seval (fsquareWide a) : ZMod modulus) = (field.seval a : ZMod modulus) ^ 2 := by
  obtain ⟨r0, r1, r2, r3, r4, rfl⟩ := five a
  obtain ⟨r0_lt, r1_lt, r2_lt, r3_lt, r4_lt⟩ := below_upd5.mp below
  have bound : p5413 = 2 ^ 54 + 2 ^ 51 + 2 ^ 13 := rfl
  have times (x : Limb) (k : Nat) (c : Limb) (amount : c.toNat = k) (fits : x.toNat * k < 2 ^ 64) :
      (x * c).toNat = k * x.toNat := by
    rw [BitVec.toNat_mul, amount, Nat.mod_eq_of_lt fits, Nat.mul_comm]
  have d0 := times r0 2 2 rfl (by omega)
  have d1 := times r1 2 2 rfl (by omega)
  have d2 := times (r2 * 2) 19 19 rfl (by rw [times r2 2 2 rfl (by omega)]; omega)
  have d419 := times r4 19 19 rfl (by omega)
  have d4 := times (r4 * 19) 2 2 rfl (by rw [d419]; omega)
  have d3 := times r3 19 19 rfl (by omega)
  rw [times r2 2 2 rfl (by omega)] at d2
  rw [d419] at d4
  have product {x y : Limb} (x_lt : x.toNat < p5413) (y_lt : y.toNat < p5413) :
      x.toNat * y.toNat ≤ p5413 * p5413 := Nat.mul_le_mul x_lt.le y_lt.le
  have wide (x y : Limb) {k l m n : Nat} (first : x.toNat = k * m) (second : y.toNat = l * n) :
      (mulWide x y).toNat = k * l * (m * n) := by
    rw [mulWide_toNat, first, second]
    ring
  have once (x : Limb) : x.toNat = 1 * x.toNat := (Nat.one_mul _).symm
  have square : p5413 * p5413 = 20266198323175424 * 20266198323175424 := rfl
  have d4' : (r4 * 19 * 2).toNat = 38 * r4.toNat := by rw [d4]; ring
  have d2' : (r2 * 2 * 19).toNat = 38 * r2.toNat := by rw [d2]; ring
  have p00 := product r0_lt r0_lt
  have p41 := product r4_lt r1_lt
  have p23 := product r2_lt r3_lt
  have p01 := product r0_lt r1_lt
  have p42 := product r4_lt r2_lt
  have p33 := product r3_lt r3_lt
  have p02 := product r0_lt r2_lt
  have p11 := product r1_lt r1_lt
  have p43 := product r4_lt r3_lt
  have p03 := product r0_lt r3_lt
  have p12 := product r1_lt r2_lt
  have p44 := product r4_lt r4_lt
  have p04 := product r0_lt r4_lt
  have p13 := product r1_lt r3_lt
  have p22 := product r2_lt r2_lt
  have s0 := toNat_column (wide r0 r0 (once r0) (once r0)) (wide _ r1 d4' (once r1))
    (wide _ r3 d2' (once r3)) (by omega)
  have s1 := toNat_column (wide _ r1 d0 (once r1)) (wide _ r2 d4' (once r2)) (wide _ r3 d3 (once r3)) (by omega)
  have s2 := toNat_column (wide _ r2 d0 (once r2)) (wide r1 r1 (once r1) (once r1)) (wide _ r3 d4' (once r3))
    (by omega)
  have s3 := toNat_column (wide _ r3 d0 (once r3)) (wide _ r2 d1 (once r2)) (wide r4 _ (once r4) d419) (by omega)
  have s4 := toNat_column (wide _ r4 d0 (once r4)) (wide _ r3 d1 (once r3)) (wide r2 r2 (once r2) (once r2))
    (by omega)
  have result : fsquareWide (upd5 r0 r1 r2 r3 r4) = upd5
    (mulWide r0 r0 + mulWide (r4 * 19 * 2) r1 + mulWide (r2 * 2 * 19) r3)
    (mulWide (r0 * 2) r1 + mulWide (r4 * 19 * 2) r2 + mulWide (r3 * 19) r3)
    (mulWide (r0 * 2) r2 + mulWide r1 r1 + mulWide (r4 * 19 * 2) r3)
    (mulWide (r0 * 2) r3 + mulWide (r1 * 2) r2 + mulWide r4 (r4 * 19))
    (mulWide (r0 * 2) r4 + mulWide (r1 * 2) r3 + mulWide r2 r2) := rfl
  rw [result]
  refine ⟨below_upd5.mpr ⟨by omega, by omega, by omega, by omega, by omega⟩, ?_, ?_⟩
  · show (mulWide (r0 * 2) r4 + mulWide (r1 * 2) r3 + mulWide r2 r2).toNat ≤ _
    omega
  · rw [Modulo.seval_upd5, s0, s1, s2, s3, s4, seval_eq]
    show _ = ((r0.toNat + 2 ^ 51 * r1.toNat + 2 ^ 102 * r2.toNat + 2 ^ 153 * r3.toNat +
      2 ^ 204 * r4.toNat : Nat) : ZMod modulus) ^ 2
    have size : field.limbSize = 51 := rfl
    simp only [value, size, Nat.ofDigits_cons, Nat.ofDigits_nil]
    push_cast
    linear_combination -((2 * (r1.toNat : ZMod modulus) * r4.toNat + 2 * r2.toNat * r3.toNat) +
      2 ^ 51 * (2 * r2.toNat * r4.toNat + r3.toNat ^ 2) + 2 ^ 102 * (2 * r3.toNat * r4.toNat) +
      2 ^ 153 * r4.toNat ^ 2) * top_wraps

theorem fsquare_holds (holds : Holds p5413 a e) : Holds p513 (fsquare a) (e ^ 2) := by
  obtain ⟨room, top, value⟩ := fsquareWide_spec holds.below
  obtain ⟨below, kept⟩ := field.reduceWide_spec room top (by decide)
  have result : fsquare a =
    field.carry0To1 (copyFromWide (field.carryTopWide (field.carryWide (fsquareWide a)))) := rfl
  rw [result]
  exact ⟨below, by rw [cast_eq kept, value, holds.value]⟩

/-- Squaring again and again raises to a power of two. -/
theorem fsquareTimes_holds (holds : Holds p5413 a e) {count : Nat} (positive : 0 < count) :
    Holds p513 (fsquareTimes a count) (e ^ 2 ^ count) := by
  obtain ⟨more, rfl⟩ : ∃ more, count = more + 1 := ⟨count - 1, by omega⟩
  rw [fsquareTimes, Nat.add_sub_cancel]
  -- Induction on the turns of the loop, which follow the first square.
  induction more with
  | zero => exact fsquare_holds holds
  | succ more ih =>
    have again := fsquare_holds ((ih (by omega)).mono (by decide))
    rw [Function.iterate_succ_apply', pow_succ 2 (more + 1), pow_mul]
    exact again

theorem times2_holds (holds : Holds p513 a e) : Holds p53 (times2 a) (2 * e) := by
  obtain ⟨a0, a1, a2, a3, a4, rfl⟩ := five a
  obtain ⟨a0_lt, a1_lt, a2_lt, a3_lt, a4_lt⟩ := below_upd5.mp holds.below
  have bound : p513 = 2 ^ 51 + 2 ^ 13 := rfl
  have bound' : p53 = 2 ^ 53 := rfl
  have limb {x : Limb} (small : x.toNat < p513) : (2 * x).toNat = 2 * x.toNat := by
    rw [BitVec.toNat_mul]
    show 2 * x.toNat % 2 ^ 64 = _
    omega
  have limb0 := limb a0_lt
  have limb1 := limb a1_lt
  have limb2 := limb a2_lt
  have limb3 := limb a3_lt
  have limb4 := limb a4_lt
  have result : times2 (upd5 a0 a1 a2 a3 a4) = upd5 (2 * a0) (2 * a1) (2 * a2) (2 * a3) (2 * a4) := rfl
  have double : field.seval (times2 (upd5 a0 a1 a2 a3 a4)) = 2 * field.seval (upd5 a0 a1 a2 a3 a4) := by
    rw [result, seval_eq, seval_eq]
    show (2 * a0).toNat + 2 ^ 51 * (2 * a1).toNat + 2 ^ 102 * (2 * a2).toNat + 2 ^ 153 * (2 * a3).toNat +
      2 ^ 204 * (2 * a4).toNat = 2 * (a0.toNat + 2 ^ 51 * a1.toNat + 2 ^ 102 * a2.toNat +
        2 ^ 153 * a3.toNat + 2 ^ 204 * a4.toNat)
    omega
  constructor
  · rw [result]
    exact below_upd5.mpr ⟨by omega, by omega, by omega, by omega, by omega⟩
  · rw [double, Nat.cast_mul, holds.value, Nat.cast_ofNat]

theorem zero_holds : Holds p51 zero 0 := by
  have value : field.seval zero = 0 := by decide
  exact ⟨below_upd5.mpr (by decide), by rw [value, Nat.cast_zero]⟩

theorem one_holds : Holds p51 one 1 := by
  have value : field.seval one = 1 := by decide
  exact ⟨below_upd5.mpr (by decide), by rw [value, Nat.cast_one]⟩

theorem timesD_holds (holds : Holds p513 a e) : Holds p513 (timesD a) (Spec.Ed25519.d * e) := by
  have constant : Holds p53 (upd5 0x00034dca135978a3 0x0001a8283b156ebd 0x0005e7a26001c029
      0x000739c663a03cbb 0x00052036cee2b6ff) Spec.Ed25519.d := by
    refine ⟨below_upd5.mpr (by decide), ?_⟩
    have value : (field.seval (upd5 0x00034dca135978a3 0x0001a8283b156ebd 0x0005e7a26001c029
      0x000739c663a03cbb 0x00052036cee2b6ff : Felem) : Int) = Spec.Ed25519.d := by decide
    rw [← value, Int.cast_natCast]
  exact fmul_holds constant (holds.mono (by decide))

theorem times2d_holds (holds : Holds p513 a e) : Holds p513 (times2d a) (2 * Spec.Ed25519.d * e) := by
  have constant : Holds p55 (upd5 0x00069b9426b2f159 0x00035050762add7a 0x0003cf44c0038052
      0x0006738cc7407977 0x0002406d9dc56dff) (2 * Spec.Ed25519.d) := by
    refine ⟨below_upd5.mpr (by decide), ?_⟩
    have value : (field.seval (upd5 0x00069b9426b2f159 0x00035050762add7a 0x0003cf44c0038052
      0x0006738cc7407977 0x0002406d9dc56dff : Felem) : Int) =
        Spec.Curve25519.fmul 2 Spec.Ed25519.d := by decide
    rw [← Int.cast_natCast, value, Spec.Curve25519.cast_fmul, Int.cast_ofNat]
  rw [mul_comm]
  exact fmul_holds (holds.mono (by decide)) constant

/-! Powers of one element, as the chains of an inversion build them. -/

variable {z : ZMod modulus} {m n : Nat}

theorem fmul_power (first : Holds p513 a (z ^ m)) (second : Holds p513 b (z ^ n)) (k : Nat) (sum : m + n = k) :
    Holds p513 (fmul a b) (z ^ k) := by
  rw [← sum, pow_add]
  exact fmul_holds (first.mono (by decide)) (second.mono (by decide))

theorem fsquareTimes_power (holds : Holds p513 a (z ^ m)) (n k : Nat) (positive : 0 < n) (product : m * 2 ^ n = k) :
    Holds p513 (fsquareTimes a n) (z ^ k) := by
  rw [← product, pow_mul]
  exact fsquareTimes_holds (holds.mono (by decide)) positive

/-- What the first two parts of an inversion leave in the four elements. -/
theorem crecip2_holds {x : Felem} (holds : Holds p513 x z) (buf : CrecipBuffer) :
    Holds p513 (crecip2 (crecip1 buf x)).a (z ^ 11) ∧
      Holds p513 (crecip2 (crecip1 buf x)).t0 (z ^ (2 ^ 100 - 2 ^ 50)) ∧
      Holds p513 (crecip2 (crecip1 buf x)).b (z ^ (2 ^ 50 - 1)) := by
  have z1 : Holds p513 x (z ^ 1) := by rwa [pow_one]
  have z2 := fsquareTimes_power z1 1 2 (by decide) (by norm_num)
  have z8 := fsquareTimes_power z2 2 8 (by decide) (by norm_num)
  have z9 := fmul_power z8 z1 9 (by norm_num)
  have z11 := fmul_power z9 z2 11 (by norm_num)
  have z22 := fsquareTimes_power z11 1 22 (by decide) (by norm_num)
  have z5 := fmul_power z22 z9 (2 ^ 5 - 1) (by norm_num)
  have z5' := fsquareTimes_power z5 5 (2 ^ 10 - 2 ^ 5) (by decide) (by norm_num)
  have z10 := fmul_power z5' z5 (2 ^ 10 - 1) (by norm_num)
  have z10' := fsquareTimes_power z10 10 (2 ^ 20 - 2 ^ 10) (by decide) (by norm_num)
  have z20 := fmul_power z10' z10 (2 ^ 20 - 1) (by norm_num)
  have z20' := fsquareTimes_power z20 20 (2 ^ 40 - 2 ^ 20) (by decide) (by norm_num)
  have z40 := fmul_power z20' z20 (2 ^ 40 - 1) (by norm_num)
  have z40' := fsquareTimes_power z40 10 (2 ^ 50 - 2 ^ 10) (by decide) (by norm_num)
  have z50 := fmul_power z40' z10 (2 ^ 50 - 1) (by norm_num)
  exact ⟨z11, fsquareTimes_power z50 50 _ (by decide) (by norm_num), z50⟩

/-- The long run of squares that both powers share. -/
theorem crecipRun_holds {t0 b : Felem} (first : Holds p513 t0 (z ^ (2 ^ 100 - 2 ^ 50)))
    (second : Holds p513 b (z ^ (2 ^ 50 - 1))) :
    Holds p513 (fmul (fsquareTimes (fmul (fsquareTimes (fmul t0 b) 100) (fmul t0 b)) 50) b)
      (z ^ (2 ^ 250 - 1)) := by
  have z100 := fmul_power first second (2 ^ 100 - 1) (by norm_num)
  have z100' := fsquareTimes_power z100 100 (2 ^ 200 - 2 ^ 100) (by decide) (by norm_num)
  have z200 := fmul_power z100' z100 (2 ^ 200 - 1) (by norm_num)
  have z200' := fsquareTimes_power z200 50 (2 ^ 250 - 2 ^ 50) (by decide) (by norm_num)
  exact fmul_power z200' second _ (by norm_num)

/-- The inversion raises to the power that is two less than the modulus. -/
theorem crecip_holds (holds : Holds p513 a z) : Holds p513 (crecip a) (z ^ (2 ^ 255 - 21)) := by
  obtain ⟨z11, t0, b⟩ := crecip2_holds holds ⟨zero, zero, zero, zero⟩
  have z250 := crecipRun_holds t0 b
  have z250' := fsquareTimes_power z250 5 (2 ^ 255 - 2 ^ 5) (by decide) (by norm_num)
  exact fmul_power z250' z11 _ (by norm_num)

/-- The power for square roots, with a square in place of the eleventh power. -/
theorem crecip'_holds (holds : Holds p513 a z) : Holds p513 (crecip' a) (z ^ (2 ^ 252 - 2)) := by
  obtain ⟨-, t0, b⟩ := crecip2_holds holds ⟨zero, zero, zero, zero⟩
  have z1 : Holds p513 a (z ^ 1) := by rwa [pow_one]
  have z2 := fsquareTimes_power z1 1 2 (by decide) (by norm_num)
  have z250 := crecipRun_holds t0 b
  have z250' := fsquareTimes_power z250 2 (2 ^ 252 - 2 ^ 2) (by decide) (by norm_num)
  exact fmul_power z250' z2 _ (by norm_num)

/-- The reduction leaves the residue, in limbs without high bits. -/
theorem reduce_spec (below : Below p513 a) :
    Below p51 (reduce a) ∧ field.seval (reduce a) = field.seval a % field.prime :=
  field.contract_spec (by decide) (by decide) p51m19 p51m1 rfl rfl below

theorem reduce_holds (holds : Holds p513 a e) : Holds p51 (reduce a) e := by
  obtain ⟨below, value⟩ := reduce_spec holds.below
  exact ⟨below, by rw [value, cast_eq (Nat.mod_modEq _ _), holds.value]⟩

end HaclStar.Impl.Bignum25519
