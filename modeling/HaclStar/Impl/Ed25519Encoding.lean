import HaclStar.Impl.Ed25519Ladder
import HaclStar.Impl.Format25519
import HaclStar.Spec.Ed25519Encoding

/-! The Ed25519 implementation of the encoding of points: recovery of the first coordinate in five steps,
decompression, compression, and the test for equality. -/

namespace HaclStar.Impl.Ed25519

open Endianness FiveLimbs Bignum25519 Format25519
open Spec.Curve25519 (modulus Reduced prime fmul fsub reduced_fmul reduced_pow reduced_mod)

/-- Whether all limbs are zero. -/
def is0 (x : Felem) : Bool :=
  x.get limb0 == 0 && x.get limb1 == 0 && x.get limb2 == 0 && x.get limb3 == 0 && x.get limb4 == 0

/-- Whether limbs in range are at least the modulus. -/
def gteQ (x : Felem) : Bool :=
  decide (x.get limb0 ≥ 0x7ffffffffffed) && x.get limb1 == 0x7ffffffffffff && x.get limb2 == 0x7ffffffffffff &&
    x.get limb3 == 0x7ffffffffffff && x.get limb4 == 0x7ffffffffffff

/-- Multiply by a root of minus one. -/
def mulModpSqrtM1 (x : Felem) : Felem :=
  let sqrtM1 := upd5 0x00061b274a0ea0b0 0x0000d5a5fc8f189d 0x0007ef5e9cbd0c60 0x00078595a6804c9e 0x0002b8324804fc1d
  fmul x sqrtM1

/-- Subtract the first element from the second one, down to the residue. -/
def fdifferenceNorm (x y : Felem) : Felem :=
  let x := fdifference x y
  let x := reduce513 x
  reduce x

/-- The lowest bit. -/
def xMod2 (x : Felem) : Limb := x.get limb0 &&& 1

/-- The square of the first coordinate. -/
def recoverXStep1 (y : Felem) : Felem :=
  let y2 := fsquare y
  let dyy := timesD y2
  let dyy := fsum dyy one
  let dyy := reduce513 dyy
  let dyyi := inverse dyy
  let difference := fdifference one y2
  let x2 := fmul dyyi difference
  reduce x2

/-- Decide where the square is zero: the code one accepts, the code zero rejects, and two goes on. -/
def recoverXStep2 (x : Felem) (sign : Limb) (x2 : Felem) : UInt8 × Felem :=
  if is0 x2 then
    if sign = 0 then (1, zero) else (0, x)
  else (2, x)

/-- The four elements of the recovery: the square, the root that is tried, and two temporary ones. -/
structure RecoverXTmp where
  x2 : Felem
  x3 : Felem
  t0 : Felem
  t1 : Felem

/-- Try the power, and correct it by a root of minus one where its square is not the right one. -/
def recoverXStep3 (tmp : RecoverXTmp) : RecoverXTmp :=
  let x3 := crecip' tmp.x2
  let t0 := fsquare x3
  let t1 := tmp.x2
  let t1 := fdifferenceNorm t1 t0
  let x3 := if is0 t1 then x3 else mulModpSqrtM1 x3
  let x3 := reduce x3
  { tmp with x3, t0, t1 }

/-- Whether the root is one. -/
def recoverXStep4 (tmp : RecoverXTmp) : Bool × RecoverXTmp :=
  let t0 := fsquare tmp.x3
  let t1 := tmp.x2
  let t1 := fdifferenceNorm t1 t0
  (is0 t1, { tmp with t0, t1 })

/-- Choose the root by its parity. -/
def recoverXStep5 (sign : Limb) (tmp : RecoverXTmp) : Felem :=
  let x0 := xMod2 tmp.x3
  if x0 ≠ sign then
    let t0 := zero
    fdifferenceNorm tmp.x3 t0
  else tmp.x3

/-- Recover the first coordinate of a point into an element. -/
def recoverX (x y : Felem) (sign : Limb) : Bool × Felem :=
  if gteQ y then (false, x)
  else
    let x2 := recoverXStep1 y
    let z := recoverXStep2 x sign x2
    if z.1 = 0 then (false, z.2)
    else if z.1 = 1 then (true, z.2)
    else
      let tmp := recoverXStep3 ⟨x2, zero, zero, zero⟩
      let z := recoverXStep4 tmp
      if z.1 = false then (false, x)
      else (true, recoverXStep5 sign z.2)

/-- The highest bit of a string. -/
def mostSignificantBit (s : Bytes) : Limb :=
  let s31 := s.getD 31 0
  let z := s31 >>> 7
  z.toBitVec.setWidth 64

/-- Load the second coordinate, and recover the first one. -/
def pointDecompressStep1 (s : Bytes) : Bool × Felem × Felem :=
  let sign := mostSignificantBit s
  let y := fexpand s
  let z := recoverX zero y sign
  (z.1, y, z.2)

/-- Decompress a string into a point. -/
def pointDecompress (out : Point) (s : Bytes) : Bool × Point :=
  let step := pointDecompressStep1 s
  let y := step.2.1
  let x := step.2.2
  if step.1 = false then (false, out)
  else (true, { x := x, y := y, z := one, t := fmul x y })

/-- Put a bit above the others. -/
def addSign (out : Bytes) (x : Limb) : Bytes :=
  let xbyte := UInt8.ofBitVec (x.setWidth 8)
  let o31 := out.getD 31 0
  out.set 31 (o31 + xbyte <<< 7)

/-- The affine coordinates of a point, as residues. -/
def pointCompress_ (p : Point) : Felem × Felem :=
  let zinv := inverse p.z
  let x := fmul p.x zinv
  let x := reduce x
  let out := fmul p.y zinv
  let out := reduce out
  (x, out)

/-- Compress a point. -/
def pointCompress (p : Point) : Bytes :=
  let tmp := pointCompress_ p
  let x := tmp.1
  let out := tmp.2
  let b := xMod2 x
  let z := fcontractStore out
  addSign z b

/-- Whether the limbs are equal. -/
def eq (a b : Felem) : Bool :=
  a.get limb0 == b.get limb0 && a.get limb1 == b.get limb1 && a.get limb2 == b.get limb2 &&
    a.get limb3 == b.get limb3 && a.get limb4 == b.get limb4

/-- Whether the first coordinates are equal, over a common denominator. -/
def pointEqual1 (p q : Point) : Bool :=
  let pxqz := fmul p.x q.z
  let pxqz := reduce pxqz
  let qxpz := fmul q.x p.z
  let qxpz := reduce qxpz
  eq pxqz qxpz

/-- Whether the second coordinates are. -/
def pointEqual2 (p q : Point) : Bool :=
  let pyqz := fmul p.y q.z
  let pyqz := reduce pyqz
  let qypz := fmul q.y p.z
  let qypz := reduce qypz
  eq pyqz qypz

/-- Whether two points are equal. -/
def pointEqual (p q : Point) : Bool := if pointEqual1 p q then pointEqual2 p q else false

/-- Limbs without high bits that hold a residue. -/
structure Norm (a : Felem) (e : Int) : Prop where
  below : Below p51 a
  value : (field.seval a : Int) = e
  reduced : Reduced e

variable {a b x y : Felem} {e e' : Int}

theorem Norm.holds (norm : Norm a e) : Holds p51 a e := by
  refine ⟨norm.below, ?_⟩
  rw [← norm.value, Int.cast_natCast]

/-- The reduction of limbs that stand for a residue holds it. -/
theorem norm_reduce (holds : Holds p513 a (e : ZMod modulus)) (reduced : Reduced e) : Norm (reduce a) e := by
  obtain ⟨below, value⟩ := reduce_spec holds.below
  have residue : Reduced (field.seval (reduce a) : Int) := by
    rw [value, field_prime, Int.natCast_mod, ← Spec.Curve25519.prime_eq]
    exact Spec.Curve25519.reduced_mod _
  refine ⟨below, ?_, reduced⟩
  rw [residue.eq_iff reduced, Int.cast_natCast]
  exact (reduce_holds holds).value

/-- Limbs in range are determined by the number they hold. -/
theorem limbs_injective (first : Below p51 a) (second : Below p51 b) (same : field.seval a = field.seval b) : a = b := by
  obtain ⟨a0, a1, a2, a3, a4, rfl⟩ := five a
  obtain ⟨b0, b1, b2, b3, b4, rfl⟩ := five b
  obtain ⟨a0_lt, a1_lt, a2_lt, a3_lt, a4_lt⟩ := below_upd5.mp first
  obtain ⟨b0_lt, b1_lt, b2_lt, b3_lt, b4_lt⟩ := below_upd5.mp second
  have size : p51 = 2 ^ 51 := rfl
  have weights : a0.toNat + 2 ^ 51 * a1.toNat + 2 ^ 102 * a2.toNat + 2 ^ 153 * a3.toNat + 2 ^ 204 * a4.toNat =
      b0.toNat + 2 ^ 51 * b1.toNat + 2 ^ 102 * b2.toNat + 2 ^ 153 * b3.toNat + 2 ^ 204 * b4.toNat := by
    rw [seval_eq, seval_eq] at same
    exact same
  have limb0 : a0 = b0 := BitVec.eq_of_toNat_eq (by omega)
  have limb1 : a1 = b1 := BitVec.eq_of_toNat_eq (by omega)
  have limb2 : a2 = b2 := BitVec.eq_of_toNat_eq (by omega)
  have limb3 : a3 = b3 := BitVec.eq_of_toNat_eq (by omega)
  have limb4 : a4 = b4 := BitVec.eq_of_toNat_eq (by omega)
  rw [limb0, limb1, limb2, limb3, limb4]

/-- The comparison of limbs is that of the elements. -/
theorem eq_iff (a b : Felem) : eq a b = true ↔ a = b := by
  obtain ⟨a0, a1, a2, a3, a4, rfl⟩ := five a
  obtain ⟨b0, b1, b2, b3, b4, rfl⟩ := five b
  constructor
  · intro same
    simp only [eq, Bool.and_eq_true, beq_iff_eq] at same
    obtain ⟨⟨⟨⟨first, second⟩, third⟩, fourth⟩, fifth⟩ := same
    have limb0 : a0 = b0 := first
    have limb1 : a1 = b1 := second
    have limb2 : a2 = b2 := third
    have limb3 : a3 = b3 := fourth
    have limb4 : a4 = b4 := fifth
    rw [limb0, limb1, limb2, limb3, limb4]
  · intro same
    simp only [eq, same, beq_self_eq_true, Bool.and_self]

/-- Residues are equal when their limbs are. -/
theorem Norm.eq_iff (first : Norm a e) (second : Norm b e') : eq a b = true ↔ e = e' := by
  rw [Ed25519.eq_iff, ← first.value, ← second.value, Nat.cast_inj]
  constructor
  · rintro rfl
    rfl
  · exact limbs_injective first.below second.below

theorem zero_norm : Norm zero 0 := by
  refine ⟨zero_holds.below, ?_, ?_⟩
  · exact congrArg Nat.cast (by decide : field.seval zero = 0)
  · constructor <;> decide

/-- The test for zero is that of the residue. -/
theorem Norm.is0_iff (norm : Norm a e) : is0 a = true ↔ e = 0 := by
  have same : is0 a = eq a zero := rfl
  rw [same]
  exact norm.eq_iff zero_norm

/-- The lowest limb has the parity of the residue. -/
theorem Norm.xMod2_toNat (norm : Norm a e) : ((xMod2 a).toNat : Int) = e % 2 := by
  have value := norm.value
  obtain ⟨a0, a1, a2, a3, a4, rfl⟩ := five a
  have low : (xMod2 (upd5 a0 a1 a2 a3 a4)).toNat = a0.toNat % 2 := by
    show (a0 &&& 1#64).toNat = _
    rw [BitVec.toNat_and]
    exact Nat.and_one_is_mod a0.toNat
  have weights : field.seval (upd5 a0 a1 a2 a3 a4) = a0.toNat + 2 ^ 51 * a1.toNat + 2 ^ 102 * a2.toNat +
      2 ^ 153 * a3.toNat + 2 ^ 204 * a4.toNat := seval_eq _
  rw [low, ← value, weights]
  omega

/-- The comparison with the modulus, which reads the lowest limb as an inequality and the others as equalities. -/
theorem gteQ_eq (below : Below p51 y) : gteQ y = decide (modulus ≤ field.seval y) := by
  obtain ⟨y0, y1, y2, y3, y4, rfl⟩ := five y
  obtain ⟨y0_lt, y1_lt, y2_lt, y3_lt, y4_lt⟩ := below_upd5.mp below
  have size : p51 = 2 ^ 51 := rfl
  have prime : modulus = 2 ^ 255 - 19 := rfl
  have weights : field.seval (upd5 y0 y1 y2 y3 y4) = y0.toNat + 2 ^ 51 * y1.toNat + 2 ^ 102 * y2.toNat +
      2 ^ 153 * y3.toNat + 2 ^ 204 * y4.toNat := seval_eq _
  have limbs : gteQ (upd5 y0 y1 y2 y3 y4) = true ↔ 0x7ffffffffffed ≤ y0.toNat ∧ y1.toNat = 0x7ffffffffffff ∧
      y2.toNat = 0x7ffffffffffff ∧ y3.toNat = 0x7ffffffffffff ∧ y4.toNat = 0x7ffffffffffff := by
    show (decide (y0 ≥ 0x7ffffffffffed#64) && y1 == 0x7ffffffffffff#64 && y2 == 0x7ffffffffffff#64 &&
      y3 == 0x7ffffffffffff#64 && y4 == 0x7ffffffffffff#64) = true ↔ _
    simp only [Bool.and_eq_true, decide_eq_true_eq, beq_iff_eq, ge_iff_le, BitVec.le_def, BitVec.toNat_eq,
      BitVec.toNat_ofNat, and_assoc]
  rw [Bool.eq_iff_iff, limbs, decide_eq_true_eq, weights]
  omega

/-- The normalised difference holds that of the specification. -/
theorem fdifferenceNorm_norm (first : Holds p513 x (e : ZMod modulus)) (second : Holds p513 y (e' : ZMod modulus)) :
    Norm (fdifferenceNorm x y) (fsub e' e) := by
  have difference := reduce513_holds (fdifference_holds first second)
  exact norm_reduce (difference.congr (Spec.Curve25519.cast_fsub e' e).symm) (reduced_mod _)

theorem mulModpSqrtM1_holds (holds : Holds p513 x (e : ZMod modulus)) :
    Holds p513 (mulModpSqrtM1 x) (fmul e Spec.Ed25519.modpSqrtM1) := by
  have root : Holds p55 (upd5 0x00061b274a0ea0b0 0x0000d5a5fc8f189d 0x0007ef5e9cbd0c60 0x00078595a6804c9e
      0x0002b8324804fc1d) Spec.Ed25519.modpSqrtM1 := by
    refine ⟨below_upd5.mpr (by decide), ?_⟩
    have value : field.seval (upd5 0x00061b274a0ea0b0 0x0000d5a5fc8f189d 0x0007ef5e9cbd0c60 0x00078595a6804c9e
      0x0002b8324804fc1d : Felem) = Primality.powMod modulus 2 (modulus / 4) := by decide +kernel
    rw [value, Primality.cast_powMod, Spec.Ed25519.cast_modpSqrtM1, Nat.cast_ofNat]
    rfl
  exact (fmul_holds (holds.mono (by decide)) root).congr (Spec.Curve25519.cast_fmul _ _).symm

/-- The first step computes the square of the first coordinate. -/
theorem recoverXStep1_norm (holds : Holds p51 y (e : ZMod modulus)) :
    Norm (recoverXStep1 y) (Spec.Ed25519.xSquare e) := by
  have exponent : (prime - 2).toNat = 2 ^ 255 - 21 := by decide
  have y2 := fsquare_holds (holds.mono (by decide))
  have dyy := reduce513_holds ((fsum_holds (timesD_holds y2) (one_holds.mono (by decide))).mono (by decide))
  have dyyi := crecip_holds dyy
  have difference := fdifference_holds (one_holds.mono (by decide)) y2
  have product := fmul_holds (dyyi.mono (by decide)) (difference.mono (by decide))
  refine norm_reduce (product.congr ?_) (reduced_fmul _ _)
  rw [Spec.Ed25519.xSquare, Spec.Ed25519.modpInv, exponent, Spec.Curve25519.cast_fmul, Spec.Curve25519.cast_fsub,
    Spec.Curve25519.cast_pow _ (by norm_num), Spec.Curve25519.cast_fadd, Spec.Curve25519.cast_fmul,
    Spec.Curve25519.cast_fmul, Spec.Curve25519.cast_fmul, Int.cast_one, ← sq, mul_comm]

/-- The test of a root: whether the normalised difference with its square is zero. -/
theorem is0_difference {c : Int} {x2 x3 : Felem} (square : Norm x2 e) (root : Holds p513 x3 (c : ZMod modulus)) :
    is0 (fdifferenceNorm x2 (fsquare x3)) = true ↔ fsub (fmul c c) e = 0 := by
  have t0 := (fsquare_holds (root.mono (by decide))).congr (d := (c : ZMod modulus) ^ 2)
    (e := (fmul c c : ZMod modulus)) (by rw [Spec.Curve25519.cast_fmul, sq])
  exact (fdifferenceNorm_norm (square.holds.mono (by decide)) t0).is0_iff

/-- The third step tries the root of the specification, and keeps the square. -/
theorem recoverXStep3_norm {tmp : RecoverXTmp} (square : Norm tmp.x2 e) :
    (recoverXStep3 tmp).x2 = tmp.x2 ∧ Norm (recoverXStep3 tmp).x3 (Spec.Ed25519.xCandidate e) := by
  have exponent : ((prime + 3) / 8).toNat = 2 ^ 252 - 2 := by decide
  have power := (crecip'_holds (square.holds.mono (by decide))).congr (d := (e : ZMod modulus) ^ (2 ^ 252 - 2))
    (e := (Spec.Curve25519.pow e ((prime + 3) / 8).toNat : ZMod modulus))
    (by rw [exponent, Spec.Curve25519.cast_pow e (by norm_num)])
  have right := is0_difference square power
  refine ⟨rfl, ?_⟩
  rw [recoverXStep3, Spec.Ed25519.xCandidate]
  -- The correction is made in the same case on both sides.
  by_cases zero : fsub (fmul (Spec.Curve25519.pow e ((prime + 3) / 8).toNat)
      (Spec.Curve25519.pow e ((prime + 3) / 8).toNat)) e = 0
  · simp only [right.mpr zero, if_true, zero, ne_eq, not_true_eq_false, if_false]
    exact norm_reduce power (reduced_pow square.reduced _)
  · have wrong : is0 (fdifferenceNorm tmp.x2 (fsquare (crecip' tmp.x2))) = false := by
      rw [Bool.eq_false_iff]
      exact mt right.mp zero
    simp only [wrong, Bool.false_eq_true, if_false, ne_eq, zero, not_false_eq_true, if_true]
    exact norm_reduce (mulModpSqrtM1_holds power) (reduced_fmul _ _)

/-- The fourth step decides whether the root is one, and keeps it. -/
theorem recoverXStep4_spec {tmp : RecoverXTmp} {c : Int} (square : Norm tmp.x2 e) (root : Norm tmp.x3 c) :
    ((recoverXStep4 tmp).1 = true ↔ fsub (fmul c c) e = 0) ∧ (recoverXStep4 tmp).2.x3 = tmp.x3 :=
  ⟨is0_difference square (root.holds.mono (by decide)), rfl⟩

/-- The last step chooses the root of the right parity. -/
theorem recoverXStep5_norm {tmp : RecoverXTmp} {c : Int} {sign : Limb} (bit : sign = 0 ∨ sign = 1)
    (root : Norm tmp.x3 c) :
    Norm (recoverXStep5 sign tmp) (if decide (c % 2 = 1) ≠ decide (sign = 1) then fsub prime c else c) := by
  have parity := root.xMod2_toNat
  have same : xMod2 tmp.x3 ≠ sign ↔ decide (c % 2 = 1) ≠ decide (sign = 1) := by
    rw [ne_eq, ne_eq, not_iff_not, BitVec.toNat_eq, decide_eq_decide]
    rcases bit with rfl | rfl
    · show (xMod2 tmp.x3).toNat = 0 ↔ (c % 2 = 1 ↔ (0 : Limb) = 1)
      have different : (0 : Limb) ≠ 1 := by decide
      simp only [different, iff_false]
      omega
    · show (xMod2 tmp.x3).toNat = 1 ↔ (c % 2 = 1 ↔ (1 : Limb) = 1)
      simp only [iff_true]
      omega
  rw [recoverXStep5]
  by_cases other : decide (c % 2 = 1) ≠ decide (sign = 1)
  · rw [if_pos (same.mpr other), if_pos other]
    -- The difference is taken from zero, which is the prime as a residue.
    have nothing : Holds p513 zero ((0 : Int) : ZMod modulus) :=
      (zero_holds.mono (by decide)).congr Int.cast_zero.symm
    have difference := fdifferenceNorm_norm (root.holds.mono (by decide)) nothing
    have wraps : fsub 0 c = fsub prime c := by
      rw [fsub, fsub, zero_sub, sub_eq_add_neg, Int.add_emod_left]
    rw [← wraps]
    exact difference
  · rw [if_neg (mt same.mp other), if_neg other]
    exact root

/-! The recovery, by the codes of its second step. -/

theorem recoverX_large {sign : Limb} (large : gteQ y = true) : recoverX x y sign = (false, x) := by
  rw [recoverX, if_pos large]

theorem recoverX_zero {sign : Limb} (small : gteQ y = false) (none : is0 (recoverXStep1 y) = true) :
    recoverX x y sign = if sign = 0 then (true, zero) else (false, x) := by
  have step2 : recoverXStep2 x sign (recoverXStep1 y) = if sign = 0 then (1, zero) else (0, x) := by
    rw [recoverXStep2, if_pos none]
  have accepted : (1 : UInt8) ≠ 0 := by decide
  rw [recoverX, if_neg (by rw [small]; exact Bool.false_ne_true)]
  show (if (recoverXStep2 x sign (recoverXStep1 y)).1 = 0 then _
    else if (recoverXStep2 x sign (recoverXStep1 y)).1 = 1 then _ else _) = _
  rw [step2]
  by_cases clear : sign = 0
  · rw [if_pos clear, if_pos clear, if_neg accepted, if_pos rfl]
  · rw [if_neg clear, if_neg clear, if_pos rfl]

theorem recoverX_root {sign : Limb} (small : gteQ y = false) (some : is0 (recoverXStep1 y) = false)
    {start : RecoverXTmp} (initial : start = ⟨recoverXStep1 y, zero, zero, zero⟩) :
    recoverX x y sign = if (recoverXStep4 (recoverXStep3 start)).1 = false then (false, x)
      else (true, recoverXStep5 sign (recoverXStep4 (recoverXStep3 start)).2) := by
  have step2 : recoverXStep2 x sign (recoverXStep1 y) = (2, x) := by
    rw [recoverXStep2, if_neg (by rw [some]; exact Bool.false_ne_true)]
  have code : (2 : UInt8) ≠ 0 ∧ (2 : UInt8) ≠ 1 := by decide
  rw [recoverX, if_neg (by rw [small]; exact Bool.false_ne_true), initial]
  show (if (recoverXStep2 x sign (recoverXStep1 y)).1 = 0 then _
    else if (recoverXStep2 x sign (recoverXStep1 y)).1 = 1 then _ else _) = _
  rw [step2, if_neg code.1, if_neg code.2]

/-- The five steps, for limbs of any number that the first comparison sees right. -/
theorem recoverX_number (x : Felem) {sign : Limb} (bit : sign = 0 ∨ sign = 1) {n : Int}
    (number : Holds p51 y (n : ZMod modulus)) (large : gteQ y = true ↔ n ≥ prime) :
    match Spec.Ed25519.recoverX n (decide (sign = 1)) with
    | none => (recoverX x y sign).1 = false
    | some e => (recoverX x y sign).1 = true ∧ Norm (recoverX x y sign).2 e := by
  have square := recoverXStep1_norm number
  have zero := square.is0_iff
  rw [Spec.Ed25519.recoverX_eq]
  by_cases canonical : n ≥ prime
  · rw [if_pos canonical, recoverX_large (large.mpr canonical)]
  · have small : gteQ y = false := by
      rw [Bool.eq_false_iff]
      exact mt large.mp canonical
    rw [if_neg canonical]
    by_cases none : Spec.Ed25519.xSquare n = 0
    · -- Where the square is zero, so is the root, and its sign has to be zero.
      rw [if_pos none, recoverX_zero small (zero.mpr none)]
      rcases bit with rfl | rfl
      · exact ⟨rfl, zero_norm⟩
      · rfl
    · have some : is0 (recoverXStep1 y) = false := by
        rw [Bool.eq_false_iff]
        exact mt zero.mp none
      obtain ⟨start, initial⟩ : ∃ start : RecoverXTmp,
          start = ⟨recoverXStep1 y, Bignum25519.zero, Bignum25519.zero, Bignum25519.zero⟩ := ⟨_, rfl⟩
      have square0 : Norm start.x2 (Spec.Ed25519.xSquare n) := by
        rw [initial]
        exact square
      obtain ⟨kept, candidate⟩ := recoverXStep3_norm square0
      have square3 : Norm (recoverXStep3 start).x2 (Spec.Ed25519.xSquare n) := by
        rw [kept]
        exact square0
      obtain ⟨accepted, same⟩ := recoverXStep4_spec square3 candidate
      have candidate4 : Norm (recoverXStep4 (recoverXStep3 start)).2.x3
          (Spec.Ed25519.xCandidate (Spec.Ed25519.xSquare n)) := by
        rw [same]
        exact candidate
      rw [if_neg none, recoverX_root small some initial]
      by_cases right : fsub (fmul (Spec.Ed25519.xCandidate (Spec.Ed25519.xSquare n))
          (Spec.Ed25519.xCandidate (Spec.Ed25519.xSquare n))) (Spec.Ed25519.xSquare n) = 0
      · have yes : ¬ (recoverXStep4 (recoverXStep3 start)).1 = false := by
          rw [accepted.mpr right, Bool.true_eq_false]
          exact not_false
        rw [if_neg (not_not.mpr right), if_neg yes]
        exact ⟨rfl, recoverXStep5_norm bit candidate4⟩
      · have no : (recoverXStep4 (recoverXStep3 start)).1 = false := by
          rw [Bool.eq_false_iff]
          exact mt accepted.mp right
        rw [if_pos right, if_pos no]

/-- The five steps recover what the specification recovers. -/
theorem recoverX_spec (x : Felem) {sign : Limb} (bit : sign = 0 ∨ sign = 1) (below : Below p51 y) :
    match Spec.Ed25519.recoverX (field.seval y) (decide (sign = 1)) with
    | none => (recoverX x y sign).1 = false
    | some e => (recoverX x y sign).1 = true ∧ Norm (recoverX x y sign).2 e := by
  refine recoverX_number x bit ⟨below, by rw [Int.cast_natCast]⟩ ?_
  rw [gteQ_eq below, decide_eq_true_eq, Spec.Curve25519.prime_eq, ge_iff_le, Nat.cast_le]

/-- The highest bit is that of the number. -/
theorem mostSignificantBit_spec (s : Bytes) :
    (mostSignificantBit s = 0 ∨ mostSignificantBit s = 1) ∧
      decide (mostSignificantBit s = 1) = Spec.Ed25519.signOf s := by
  have byte := UInt8.toNat_lt (s.getD 31 0)
  have bit : Spec.Ed25519.ithBit s 255 = (s.getD 31 0).toNat / 2 ^ 7 % 2 := rfl
  have word : (mostSignificantBit s).toNat = (s.getD 31 0).toNat / 2 ^ 7 := by
    show ((s.getD 31 0 >>> 7).toBitVec.setWidth 64).toNat = _
    have shifted : (s.getD 31 0 >>> 7).toNat = (s.getD 31 0).toNat / 2 ^ 7 := by
      rw [UInt8.toNat_shiftRight, Nat.shiftRight_eq_div_pow]
      rfl
    rw [BitVec.toNat_setWidth, UInt8.toNat_toBitVec, shifted]
    omega
  rw [Spec.Ed25519.ithBit_eq] at bit
  constructor
  · have small : (mostSignificantBit s).toNat = 0 ∨ (mostSignificantBit s).toNat = 1 := by omega
    rcases small with zero | one
    · exact .inl (BitVec.eq_of_toNat_eq zero)
    · exact .inr (BitVec.eq_of_toNat_eq one)
  · rw [Spec.Ed25519.signOf, decide_eq_decide, bit, BitVec.toNat_eq, word]
    show _ = 1 ↔ _
    omega

/-- Decompression in terms of the recovery. -/
theorem pointDecompress_eq (out : Point) (s : Bytes) :
    pointDecompress out s =
      if (recoverX zero (fexpand s) (mostSignificantBit s)).1 = false then (false, out)
      else (true, { x := (recoverX zero (fexpand s) (mostSignificantBit s)).2
                    y := fexpand s
                    z := one
                    t := Bignum25519.fmul (recoverX zero (fexpand s) (mostSignificantBit s)).2 (fexpand s) }) := rfl

/-- Decompression is that of the specification: it fails on the same strings, with the point as it was, and
otherwise holds the same coordinates. -/
theorem pointDecompress_spec (out : Point) {s : Bytes} (size : s.length = 32) :
    match Spec.Ed25519.pointDecompress s with
    | none => pointDecompress out s = (false, out)
    | some q => ∃ p, pointDecompress out s = (true, p) ∧ PointInv p q := by
  obtain ⟨below, value⟩ := fexpand_spec size
  obtain ⟨bit, sign⟩ := mostSignificantBit_spec s
  have recovered := recoverX_spec Bignum25519.zero bit below
  have number : (field.seval (fexpand s) : Int) = Spec.Ed25519.yOf s := by rw [value, Spec.Ed25519.yOf]
  rw [number, sign] at recovered
  cases run : Spec.Ed25519.pointDecompress s with
  | none =>
    have none : Spec.Ed25519.recoverX (Spec.Ed25519.yOf s) (Spec.Ed25519.signOf s) = none := by
      by_contra some
      obtain ⟨x, found⟩ := Option.ne_none_iff_exists'.mp some
      rw [(Spec.Ed25519.pointDecompress_eq_some_iff s _).mpr
        ⟨x, (Spec.Ed25519.recoverX_eq_some_iff _ _ _).mp found, rfl⟩] at run
      cases run
    rw [none] at recovered
    show pointDecompress out s = (false, out)
    rw [pointDecompress_eq, if_pos recovered]
  | some q =>
    obtain ⟨x, recovers, rfl⟩ := (Spec.Ed25519.pointDecompress_eq_some_iff s q).mp run
    rw [(Spec.Ed25519.recoverX_eq_some_iff _ _ _).mpr recovers] at recovered
    obtain ⟨accepted, first⟩ := recovered
    have second : Holds p51 (fexpand s) (Spec.Ed25519.yOf s : ZMod modulus) := by
      refine ⟨below, ?_⟩
      rw [← number, Int.cast_natCast]
    have product := fmul_holds (first.holds.mono (by decide)) (second.mono (by decide))
    have yes : ¬ (recoverX zero (fexpand s) (mostSignificantBit s)).1 = false := by
      rw [accepted, Bool.true_eq_false]
      exact not_false
    have within : p51 ≤ p513 := by decide
    have unit : Holds p513 one ((1 : Int) : ZMod modulus) := (one_holds.mono within).congr Int.cast_one.symm
    refine ⟨_, by rw [pointDecompress_eq, if_neg yes], first.holds.mono within, second.mono within, unit,
      product.congr (Spec.Curve25519.cast_fmul _ _).symm⟩

/-- A bit added at the top of a string is added at the top of its number. -/
theorem addSign_littleBytes (n : Nat) {x : Limb} (bit : x.toNat < 2) :
    addSign (littleBytes 32 n) x = littleBytes 32 (2 ^ 255 * x.toNat + n) := by
  have low := littleBytes_add 31 1 n
  have high := littleBytes_add 31 1 (2 ^ 255 * x.toNat + n)
  have same : littleBytes 31 (2 ^ 255 * x.toNat + n) = littleBytes 31 n := by
    rw [← littleBytes_mod 31 (2 ^ 255 * x.toNat + n), ← littleBytes_mod 31 n]
    congr 1
    omega
  have whole : littleBytes 32 n = littleBytes 31 n ++ [UInt8.ofNat (n / 2 ^ 248 % 256)] := low
  have whole' : littleBytes 32 (2 ^ 255 * x.toNat + n) =
      littleBytes 31 n ++ [UInt8.ofNat ((2 ^ 255 * x.toNat + n) / 2 ^ 248 % 256)] := by
    rw [← same]
    exact high
  have size : (littleBytes 31 n).length = 31 := littleBytes_length 31 n
  have last : (littleBytes 32 n).getD 31 0 = UInt8.ofNat (n / 2 ^ 248 % 256) := by
    rw [whole, List.getD_append_right _ _ _ _ (by rw [size]), size]
    rfl
  have byte : UInt8.ofNat (n / 2 ^ 248 % 256) + UInt8.ofBitVec (x.setWidth 8) <<< 7 =
      UInt8.ofNat ((2 ^ 255 * x.toNat + n) / 2 ^ 248 % 256) := by
    have moved : (UInt8.ofBitVec (x.setWidth 8) <<< 7).toNat = x.toNat * 128 := by
      rw [UInt8.toNat_shiftLeft, Nat.shiftLeft_eq]
      show (x.setWidth 8).toNat * 2 ^ 7 % 2 ^ 8 = _
      rw [BitVec.toNat_setWidth]
      omega
    apply UInt8.toNat_inj.mp
    rw [UInt8.toNat_add, moved, UInt8.toNat_ofNat', UInt8.toNat_ofNat']
    omega
  rw [addSign, last, byte, whole', whole, List.set_append_right _ _ (by rw [size]), size]
  rfl

/-- Compression writes the string of the specification. -/
theorem pointCompress_spec {p : Point} {q : Spec.Ed25519.ExtPoint} (inv : PointInv p q) :
    pointCompress p = Spec.Ed25519.pointCompress q := by
  have exponent : (prime - 2).toNat = 2 ^ 255 - 21 := by decide
  have zinv := (crecip_holds inv.z).congr (e := (Spec.Ed25519.modpInv q.z : ZMod modulus))
    (by rw [Spec.Ed25519.modpInv, exponent, Spec.Curve25519.cast_pow _ (by norm_num)])
  have first := norm_reduce ((fmul_holds (inv.x.mono (by decide)) (zinv.mono (by decide))).congr
    (Spec.Curve25519.cast_fmul _ _).symm) (reduced_fmul _ _)
  have second := norm_reduce ((fmul_holds (inv.y.mono (by decide)) (zinv.mono (by decide))).congr
    (Spec.Curve25519.cast_fmul _ _).symm) (reduced_fmul _ _)
  have parity := first.xMod2_toNat
  have bound : prime = 2 ^ 255 - 19 := rfl
  have value := second.value
  have below := second.reduced.2
  have run : pointCompress p = addSign (fcontractStore (reduce (Bignum25519.fmul p.y (crecip p.z))))
      (xMod2 (reduce (Bignum25519.fmul p.x (crecip p.z)))) := rfl
  rw [run, fcontractStore_spec second.below, addSign_littleBytes _ (by omega), Spec.Ed25519.pointCompress]
  congr 1
  omega

/-- The test for equality is that of the specification. -/
theorem pointEqual_spec {p p' : Point} {q q' : Spec.Ed25519.ExtPoint} (first : PointInv p q)
    (second : PointInv p' q') : pointEqual p p' = Spec.Ed25519.pointEqual q q' := by
  have product {a b : Felem} {e e' : Int} (left : Holds p513 a (e : ZMod modulus))
      (right : Holds p513 b (e' : ZMod modulus)) : Norm (reduce (Bignum25519.fmul a b)) (fmul e e') :=
    norm_reduce ((fmul_holds (left.mono (by decide)) (right.mono (by decide))).congr
      (Spec.Curve25519.cast_fmul _ _).symm) (reduced_fmul _ _)
  have xs : pointEqual1 p p' = true ↔ fmul q.x q'.z = fmul q'.x q.z :=
    (product first.x second.z).eq_iff (product second.x first.z)
  have ys : pointEqual2 p p' = true ↔ fmul q.y q'.z = fmul q'.y q.z :=
    (product first.y second.z).eq_iff (product second.y first.z)
  rw [pointEqual, Spec.Ed25519.pointEqual]
  by_cases sameX : fmul q.x q'.z = fmul q'.x q.z
  · rw [if_neg (not_not.mpr sameX), if_pos (xs.mpr sameX)]
    by_cases sameY : fmul q.y q'.z = fmul q'.y q.z
    · rw [if_neg (not_not.mpr sameY)]
      exact ys.mpr sameY
    · rw [if_pos sameY]
      exact Bool.eq_false_iff.mpr (mt ys.mp sameY)
  · rw [if_pos sameX, if_neg (mt xs.mp sameX)]

end HaclStar.Impl.Ed25519
