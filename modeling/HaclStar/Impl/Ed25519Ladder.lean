import HaclStar.Impl.Bignum25519

/-! The Ed25519 implementation of points: addition, doubling, and the ladder with its swaps. -/

namespace HaclStar.Impl.Ed25519

open Endianness FiveLimbs Bignum25519

/-- A point: four consecutive field elements. -/
structure Point where
  x : Felem
  y : Felem
  z : Felem
  t : Felem

/-- The point of the specification that the limbs stand for. -/
def asPoint (p : Point) : Spec.Ed25519.ExtPoint := ⟨seval p.x, seval p.y, seval p.z, seval p.t⟩

/-- The six temporary field elements of an addition or a doubling. -/
structure Tmp where
  tmp1 : Felem
  tmp2 : Felem
  tmp3 : Felem
  tmp4 : Felem
  tmp5 : Felem
  tmp6 : Felem

/-- The temporary elements as they are created. -/
def Tmp.create : Tmp := ⟨zero, zero, zero, zero, zero, zero⟩

/-- The products of the differences and of the sums of coordinates. -/
def pointAddStep1 (p q : Point) (tmp : Tmp) : Tmp :=
  let tmp1 := p.x
  let tmp2 := q.x
  let tmp1 := fdifferenceReduced tmp1 p.y
  let tmp2 := fdifference tmp2 q.y
  let tmp3 := fmul tmp1 tmp2
  let tmp1 := p.y
  let tmp2 := q.y
  let tmp1 := fsum tmp1 p.x
  let tmp2 := fsum tmp2 q.x
  let tmp4 := fmul tmp1 tmp2
  { tmp with tmp1, tmp2, tmp3, tmp4 }

/-- The products of the last two coordinates, and copies of two of the elements. -/
def pointAddStep2 (p q : Point) (tmp : Tmp) : Tmp :=
  let tmp1 := times2d p.t
  let tmp2 := fmul tmp1 q.t
  let tmp1 := times2 p.z
  let tmp5 := fmul tmp1 q.z
  let tmp1 := tmp.tmp3
  let tmp6 := tmp2
  { tmp with tmp1, tmp2, tmp5, tmp6 }

/-- The four factors of the coordinates of the sum. -/
def pointAddStep3 (tmp : Tmp) : Tmp :=
  let tmp1 := fdifferenceReduced tmp.tmp1 tmp.tmp4
  let tmp6 := fdifference tmp.tmp6 tmp.tmp5
  let tmp5 := fsum tmp.tmp5 tmp.tmp2
  let tmp4 := fsum tmp.tmp4 tmp.tmp3
  { tmp with tmp1, tmp4, tmp5, tmp6 }

/-- Add two points. -/
def pointAdd (p q : Point) : Point :=
  let tmp := Tmp.create
  let tmp := pointAddStep1 p q tmp
  let tmp := pointAddStep2 p q tmp
  let tmp := pointAddStep3 tmp
  { x := fmul tmp.tmp1 tmp.tmp6
    y := fmul tmp.tmp5 tmp.tmp4
    t := fmul tmp.tmp1 tmp.tmp4
    z := fmul tmp.tmp5 tmp.tmp6 }

/-- The squares of the coordinates, and the sum of the first two. -/
def pointDoubleStep1 (p : Point) (tmp : Tmp) : Tmp :=
  let tmp1 := fsquare p.x
  let tmp2 := fsquare p.y
  let tmp3 := fsquare p.z
  let tmp4 := times2 tmp3
  let tmp3 := tmp1
  let tmp3 := fsum tmp3 tmp2
  let tmp3 := reduce513 tmp3
  { tmp with tmp1, tmp2, tmp3, tmp4 }

/-- The other factors of the coordinates of the double. -/
def pointDoubleStep2 (p : Point) (tmp : Tmp) : Tmp :=
  let tmp5 := p.x
  let tmp5 := fsum tmp5 p.y
  let tmp6 := fsquare tmp5
  let tmp5 := tmp.tmp3
  let tmp6 := fdifference tmp6 tmp5
  let tmp2 := fdifferenceReduced tmp.tmp2 tmp.tmp1
  let tmp4 := reduce513 tmp.tmp4
  let tmp4 := fsum tmp4 tmp2
  { tmp with tmp2, tmp4, tmp5, tmp6 }

/-- Double a point. -/
def pointDouble (p : Point) : Point :=
  let tmp := Tmp.create
  let tmp := pointDoubleStep1 p tmp
  let tmp := pointDoubleStep2 p tmp
  { x := fmul tmp.tmp4 tmp.tmp6
    y := fmul tmp.tmp2 tmp.tmp3
    t := fmul tmp.tmp3 tmp.tmp6
    z := fmul tmp.tmp4 tmp.tmp2 }

/-- Exchange two field elements where the mask is all ones. -/
def swapConditionalStep (a b : Felem) (swap : Limb) : Felem × Felem :=
  let x0 := swap &&& (a.get limb0 ^^^ b.get limb0)
  let x1 := swap &&& (a.get limb1 ^^^ b.get limb1)
  let x2 := swap &&& (a.get limb2 ^^^ b.get limb2)
  let x3 := swap &&& (a.get limb3 ^^^ b.get limb3)
  let x4 := swap &&& (a.get limb4 ^^^ b.get limb4)
  (upd5 (a.get limb0 ^^^ x0) (a.get limb1 ^^^ x1) (a.get limb2 ^^^ x2) (a.get limb3 ^^^ x3) (a.get limb4 ^^^ x4),
    upd5 (b.get limb0 ^^^ x0) (b.get limb1 ^^^ x1) (b.get limb2 ^^^ x2) (b.get limb3 ^^^ x3) (b.get limb4 ^^^ x4))

/-- All ones for a one bit, and zero for a zero bit. -/
def mkMask (iswap : Limb) : Limb := 0 - iswap

/-- Exchange two points for a one bit. -/
def swapConditional (a b : Point) (iswap : Limb) : Point × Point :=
  let swap := mkMask iswap
  let (ax, bx) := swapConditionalStep a.x b.x swap
  let (ay, byy) := swapConditionalStep a.y b.y swap
  let (az, bz) := swapConditionalStep a.z b.z swap
  let (aT, bT) := swapConditionalStep a.t b.t swap
  (⟨ax, ay, az, aT⟩, ⟨bx, byy, bz, bT⟩)

/-- The bit of a scalar at a position. -/
def ithBit (k : Bytes) (i : UInt32) : UInt8 :=
  let q := i >>> 3
  let r := i &&& 7
  let kq := k.getD q.toNat 0
  let kq' := kq >>> r.toUInt8
  kq' &&& 1

/-- The buffer of the ladder: its two points, and the two that a step makes of them. -/
structure LadderBuffer where
  nq : Point
  nqpq : Point
  nq2 : Point
  nqpq2 : Point

/-- Exchange the two points in place for a one bit. -/
def loopStep1 (b : LadderBuffer) (i : UInt8) : LadderBuffer :=
  let bit := i.toBitVec.setWidth 64
  let (nq, nqpq) := swapConditional b.nq b.nqpq bit
  { b with nq, nqpq }

/-- Double the first point, and add the second one to it. -/
def loopStep2 (b : LadderBuffer) : LadderBuffer :=
  let b := { b with nq2 := pointDouble b.nq }
  { b with nqpq2 := pointAdd b.nq b.nqpq }

/-- Put the results back, exchanged for a one bit. -/
def loopStep3 (b : LadderBuffer) (i : UInt8) : LadderBuffer :=
  let bit := i.toBitVec.setWidth 64
  let (nq, nqpq) := swapConditional b.nq2 b.nqpq2 bit
  { b with nq, nqpq }

/-- One step of the ladder, for the bit at a position. -/
def loopStep (b : LadderBuffer) (k : Bytes) (ctr : UInt32) : LadderBuffer :=
  let bit := ithBit k ctr
  let b := loopStep1 b bit
  let b := loopStep2 b
  loopStep3 b bit

/-- The ladder after its first turns, which read the highest bits. -/
def pointMul_ (b : LadderBuffer) (k : Bytes) : Nat → LadderBuffer
  | 0 => b
  | i + 1 => loopStep (pointMul_ b k i) k (256 - UInt32.ofNat i - 1)

/-- The neutral point. -/
def makePointInf : Point := ⟨zero, one, one, zero⟩

/-- Multiply a point by a scalar of thirty-two bytes. -/
def pointMul (scalar : Bytes) (q : Point) : Point :=
  let empty : Point := ⟨zero, zero, zero, zero⟩
  let b : LadderBuffer := ⟨empty, empty, empty, empty⟩
  let b := { b with nq := makePointInf }
  let b := { b with nqpq := q }
  let b := pointMul_ b scalar 256
  b.nq

/-- A point in range that holds a point of the specification. -/
structure PointInv (p : Point) (q : Spec.Ed25519.ExtPoint) : Prop where
  x : Holds p513 p.x q.x
  y : Holds p513 p.y q.y
  z : Holds p513 p.z q.z
  t : Holds p513 p.t q.t

variable {p p' : Point} {q q' : Spec.Ed25519.ExtPoint}

/-- Addition is that of the specification. -/
theorem pointAdd_inv (first : PointInv p q) (second : PointInv p' q') :
    PointInv (pointAdd p p') (Spec.Ed25519.pointAdd q q') := by
  have a := fmul_holds ((fdifferenceReduced_holds first.x first.y).mono (by decide))
    ((fdifference_holds second.x second.y).mono (by decide))
  have b := fmul_holds (fsum_holds first.y first.x) ((fsum_holds second.y second.x).mono (by decide))
  have c := fmul_holds ((times2d_holds first.t).mono (by decide)) (second.t.mono (by decide))
  have d := fmul_holds (times2_holds first.z) (second.z.mono (by decide))
  have e := fdifferenceReduced_holds a b
  have f := fdifference_holds c d
  have g := fsum_holds d c
  have h := fsum_holds b a
  constructor <;> simp only [pointAdd, pointAddStep1, pointAddStep2, pointAddStep3]
  · exact (fmul_holds (e.mono (by decide)) (f.mono (by decide))).congr (by simp [Spec.Ed25519.pointAdd])
  · exact (fmul_holds g (h.mono (by decide))).congr (by simp [Spec.Ed25519.pointAdd])
  · exact (fmul_holds g (f.mono (by decide))).congr (by simp [Spec.Ed25519.pointAdd, mul_comm])
  · exact (fmul_holds (e.mono (by decide)) (h.mono (by decide))).congr (by simp [Spec.Ed25519.pointAdd])

/-- Doubling is that of the specification. -/
theorem pointDouble_inv (first : PointInv p q) : PointInv (pointDouble p) (Spec.Ed25519.pointDouble q) := by
  have a := fsquare_holds (first.x.mono (by decide))
  have b := fsquare_holds (first.y.mono (by decide))
  have c := times2_holds (fsquare_holds (first.z.mono (by decide)))
  have h := reduce513_holds ((fsum_holds a b).mono (by decide))
  have e := fdifference_holds (fsquare_holds ((fsum_holds first.x first.y).mono (by decide))) h
  have g := fdifferenceReduced_holds b a
  have f := fsum_holds (reduce513_holds (c.mono (by decide))) g
  constructor <;> simp only [pointDouble, pointDoubleStep1, pointDoubleStep2]
  · have x := fmul_holds f (e.mono (by decide))
    exact x.congr (by simp [Spec.Ed25519.pointDouble]; ring)
  · have y := fmul_holds (g.mono (by decide)) (h.mono (by decide))
    exact y.congr (by simp [Spec.Ed25519.pointDouble]; ring)
  · have z := fmul_holds f (g.mono (by decide))
    exact z.congr (by simp [Spec.Ed25519.pointDouble]; ring)
  · have t := fmul_holds (h.mono (by decide)) (e.mono (by decide))
    exact t.congr (by simp [Spec.Ed25519.pointDouble]; ring)

/-- A mask of ones exchanges two elements. -/
theorem swapConditionalStep_ones (a b : Felem) : swapConditionalStep a b (BitVec.allOnes 64) = (b, a) := by
  obtain ⟨a0, a1, a2, a3, a4, rfl⟩ := five a
  obtain ⟨b0, b1, b2, b3, b4, rfl⟩ := five b
  have first (x y : Limb) : x ^^^ (BitVec.allOnes 64 &&& (x ^^^ y)) = y := by
    rw [BitVec.allOnes_and, ← BitVec.xor_assoc, BitVec.xor_self, BitVec.zero_xor]
  have second (x y : Limb) : y ^^^ (BitVec.allOnes 64 &&& (x ^^^ y)) = x := by
    rw [BitVec.allOnes_and, BitVec.xor_comm x y, ← BitVec.xor_assoc, BitVec.xor_self, BitVec.zero_xor]
  show (upd5 (a0 ^^^ (_ &&& (a0 ^^^ b0))) (a1 ^^^ (_ &&& (a1 ^^^ b1))) (a2 ^^^ (_ &&& (a2 ^^^ b2)))
    (a3 ^^^ (_ &&& (a3 ^^^ b3))) (a4 ^^^ (_ &&& (a4 ^^^ b4))), upd5 (b0 ^^^ (_ &&& (a0 ^^^ b0)))
    (b1 ^^^ (_ &&& (a1 ^^^ b1))) (b2 ^^^ (_ &&& (a2 ^^^ b2))) (b3 ^^^ (_ &&& (a3 ^^^ b3)))
    (b4 ^^^ (_ &&& (a4 ^^^ b4)))) = _
  simp only [first, second]

/-- A mask of zeros leaves them. -/
theorem swapConditionalStep_zeros (a b : Felem) : swapConditionalStep a b 0#64 = (a, b) := by
  obtain ⟨a0, a1, a2, a3, a4, rfl⟩ := five a
  obtain ⟨b0, b1, b2, b3, b4, rfl⟩ := five b
  have same (x y : Limb) : x ^^^ (0#64 &&& y) = x := by rw [BitVec.zero_and, BitVec.xor_zero]
  show (upd5 (a0 ^^^ (_ &&& (a0 ^^^ b0))) (a1 ^^^ (_ &&& (a1 ^^^ b1))) (a2 ^^^ (_ &&& (a2 ^^^ b2)))
    (a3 ^^^ (_ &&& (a3 ^^^ b3))) (a4 ^^^ (_ &&& (a4 ^^^ b4))), upd5 (b0 ^^^ (_ &&& (a0 ^^^ b0)))
    (b1 ^^^ (_ &&& (a1 ^^^ b1))) (b2 ^^^ (_ &&& (a2 ^^^ b2))) (b3 ^^^ (_ &&& (a3 ^^^ b3)))
    (b4 ^^^ (_ &&& (a4 ^^^ b4)))) = _
  simp only [same]

/-- A one bit exchanges two points. -/
theorem swapConditional_one (a b : Point) : swapConditional a b 1 = (b, a) := by
  have mask : mkMask 1 = BitVec.allOnes 64 := by decide
  simp only [swapConditional, mask, swapConditionalStep_ones]

/-- A zero bit leaves them. -/
theorem swapConditional_zero (a b : Point) : swapConditional a b 0 = (a, b) := by
  have mask : mkMask 0 = 0#64 := by decide
  simp only [swapConditional, mask, swapConditionalStep_zeros]

/-- The bits of a scalar are those of the specification. -/
theorem ithBit_toNat (k : Bytes) (i : UInt32) : (ithBit k i).toNat = Spec.Ed25519.ithBit k i.toNat := by
  have position : (i >>> 3).toNat = i.toNat / 8 := by
    rw [UInt32.toNat_shiftRight, Nat.shiftRight_eq_div_pow]
    rfl
  have amount : (i &&& 7).toUInt8.toNat = i.toNat % 8 := by
    have mask := Nat.and_two_pow_sub_one_eq_mod i.toNat 3
    rw [UInt32.toNat_toUInt8, UInt32.toNat_and]
    show (i.toNat &&& (2 ^ 3 - 1)) % 256 = _
    omega
  have low (x : Nat) : x &&& 1 = x % 2 := Nat.and_one_is_mod x
  rw [ithBit, Spec.Ed25519.ithBit, UInt8.toNat_and, UInt8.toNat_shiftRight, amount, position, Nat.mod_mod,
    Nat.shiftRight_eq_div_pow]
  exact low _

/-- One step with its two swaps is a step of the specification, which branches on the bit. -/
theorem loopStep_inv {b : LadderBuffer} (k : Bytes) (ctr : UInt32) (first : PointInv b.nq q)
    (second : PointInv b.nqpq q') :
    if Spec.Ed25519.ithBit k ctr.toNat = 1 then
      PointInv (loopStep b k ctr).nq (Spec.Ed25519.pointAdd q' q) ∧
        PointInv (loopStep b k ctr).nqpq (Spec.Ed25519.pointDouble q')
    else
      PointInv (loopStep b k ctr).nq (Spec.Ed25519.pointDouble q) ∧
        PointInv (loopStep b k ctr).nqpq (Spec.Ed25519.pointAdd q q') := by
  have bit := ithBit_toNat k ctr
  have small : (ithBit k ctr).toNat < 2 := by
    rw [bit, Spec.Ed25519.ithBit]
    exact Nat.mod_lt _ (by decide)
  rw [← bit]
  split
  next one =>
    have set : ithBit k ctr = 1 := UInt8.toNat_inj.mp one
    have wide : (1 : UInt8).toBitVec.setWidth 64 = (1 : Limb) := by decide
    simp only [loopStep, set, loopStep1, loopStep2, loopStep3, wide, swapConditional_one]
    exact ⟨pointAdd_inv second first, pointDouble_inv second⟩
  next other =>
    have clear : ithBit k ctr = 0 := UInt8.toNat_inj.mp (by show _ = 0; omega)
    have wide : (0 : UInt8).toBitVec.setWidth 64 = (0 : Limb) := by decide
    simp only [loopStep, clear, loopStep1, loopStep2, loopStep3, wide, swapConditional_zero]
    exact ⟨pointDouble_inv first, pointAdd_inv first second⟩

/-- The two points of the buffer are the accumulators of the specification, after every turn. -/
theorem pointMul_inv {b : LadderBuffer} {k : Bytes} (size : k.length = 32) (first : PointInv b.nq q)
    (second : PointInv b.nqpq q') {i : Nat} (turns : i ≤ 256) :
    PointInv (pointMul_ b k i).nq (Spec.Ed25519.montgomeryLadder_ q q' k i).1 ∧
      PointInv (pointMul_ b k i).nqpq (Spec.Ed25519.montgomeryLadder_ q q' k i).2 := by
  induction i with
  | zero => exact ⟨first, second⟩
  | succ i ih =>
    obtain ⟨nq, nqpq⟩ := ih (by omega)
    have position : (256 - UInt32.ofNat i - 1).toNat = 8 * k.length - (i + 1) := by
      have word : (UInt32.ofNat i).toNat = i := UInt32.toNat_ofNat_of_lt' (by simp [UInt32.size]; omega)
      have rest : (256 - UInt32.ofNat i).toNat = 256 - i := by
        rw [UInt32.toNat_sub_of_le _ _ (by rw [UInt32.le_iff_toNat_le, word]; exact (by omega : i ≤ 256)), word]
        rfl
      rw [UInt32.toNat_sub_of_le _ _ (by rw [UInt32.le_iff_toNat_le, rest]; exact (by omega : 1 ≤ 256 - i)), rest,
        size]
      show 256 - i - 1 = _
      omega
    have step := loopStep_inv k (256 - UInt32.ofNat i - 1) nq nqpq
    rw [position] at step
    rw [pointMul_, Spec.Ed25519.montgomeryLadder_]
    generalize Spec.Ed25519.montgomeryLadder_ q q' k i = accumulators at *
    obtain ⟨x, xp1⟩ := accumulators
    split at step
    next one => simpa only [one, if_true] using step
    next other => simpa only [other, if_false] using step

end HaclStar.Impl.Ed25519
