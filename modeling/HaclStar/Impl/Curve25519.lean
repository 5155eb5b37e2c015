import HaclStar.Impl.AddAndDouble
import HaclStar.Impl.Ed25519Ladder
import HaclStar.Impl.Format25519
import HaclStar.Spec.Curve25519Ladder

/-! The Curve25519 implementation: the ladder over the bytes of a scalar, with constant-time swaps. -/

namespace HaclStar.Impl.Curve25519

open Endianness Bignum25519 Format25519 AddAndDouble
open Impl.Ed25519 (mkMask swapConditionalStep swapConditionalStep_ones swapConditionalStep_zeros)

/-- The highest bit of a byte. -/
def lastBit (byt : UInt8) : Limb := (byt >>> 7).toBitVec.setWidth 64

/-- Swap two points if the bit is set. -/
def swapConditional (a b : Point) (iswap : Limb) : Point × Point :=
  let swap := mkMask iswap
  let (ax, bx) := swapConditionalStep a.x b.x swap
  let (az, bz) := swapConditionalStep a.z b.z swap
  (⟨ax, az⟩, ⟨bx, bz⟩)

/-- Swap the points if the highest bit of the byte is set. -/
def cmultSmallLoopStep1 (nq nqpq : Point) (byt : UInt8) : Point × Point :=
  let bit := lastBit byt
  swapConditional nq nqpq bit

/-- The buffers of the ladder: the pair of points that a step reads, and the pair that it writes. -/
structure PointBuf where
  nq : Point × Point
  nq2 : Point × Point

/-- The pairs change roles. -/
def PointBuf.swap (b : PointBuf) : PointBuf := ⟨b.nq2, b.nq⟩

/-- What the step leaves in a point that it has read. -/
def spent (p : Point) : Point := ⟨FiveLimbs.fsum p.x p.z, fdifference p.z p.x⟩

/-- The step writes the second pair. -/
def cmultSmallLoopStep2 (b : PointBuf) (q : Point) : PointBuf where
  nq := (spent b.nq.1, spent b.nq.2)
  nq2 := fmonty b.nq.1 b.nq.2 q.x

/-- One step between two swaps. -/
def cmultSmallLoopStep (b : PointBuf) (q : Point) (byt : UInt8) : PointBuf :=
  let b := { b with nq := cmultSmallLoopStep1 b.nq.1 b.nq.2 byt }
  let b := cmultSmallLoopStep2 b q
  { b with nq2 := cmultSmallLoopStep1 b.nq2.1 b.nq2.2 byt }

/-- Two steps: to the second pair of buffers and back. -/
def cmultSmallLoopDoubleStep (b : PointBuf) (q : Point) (byt : UInt8) : PointBuf :=
  let b := cmultSmallLoopStep b q byt
  let byt := byt <<< 1
  let b := cmultSmallLoopStep b.swap q byt
  b.swap

/-- The bits of a byte, two at a time. -/
def cmultSmallLoop (b : PointBuf) (q : Point) (byt : UInt8) : Nat → PointBuf
  | 0 => b
  | i + 1 =>
    let b := cmultSmallLoopDoubleStep b q byt
    let byt' := byt <<< 2
    cmultSmallLoop b q byt' i

/-- The bytes of a scalar, the last one first. -/
def cmultBigLoop (n : Bytes) (b : PointBuf) (q : Point) : Nat → PointBuf
  | 0 => b
  | i + 1 =>
    let byte := n.getD i 0
    let b := cmultSmallLoop b q byte 4
    cmultBigLoop n b q i

/-- The multiple of a point: the ladder starts from the point at infinity. -/
def cmult (n : Bytes) (q : Point) : Point :=
  let nqpq := q
  let nq := ⟨one, zero⟩
  let b := cmultBigLoop n ⟨(nq, nqpq), (⟨zero, zero⟩, ⟨zero, zero⟩)⟩ q 32
  b.nq.1

def pointOfScalar (scalar : Bytes) : Point := ⟨fexpand scalar, one⟩

/-- Divide the coordinates, and write the quotient. -/
def scalarOfPoint (point : Point) : Bytes :=
  let zmone := crecip point.z
  let sc := fmul point.x zmone
  fcontract sc

/-- Clear and set the bits that every scalar has cleared and set. -/
def formatSecret (secret : Bytes) : Bytes :=
  let e0 := secret.getD 0 0
  let e31 := secret.getD 31 0
  let e0 := e0 &&& 248
  let e31 := e31 &&& 127
  let e31 := e31 ||| 64
  let e := secret.set 0 e0
  e.set 31 e31

/-- The multiple of a point by a secret, both given as thirty-two bytes. -/
def cryptoScalarmult (secret basepoint : Bytes) : Bytes :=
  let q := pointOfScalar basepoint
  let scalar := formatSecret secret
  let nq := cmult scalar q
  scalarOfPoint nq

theorem swapConditional_one (a b : Point) : swapConditional a b 1 = (b, a) := by
  have mask : mkMask 1 = BitVec.allOnes 64 := by decide
  simp only [swapConditional, mask, swapConditionalStep_ones]

theorem swapConditional_zero (a b : Point) : swapConditional a b 0 = (a, b) := by
  have mask : mkMask 0 = 0#64 := by decide
  simp only [swapConditional, mask, swapConditionalStep_zeros]

/-- The highest bit as a limb. -/
theorem lastBit_eq (byt : UInt8) : lastBit byt = if byt.toNat / 128 = 1 then 1 else 0 := by
  have small := byt.toNat_lt
  have shifted : (byt >>> 7).toNat = byt.toNat / 128 := by
    rw [UInt8.toNat_shiftRight]
    exact Nat.shiftRight_eq_div_pow _ 7
  have value : (lastBit byt).toNat = byt.toNat / 128 := by
    show ((byt >>> 7).toBitVec.setWidth 64).toNat = _
    rw [BitVec.toNat_setWidth, UInt8.toNat_toBitVec, shifted]
    omega
  apply BitVec.eq_of_toNat_eq
  rw [value]
  split
  · simp_all
  · have none : byt.toNat / 128 = 0 := by omega
    rw [none]
    rfl

theorem seval_one : seval one = 1 := by decide

theorem seval_zero : seval zero = 0 := by decide

/-- Both points of a pair are within the bound of products. -/
def Red513s (s : Point × Point) : Prop := Red513 s.1 ∧ Red513 s.2

def asPoints (s : Point × Point) : Spec.Curve25519.ProjPoint × Spec.Curve25519.ProjPoint :=
  (asPoint s.1, asPoint s.2)

variable {q : Point} {b : PointBuf}

/-- One step with its two swaps is a step of the specification, which branches on the bit. -/
theorem cmultSmallLoopStep_spec (red : Red513s b.nq) (below : FiveLimbs.Below p513 q.x) (byt : UInt8) :
    Red513s (cmultSmallLoopStep b q byt).nq2 ∧
      asPoints (cmultSmallLoopStep b q byt).nq2 =
        Spec.Curve25519.ladderStep (seval q.x) (byt.toNat / 128) (asPoints b.nq) := by
  by_cases set : byt.toNat / 128 = 1
  · -- The swapped points take each other's place, before and after the step.
    obtain ⟨red1, red2, value⟩ := fmonty_spec red.2 red.1 below
    have bit : lastBit byt = 1 := by rw [lastBit_eq, if_pos set]
    have result : (cmultSmallLoopStep b q byt).nq2 =
        ((fmonty b.nq.2 b.nq.1 q.x).2, (fmonty b.nq.2 b.nq.1 q.x).1) := by
      simp only [cmultSmallLoopStep, cmultSmallLoopStep1, cmultSmallLoopStep2, bit, swapConditional_one]
    rw [result, Spec.Curve25519.ladderStep, if_pos set]
    exact ⟨⟨red2, red1⟩, congrArg Prod.swap value⟩
  · obtain ⟨red1, red2, value⟩ := fmonty_spec red.1 red.2 below
    have bit : lastBit byt = 0 := by rw [lastBit_eq, if_neg set]
    have result : (cmultSmallLoopStep b q byt).nq2 = fmonty b.nq.1 b.nq.2 q.x := by
      simp only [cmultSmallLoopStep, cmultSmallLoopStep1, cmultSmallLoopStep2, bit, swapConditional_zero]
    rw [result, Spec.Curve25519.ladderStep, if_neg set]
    exact ⟨⟨red1, red2⟩, value⟩

/-- Two steps take the two highest bits of the byte. -/
theorem cmultSmallLoopDoubleStep_spec (red : Red513s b.nq) (below : FiveLimbs.Below p513 q.x) (byt : UInt8) :
    Red513s (cmultSmallLoopDoubleStep b q byt).nq ∧
      asPoints (cmultSmallLoopDoubleStep b q byt).nq =
        Spec.Curve25519.ladderStep (seval q.x) ((byt <<< 1).toNat / 128)
          (Spec.Curve25519.ladderStep (seval q.x) (byt.toNat / 128) (asPoints b.nq)) := by
  obtain ⟨red', value⟩ := cmultSmallLoopStep_spec red below byt
  have swapped : (cmultSmallLoopStep b q byt).swap.nq = (cmultSmallLoopStep b q byt).nq2 := rfl
  obtain ⟨red'', value'⟩ := cmultSmallLoopStep_spec (b := (cmultSmallLoopStep b q byt).swap) red' below (byt <<< 1)
  rw [swapped, value] at value'
  exact ⟨red'', value'⟩

/-- The bits of a byte that are left are the bits of the scalar below a position. -/
theorem shifted_bits (k : Bytes) (i : Nat) {j : Nat} (lt : j < 4) {byt : UInt8}
    (left : byt.toNat = (k.getD i 0).toNat * 2 ^ (8 - 2 * (j + 1)) % 256) :
    byt.toNat / 128 = Spec.Curve25519.ithBit k (8 * i + 2 * j + 1) ∧
      (byt <<< 1).toNat / 128 = Spec.Curve25519.ithBit k (8 * i + 2 * j) ∧
      (byt <<< 2).toNat = (k.getD i 0).toNat * 2 ^ (8 - 2 * j) % 256 := by
  have once : (byt <<< 1).toNat = byt.toNat * 2 % 256 := by
    rw [UInt8.toNat_shiftLeft]
    exact congrArg (· % 256) (Nat.shiftLeft_eq byt.toNat 1)
  have twice : (byt <<< 2).toNat = byt.toNat * 4 % 256 := by
    rw [UInt8.toNat_shiftLeft]
    exact congrArg (· % 256) (Nat.shiftLeft_eq byt.toNat 2)
  rw [once, twice, left, add_assoc, Spec.Curve25519.ithBit_of_byte k i (r := 2 * j + 1) (by omega),
    Spec.Curve25519.ithBit_of_byte k i (r := 2 * j) (by omega)]
  generalize (k.getD i 0).toNat = byte
  interval_cases j <;> norm_num <;> omega

/-- The steps for a byte are those of the specification for its bits. -/
theorem cmultSmallLoop_spec (k : Bytes) (i : Nat) (below : FiveLimbs.Below p513 q.x) {j : Nat} (le : j ≤ 4)
    (red : Red513s b.nq) (byt : UInt8) (left : byt.toNat = (k.getD i 0).toNat * 2 ^ (8 - 2 * j) % 256) :
    Red513s (cmultSmallLoop b q byt j).nq ∧
      Spec.Curve25519.ladderFrom (seval q.x) k (asPoints (cmultSmallLoop b q byt j).nq) (8 * i) =
        Spec.Curve25519.ladderFrom (seval q.x) k (asPoints b.nq) (8 * i + 2 * j) := by
  -- Induction on the pairs of bits that are left, over the points and the shifted byte.
  induction j generalizing b byt with
  | zero => exact ⟨red, rfl⟩
  | succ j ih =>
    obtain ⟨first, second, next⟩ := shifted_bits k i le left
    obtain ⟨red', value⟩ := cmultSmallLoopDoubleStep_spec red below byt
    obtain ⟨red'', value'⟩ := ih (by omega) red' (byt <<< 2) next
    have two : 8 * i + 2 * (j + 1) = 8 * i + 2 * j + 1 + 1 := by ring
    refine ⟨red'', value'.trans ?_⟩
    rw [two, Spec.Curve25519.ladderFrom, Spec.Curve25519.ladderFrom, value, first, second]

/-- The steps for the bytes are those of the specification for all bits. -/
theorem cmultBigLoop_spec (k : Bytes) (below : FiveLimbs.Below p513 q.x) (i : Nat) (red : Red513s b.nq) :
    Red513s (cmultBigLoop k b q i).nq ∧
      asPoints (cmultBigLoop k b q i).nq =
        Spec.Curve25519.ladderFrom (seval q.x) k (asPoints b.nq) (8 * i) := by
  induction i generalizing b with
  | zero => exact ⟨red, rfl⟩
  | succ i ih =>
    have small := (k.getD i 0).toNat_lt
    have whole : (k.getD i 0).toNat = (k.getD i 0).toNat * 2 ^ (8 - 2 * 4) % 256 := by
      rw [Nat.pow_zero, Nat.mul_one, Nat.mod_eq_of_lt small]
    obtain ⟨red', value⟩ := cmultSmallLoop_spec k i below le_rfl red (k.getD i 0) whole
    obtain ⟨red'', value'⟩ := ih red'
    exact ⟨red'', value'.trans value⟩

/-- The multiple of a point is that of the specification, as a fraction. -/
theorem cmult_spec (k : Bytes) (red : Red513 q) (unit : seval q.z = 1) :
    Red513 (cmult k q) ∧ asPoint (cmult k q) = Spec.Curve25519.montgomeryLadder (seval q.x) k := by
  have infinity : Red513 ⟨one, zero⟩ :=
    ⟨one_holds.below.mono (by decide), zero_holds.below.mono (by decide)⟩
  have start : asPoints ((⟨one, zero⟩ : Point), q) = (⟨1, 0⟩, ⟨seval q.x, 1⟩) := by
    have q' : asPoint q = ⟨seval q.x, 1⟩ := by rw [asPoint, unit]
    have infinity' : asPoint ⟨one, zero⟩ = ⟨1, 0⟩ := by rw [asPoint, seval_one, seval_zero]
    rw [asPoints, q', infinity']
  obtain ⟨red', value⟩ := cmultBigLoop_spec (b := ⟨(⟨one, zero⟩, q), (⟨zero, zero⟩, ⟨zero, zero⟩)⟩) k red.x 32 ⟨infinity, red⟩
  rw [start] at value
  exact ⟨red'.1, by rw [Spec.Curve25519.montgomeryLadder_eq, ← value]; rfl⟩

/-- The point is read with the top bit cleared, and reduced when it is evaluated. -/
theorem pointOfScalar_spec {u : Bytes} (size : u.length = 32) :
    Red513 (pointOfScalar u) ∧ seval (pointOfScalar u).x = Spec.Curve25519.decodePoint u ∧
      seval (pointOfScalar u).z = 1 := by
  obtain ⟨below, value⟩ := fexpand_spec size
  refine ⟨⟨below.mono (by decide), one_holds.below.mono (by decide)⟩, ?_, seval_one⟩
  rw [pointOfScalar, seval, value, Spec.Curve25519.decodePoint]

/-- The quotient of the coordinates is the encoding of the specification. -/
theorem scalarOfPoint_spec {p : Point} (red : Red513 p) :
    scalarOfPoint p = Spec.Curve25519.encodePoint (asPoint p) := by
  have inverse := crecip_holds (holds_seval red.z)
  have quotient := fmul_holds ((holds_seval red.x).mono (by decide)) (inverse.mono (by decide))
  have exponent : (Spec.Curve25519.prime - 2).toNat = 2 ^ 255 - 21 := by decide
  -- The exponent of the chain is the modulus less two.
  have same : seval (fmul p.x (crecip p.z)) =
      Spec.Curve25519.fmul (asPoint p).x (Spec.Curve25519.pow (asPoint p).z (Spec.Curve25519.prime - 2).toNat) := by
    apply seval_eq_of_holds (quotient.congr _) (Spec.Curve25519.reduced_fmul _ _)
    rw [Spec.Curve25519.cast_fmul, exponent, Spec.Curve25519.cast_pow _ (by norm_num), asPoint]
  rw [scalarOfPoint, fcontract_spec quotient.below, Spec.Curve25519.encodePoint, ← same, seval,
    Spec.Curve25519.prime_eq, ← Int.natCast_mod, Int.toNat_natCast]

/-- The bytes are read before either is written. -/
theorem formatSecret_eq (secret : Bytes) :
    formatSecret secret = Spec.Curve25519.decodeScalar25519 secret := by
  have last : (secret.set 0 (secret.getD 0 0 &&& 248)).getD 31 0 = secret.getD 31 0 := by
    simp [List.getD_eq_getElem?_getD]
  rw [formatSecret, Spec.Curve25519.decodeScalar25519, last]

end HaclStar.Impl.Curve25519
