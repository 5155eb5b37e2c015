import HaclStar.Lib.Checked

/-! Arithmetic modulo the order of the base point of Ed25519, on limbs of 56 bits. Every addition, subtraction and
product fails where it leaves its words; a comparison and a mask wrap around on purpose. -/

namespace HaclStar.Impl.BignumQ

/-- Five limbs, the lowest first. -/
structure Qelem where
  q0 : BitVec 64
  q1 : BitVec 64
  q2 : BitVec 64
  q3 : BitVec 64
  q4 : BitVec 64
  deriving DecidableEq

/-- Ten limbs. -/
structure Qelem10 where
  t0 : BitVec 64
  t1 : BitVec 64
  t2 : BitVec 64
  t3 : BitVec 64
  t4 : BitVec 64
  t5 : BitVec 64
  t6 : BitVec 64
  t7 : BitVec 64
  t8 : BitVec 64
  t9 : BitVec 64
  deriving DecidableEq

/-- The nine double words of a product. -/
structure QelemWide where
  w0 : BitVec 128
  w1 : BitVec 128
  w2 : BitVec 128
  w3 : BitVec 128
  w4 : BitVec 128
  w5 : BitVec 128
  w6 : BitVec 128
  w7 : BitVec 128
  w8 : BitVec 128

/-- The number that five limbs stand for. -/
def evalQ (x : Qelem) : Nat :=
  x.q0.toNat + 2 ^ 56 * x.q1.toNat + 2 ^ 112 * x.q2.toNat + 2 ^ 168 * x.q3.toNat + 2 ^ 224 * x.q4.toNat

/-- The number that ten limbs stand for. -/
def evalQ10 (t : Qelem10) : Nat :=
  t.t0.toNat + 2 ^ 56 * t.t1.toNat + 2 ^ 112 * t.t2.toNat + 2 ^ 168 * t.t3.toNat + 2 ^ 224 * t.t4.toNat
    + 2 ^ 280 * t.t5.toNat + 2 ^ 336 * t.t6.toNat + 2 ^ 392 * t.t7.toNat + 2 ^ 448 * t.t8.toNat
    + 2 ^ 504 * t.t9.toNat

/-- The number that the double words of a product stand for. -/
def evalQWide (z : QelemWide) : Nat :=
  z.w0.toNat + 2 ^ 56 * z.w1.toNat + 2 ^ 112 * z.w2.toNat + 2 ^ 168 * z.w3.toNat + 2 ^ 224 * z.w4.toNat
    + 2 ^ 280 * z.w5.toNat + 2 ^ 336 * z.w6.toNat + 2 ^ 392 * z.w7.toNat + 2 ^ 448 * z.w8.toNat

/-- Five limbs that have 56 bits. -/
structure Within56 (x : Qelem) : Prop where
  q0 : x.q0.toNat < 2 ^ 56
  q1 : x.q1.toNat < 2 ^ 56
  q2 : x.q2.toNat < 2 ^ 56
  q3 : x.q3.toNat < 2 ^ 56
  q4 : x.q4.toNat < 2 ^ 56

/-- Ten limbs that have 56 bits. -/
structure All10Below56 (t : Qelem10) : Prop where
  t0 : t.t0.toNat < 2 ^ 56
  t1 : t.t1.toNat < 2 ^ 56
  t2 : t.t2.toNat < 2 ^ 56
  t3 : t.t3.toNat < 2 ^ 56
  t4 : t.t4.toNat < 2 ^ 56
  t5 : t.t5.toNat < 2 ^ 56
  t6 : t.t6.toNat < 2 ^ 56
  t7 : t.t7.toNat < 2 ^ 56
  t8 : t.t8.toNat < 2 ^ 56
  t9 : t.t9.toNat < 2 ^ 56

/-- The limbs of the order. -/
def m : Qelem where
  q0 := 0x12631a5cf5d3ed#64
  q1 := 0xf9dea2f79cd658#64
  q2 := 0x000000000014de#64
  q3 := 0x00000000000000#64
  q4 := 0x00000010000000#64

/-- The limbs of the reciprocal of the order. -/
def mu : Qelem where
  q0 := 0x9ce5a30a2c131b#64
  q1 := 0x215d086329a7ed#64
  q2 := 0xffffffffeb2106#64
  q3 := 0xffffffffffffff#64
  q4 := 0x00000fffffffff#64

/-- The first operand where the bit is set, and the second one where it is not; the mask wraps around on purpose. -/
def choose (x y : Qelem) (b : BitVec 64) : Qelem :=
  let mask := b - 1#64
  { q0 := ((y.q0 ^^^ x.q0) &&& mask) ^^^ x.q0
    q1 := ((y.q1 ^^^ x.q1) &&& mask) ^^^ x.q1
    q2 := ((y.q2 ^^^ x.q2) &&& mask) ^^^ x.q2
    q3 := ((y.q3 ^^^ x.q3) &&& mask) ^^^ x.q3
    q4 := ((y.q4 ^^^ x.q4) &&& mask) ^^^ x.q4 }

/-- The bit that tells whether the first operand is less: the sign of the difference, which wraps around. -/
def lt (a b : BitVec 64) : BitVec 64 := (a - b) >>> 63

/-- Subtract in one limb, with a borrow from the next one. -/
def submStep (bits : Nat) (x y : BitVec 64) : Option (BitVec 64 × BitVec 64) := do
  let b := lt x y
  let raised ← Checked.add (b <<< bits) x
  let t ← Checked.sub raised y
  return (b, t)

/-- Subtract limb by limb, with the last borrow. -/
def subm (lastBits : Nat) (x y : Qelem) : Option (BitVec 64 × Qelem) := do
  let (b, t0) ← submStep 56 x.q0 y.q0
  let y1 ← Checked.add y.q1 b
  let (b, t1) ← submStep 56 x.q1 y1
  let y2 ← Checked.add y.q2 b
  let (b, t2) ← submStep 56 x.q2 y2
  let y3 ← Checked.add y.q3 b
  let (b, t3) ← submStep 56 x.q3 y3
  let y4 ← Checked.add y.q4 b
  let (b, t4) ← submStep lastBits x.q4 y4
  return (b, ⟨t0, t1, t2, t3, t4⟩)

/-- Subtract modulo `2 ^ 264`. -/
def subMod264 (x y : Qelem) : Option Qelem := do
  let (_, z) ← subm 40 x y
  return z

/-- Subtract the order, unless the operand is less. -/
def submConditional (r : Qelem) : Option Qelem := do
  let (b, z) ← subm 56 r m
  return choose r z b

/-- The bits above the lowest 56, and the lowest 56. -/
def split56 (x : BitVec 128) : BitVec 128 × BitVec 64 :=
  (x >>> 56, x.setWidth 64 &&& 0xffffffffffffff#64)

/-- The lowest 40 bits. -/
def mod40 (x : BitVec 128) : BitVec 64 := x.setWidth 64 &&& 0xffffffffff#64

/-- The product of two limbs, which always fits into a double word. -/
def mulWide (x y : BitVec 64) : BitVec 128 := x.setWidth 128 * y.setWidth 128

/-- The product modulo `2 ^ 264`. -/
def lowMul5 (x y : Qelem) : Option Qelem := do
  let (carry, t0) := split56 (mulWide x.q0 y.q0)
  let x1 ← Checked.sum (mulWide x.q0 y.q1) [mulWide x.q1 y.q0, carry]
  let (carry, t1) := split56 x1
  let x2 ← Checked.sum (mulWide x.q0 y.q2) [mulWide x.q1 y.q1, mulWide x.q2 y.q0, carry]
  let (carry, t2) := split56 x2
  let x3 ← Checked.sum (mulWide x.q0 y.q3) [mulWide x.q1 y.q2, mulWide x.q2 y.q1, mulWide x.q3 y.q0, carry]
  let (carry, t3) := split56 x3
  let x4 ← Checked.sum (mulWide x.q0 y.q4)
    [mulWide x.q1 y.q3, mulWide x.q2 y.q2, mulWide x.q3 y.q1, mulWide x.q4 y.q0, carry]
  return ⟨t0, t1, t2, t3, mod40 x4⟩

/-- The product, in double words. -/
def mul5 (x y : Qelem) : Option QelemWide := do
  let z1 ← Checked.sum (mulWide x.q0 y.q1) [mulWide x.q1 y.q0]
  let z2 ← Checked.sum (mulWide x.q0 y.q2) [mulWide x.q1 y.q1, mulWide x.q2 y.q0]
  let z3 ← Checked.sum (mulWide x.q0 y.q3) [mulWide x.q1 y.q2, mulWide x.q2 y.q1, mulWide x.q3 y.q0]
  let z4 ← Checked.sum (mulWide x.q0 y.q4)
    [mulWide x.q1 y.q3, mulWide x.q2 y.q2, mulWide x.q3 y.q1, mulWide x.q4 y.q0]
  let z5 ← Checked.sum (mulWide x.q1 y.q4) [mulWide x.q2 y.q3, mulWide x.q3 y.q2, mulWide x.q4 y.q1]
  let z6 ← Checked.sum (mulWide x.q2 y.q4) [mulWide x.q3 y.q3, mulWide x.q4 y.q2]
  let z7 ← Checked.sum (mulWide x.q3 y.q4) [mulWide x.q4 y.q3]
  return ⟨mulWide x.q0 y.q0, z1, z2, z3, z4, z5, z6, z7, mulWide x.q4 y.q4⟩

/-- Carry what does not fit into a limb to the next double word. -/
def carryStep (x y : BitVec 128) : Option (BitVec 64 × BitVec 128) := do
  let z ← Checked.add y (x >>> 56)
  return (x.setWidth 64 &&& 0xffffffffffffff#64, z)

/-- Carry from the bottom to the top; the last carry is narrowed. -/
def carry (z : QelemWide) : Option Qelem10 := do
  let (x0, z1) ← carryStep z.w0 z.w1
  let (x1, z2) ← carryStep z1 z.w2
  let (x2, z3) ← carryStep z2 z.w3
  let (x3, z4) ← carryStep z3 z.w4
  let (x4, z5) ← carryStep z4 z.w5
  let (x5, z6) ← carryStep z5 z.w6
  let (x6, z7) ← carryStep z6 z.w7
  let (x7, z8) ← carryStep z7 z.w8
  let (x8, z9) ← carryStep z8 0#128
  return ⟨x0, x1, x2, x3, x4, x5, x6, x7, x8, z9.setWidth 64⟩

/-- The number modulo `2 ^ 264`. -/
def mod264 (t : Qelem10) : Qelem := ⟨t.t0, t.t1, t.t2, t.t3, t.t4 &&& 0xffffffffff#64⟩

/-- The upper bits of a limb below the lowest 24 bits of the next one. -/
def div224Step (x y : BitVec 64) : BitVec 64 := ((y &&& 0xffffff#64) <<< 32) ||| (x >>> 24)

/-- The upper bits of a limb below the lowest 40 bits of the next one. -/
def div240Step (x y : BitVec 64) : BitVec 64 := ((y &&& 0xffffffffff#64) <<< 16) ||| (x >>> 40)

/-- The number divided by `2 ^ 248`. -/
def div248 (t : Qelem10) : Qelem where
  q0 := div224Step t.t4 t.t5
  q1 := div224Step t.t5 t.t6
  q2 := div224Step t.t6 t.t7
  q3 := div224Step t.t7 t.t8
  q4 := div224Step t.t8 t.t9

/-- The number divided by `2 ^ 264`. -/
def div264 (t : Qelem10) : Qelem where
  q0 := div240Step t.t4 t.t5
  q1 := div240Step t.t5 t.t6
  q2 := div240Step t.t6 t.t7
  q3 := div240Step t.t7 t.t8
  q4 := div240Step t.t8 t.t9

/-- The residue of a number of ten limbs. -/
def barrettReduction (t : Qelem10) : Option Qelem := do
  let qmu ← mul5 (div248 t) mu
  let qmu' ← carry qmu
  let qmul ← lowMul5 (div264 qmu') m
  let s ← subMod264 (mod264 t) qmul
  submConditional s

/-- Multiply modulo the order. -/
def mulModq (x y : Qelem) : Option Qelem := do
  let z ← mul5 x y
  let z' ← carry z
  barrettReduction z'

/-- Carry what does not fit into a limb to the next word. -/
def limbCarryStep (x y : BitVec 64) : Option (BitVec 64 × BitVec 64) := do
  let z ← Checked.add y (x >>> 56)
  return (x &&& 0xffffffffffffff#64, z)

/-- Add modulo the order. -/
def addModq (x y : Qelem) : Option Qelem := do
  let z0 ← Checked.add x.q0 y.q0
  let z1 ← Checked.add x.q1 y.q1
  let z2 ← Checked.add x.q2 y.q2
  let z3 ← Checked.add x.q3 y.q3
  let z4 ← Checked.add x.q4 y.q4
  let (t0, z1) ← limbCarryStep z0 z1
  let (t1, z2) ← limbCarryStep z1 z2
  let (t2, z3) ← limbCarryStep z2 z3
  let (t3, t4) ← limbCarryStep z3 z4
  submConditional ⟨t0, t1, t2, t3, t4⟩

end HaclStar.Impl.BignumQ
