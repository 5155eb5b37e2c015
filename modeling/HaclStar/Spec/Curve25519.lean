import HaclStar.Lib.Endianness

/-! The Curve25519 specification. -/

namespace HaclStar.Spec.Curve25519

open Endianness

def prime : Int := 2 ^ 255 - 19

def fadd (e1 e2 : Int) : Int := (e1 + e2) % prime

def fsub (e1 e2 : Int) : Int := (e1 - e2) % prime

def fmul (e1 e2 : Int) : Int := (e1 * e2) % prime

/-- Exponentiation by squaring, for a positive exponent. -/
def pow (e : Int) (n : Nat) : Int :=
  if n ≤ 1 then e
  else if n % 2 = 0 then pow (fmul e e) (n / 2)
  else fmul e (pow (fmul e e) ((n - 1) / 2))
termination_by n

/-- A point in projective coordinates. -/
structure ProjPoint where
  x : Int
  z : Int

def decodeScalar25519 (k : Bytes) : Bytes :=
  let k := k.set 0 (k.getD 0 0 &&& 248)
  k.set 31 ((k.getD 31 0 &&& 127) ||| 64)

def decodePoint (u : Bytes) : Int := (littleEndian u % 2 ^ 255 : Nat) % prime

/-- The double of a point, and its sum with another one, from their difference. -/
def addAndDouble (qx : Int) (nq nqp1 : ProjPoint) : ProjPoint × ProjPoint :=
  let x1 := qx
  let x2 := nq.x
  let z2 := nq.z
  let x3 := nqp1.x
  let z3 := nqp1.z
  let a := fadd x2 z2
  let aa := pow a 2
  let b := fsub x2 z2
  let bb := pow b 2
  let e := fsub aa bb
  let c := fadd x3 z3
  let d := fsub x3 z3
  let da := fmul d a
  let cb := fmul c b
  let x3 := pow (fadd da cb) 2
  let z3 := fmul x1 (pow (fsub da cb) 2)
  let x2 := fmul aa bb
  let z2 := fmul e (fadd aa (fmul 121665 e))
  (⟨x2, z2⟩, ⟨x3, z3⟩)

def ithBit (k : Bytes) (i : Nat) : Nat :=
  let q := i / 8
  let r := i % 8
  (k.getD q 0).toNat / 2 ^ r % 2

/-- The ladder over the bits below `ctr`, the highest one first. -/
def montgomeryLadder_ (init : Int) (x xp1 : ProjPoint) (k : Bytes) : Nat → ProjPoint
  | 0 => x
  | ctr + 1 =>
    let (x', xp1') :=
      if ithBit k ctr = 1 then
        let (nqp2, nqp1) := addAndDouble init xp1 x
        (nqp1, nqp2)
      else addAndDouble init x xp1
    montgomeryLadder_ init x' xp1' k ctr

def montgomeryLadder (init : Int) (k : Bytes) : ProjPoint :=
  montgomeryLadder_ init ⟨1, 0⟩ ⟨init, 1⟩ k 256

def encodePoint (p : ProjPoint) : Bytes :=
  let p := fmul p.x (pow p.z (prime - 2).toNat)
  littleBytes 32 p.toNat

/-- The multiple of a point by a scalar, both given as thirty-two bytes. -/
def scalarmult (k u : Bytes) : Bytes :=
  let k := decodeScalar25519 k
  let u := decodePoint u
  let res := montgomeryLadder u k
  encodePoint res

@[simp] theorem scalarmult_length (k u : Bytes) : (scalarmult k u).length = 32 :=
  littleBytes_length 32 _

end HaclStar.Spec.Curve25519
