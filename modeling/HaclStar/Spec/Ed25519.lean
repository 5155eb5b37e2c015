import HaclStar.Spec.Curve25519

/-! The Ed25519 specification: points in extended coordinates, their multiples and their encoding. -/

namespace HaclStar.Spec.Ed25519

open Endianness
open Curve25519 hiding ithBit montgomeryLadder_

/-- A point in extended homogeneous coordinates. -/
structure ExtPoint where
  x : Int
  y : Int
  z : Int
  t : Int
  deriving DecidableEq

def modpInv (x : Int) : Int := pow x (prime - 2).toNat

def d : Int := 37095705934669439343138083508754565189542113879843219016388785533085940283555

def pointAdd (p q : ExtPoint) : ExtPoint :=
  let a := fmul (fsub p.y p.x) (fsub q.y q.x)
  let b := fmul (fadd p.y p.x) (fadd q.y q.x)
  let c := fmul (fmul (fmul 2 d) p.t) q.t
  let d := fmul (fmul 2 p.z) q.z
  let e := fsub b a
  let f := fsub d c
  let g := fadd d c
  let h := fadd b a
  { x := fmul e f, y := fmul g h, t := fmul e h, z := fmul f g }

def pointDouble (p : ExtPoint) : ExtPoint :=
  let a := fmul p.x p.x
  let b := fmul p.y p.y
  let c := fmul 2 (fmul p.z p.z)
  let h := fadd a b
  let e := fsub h (fmul (fadd p.x p.y) (fadd p.x p.y))
  let g := fsub a b
  let f := fadd c g
  { x := fmul e f, y := fmul g h, t := fmul e h, z := fmul f g }

def ithBit (k : Bytes) (i : Nat) : Nat :=
  let q := i / 8
  let r := i % 8
  (k.getD q 0).toNat / 2 ^ r % 2

/-- The ladder after its first `ctr` steps, which read the highest bits. -/
def montgomeryLadder_ (x xp1 : ExtPoint) (k : Bytes) : Nat → ExtPoint × ExtPoint
  | 0 => (x, xp1)
  | ctr + 1 =>
    let (x, xp1) := montgomeryLadder_ x xp1 k ctr
    let ctr' := 8 * k.length - (ctr + 1)
    let (x, xp1) := if ithBit k ctr' = 1 then (xp1, x) else (x, xp1)
    let xx := pointDouble x
    let xxp1 := pointAdd x xp1
    if ithBit k ctr' = 1 then (xxp1, xx) else (xx, xxp1)

def pointMul (a : Bytes) (p : ExtPoint) : ExtPoint :=
  (montgomeryLadder_ ⟨0, 1, 1, 0⟩ p a (8 * a.length)).1

def modpSqrtM1 : Int := pow 2 ((prime - 1) / 4).toNat

/-- The first coordinate of a point, from the second one and a sign. -/
def recoverX (y : Int) (sign : Bool) : Option Int :=
  if y ≥ prime then none
  else
    let x2 := fmul (fsub (fmul y y) 1) (modpInv (fadd (fmul d (fmul y y)) 1))
    if x2 = 0 then
      if sign then none else some 0
    else
      let x := pow x2 ((prime + 3) / 8).toNat
      let x := if fsub (fmul x x) x2 ≠ 0 then fmul x modpSqrtM1 else x
      if fsub (fmul x x) x2 ≠ 0 then none
      else
        let x := if decide (x % 2 = 1) ≠ sign then fsub prime x else x
        some x

def pointCompress (p : ExtPoint) : Bytes :=
  let zinv := modpInv p.z
  let x := fmul p.x zinv
  let y := fmul p.y zinv
  littleBytes 32 (2 ^ 255 * (x % 2) + y).toNat

def pointDecompress (s : Bytes) : Option ExtPoint :=
  let y := littleEndian s
  let sign := decide (y / 2 ^ 255 % 2 = 1)
  let y : Int := (y % 2 ^ 255 : Nat)
  match recoverX y sign with
  | some x => some ⟨x, y % prime, 1, fmul x (y % prime)⟩
  | none => none

/-- Whether two points are equal as points of the curve. -/
def pointEqual (p q : ExtPoint) : Bool :=
  if fmul p.x q.z ≠ fmul q.x p.z then false
  else if fmul p.y q.z ≠ fmul q.y p.z then false
  else true

end HaclStar.Spec.Ed25519
