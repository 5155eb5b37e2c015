import HaclStar.Impl.Ed25519Encoding
import HaclStar.Spec.Ed25519Sign

/-! The Ed25519 implementation of the base point: its limbs, its multiples, and the test that ends verification. -/

namespace HaclStar.Impl.Ed25519

open Endianness
open Bignum25519 FiveLimbs
open Spec.Curve25519 (modulus)

/-- The base point, with its limbs written out. -/
def makeG : Point where
  x := upd5 0x00062d608f25d51a 0x000412a4b4f6592a 0x00075b7171a4b31d 0x0001ff60527118fe 0x000216936d3cd6e5
  y := upd5 0x0006666666666658 0x0004cccccccccccc 0x0001999999999999 0x0003333333333333 0x0006666666666666
  z := upd5 0x0000000000000001 0x0000000000000000 0x0000000000000000 0x0000000000000000 0x0000000000000000
  t := upd5 0x00068ab3a5b7dda3 0x00000eea2a5eadbb 0x0002af8df483c27e 0x000332b375274732 0x00067875f0fd78b7

def pointMulG (scalar : Bytes) : Point := pointMul scalar makeG

/-- The string of a multiple of the base point. -/
def pointMulGCompress (scalar : Bytes) : Bytes := pointCompress (pointMulG scalar)

/-- The last test of verification: the multiple of the base point against the sum. -/
def verifyStep4 (s h' : Bytes) (a' r' : Point) : Bool :=
  let sB := pointMulG s
  let hA := pointMul h' a'
  let rhA := pointAdd r' hA
  pointEqual sB rhA

/-- Limbs below the bound hold the number that they are the digits of. -/
theorem holds_digits {a : Felem} {c : Int} (below : Below p513 a) (value : (field.seval a : Int) = c) :
    Holds p513 a (c : ZMod modulus) :=
  ⟨below, by rw [← value, Int.cast_natCast]⟩

/-- The limbs of the base point hold its coordinates. -/
theorem makeG_inv : PointInv makeG Spec.Ed25519.g where
  x := holds_digits (below_upd5.mpr (by decide)) (by decide)
  y := holds_digits (below_upd5.mpr (by decide)) (by decide)
  z := holds_digits (below_upd5.mpr (by decide)) (by decide)
  t := holds_digits (below_upd5.mpr (by decide)) (by decide)

end HaclStar.Impl.Ed25519
