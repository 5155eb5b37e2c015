import HaclStar.Spec.Ed25519
import HaclStar.Spec.SHA2

/-! The Ed25519 specification: keys, signatures and their verification. -/

namespace HaclStar.Spec.Ed25519

open Endianness
open Curve25519 (fmul)

def sha512 (b : Bytes) : Bytes := SHA2.sha512.hash b

/-- The order of the base point. -/
def q : Nat := 2 ^ 252 + 27742317777372353535851937790883648493

def sha512Modq (s : Bytes) : Nat := littleEndian (sha512 s) % q

def gX : Int := 15112221349535400772501151409588531511454012693041857206046113283949847762202

def gY : Int := 46316835694926478169428394003475163141307993866256225615783033603165251855960

/-- The base point. -/
def g : ExtPoint := ⟨gX, gY, 1, fmul gX gY⟩

/-- The secret scalar and the prefix of the nonces: the halves of a digest, the first of them clamped. -/
def secretExpand (secret : Bytes) : Bytes × Bytes :=
  let h := sha512 secret
  let hLow := h.take 32
  let hHigh := h.drop 32
  let hLow0 := hLow.getD 0 0
  let hLow31 := hLow.getD 31 0
  let hLow := hLow.set 0 (hLow0 &&& 0xf8)
  let hLow := hLow.set 31 ((hLow31 &&& 127) ||| 64)
  (hLow, hHigh)

def secretToPublic (secret : Bytes) : Bytes :=
  let a := (secretExpand secret).1
  pointCompress (pointMul a g)

def sign (secret msg : Bytes) : Bytes :=
  let a := (secretExpand secret).1
  let pre := (secretExpand secret).2
  let a' := pointCompress (pointMul a g)
  let r := sha512Modq (pre ++ msg)
  let r' := pointMul (littleBytes 32 r) g
  let rs := pointCompress r'
  let h := sha512Modq (rs ++ a' ++ msg)
  let s := (r + h * littleEndian a % q) % q
  rs ++ littleBytes 32 s

def verify (pub msg signature : Bytes) : Bool :=
  match pointDecompress pub with
  | none => false
  | some a' =>
    let rs := signature.take 32
    match pointDecompress rs with
    | none => false
    | some r' =>
      let s := littleEndian ((signature.drop 32).take 32)
      if s ≥ q then false
      else
        let h := sha512Modq (rs ++ pub ++ msg)
        let sB := pointMul (littleBytes 32 s) g
        let hA := pointMul (littleBytes 32 h) a'
        pointEqual sB (pointAdd r' hA)

end HaclStar.Spec.Ed25519
