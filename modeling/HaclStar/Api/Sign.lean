import HaclStar.Lib.Stack

/-! The NaCl signatures: the C functions in front of Ed25519, which is a parameter. -/

namespace HaclStar.Api.Haclnacl

open Endianness Memory

/-- The parts of Ed25519, as functions of bytes: verification decodes the public key and the point of the
signature, bounds the scalar of the signature, and then checks an equation that involves the message. -/
structure Ed25519 where
  secretToPublic : Bytes → Bytes
  sign : Bytes → Bytes → Bytes
  keyValid : Bytes → Bool
  pointValid : Bytes → Bool
  scalarValid : Bytes → Bool
  equation : Bytes → Bytes → Bytes → Bool
  sign_length : ∀ secret msg, (sign secret msg).length = 64

namespace Ed25519

variable (ed : Ed25519)

/-- A signature of a message is valid under a public key. -/
def verify (pk msg signature : Bytes) : Bool :=
  ed.keyValid pk && ed.pointValid (signature.take 32) && ed.scalarValid (signature.drop 32) &&
    ed.equation pk msg signature

/-- Check a signature part by part. A part that fails is the last one read. -/
def verifyFrom (pk msg : Buffer) (len : UInt32) (signature : Buffer) : Stack Bool := do
  let a ← (pk.slice 0 32).load
  if ed.keyValid a then
    let rs ← (signature.slice 0 32).load
    if ed.pointValid rs then
      let s ← (signature.slice 32 32).load
      if ed.scalarValid s then
        let m ← (msg.slice 0 len.toNat).load
        return ed.equation a m (rs ++ s)
      else return false
    else return false
  else return false

end Ed25519

/-- Copy bytes between views that may overlap. -/
def memmove (dst src : Buffer) (len : Nat) : Stack Unit := do
  let bytes ← (src.slice 0 len).load
  (dst.slice 0 len).store bytes

/-- Store a 64-bit word where a pointer points. -/
def storeU64 (cell : Buffer) (x : UInt64) : Stack Unit := (cell.slice 0 8).store (littleBytes 8 x.toNat)

/-- Verify as many bytes as a 32-bit length counts, and move as many as the 64-bit length counts. -/
def cryptoSignOpen (ed : Ed25519) (unsignedMsg unsignedMsgLen msg : Buffer) (msgLen : UInt64)
    (pk : Buffer) : Stack Int := do
  let len := (msgLen - 64).toUInt32
  let res ← ed.verifyFrom pk (msg.slice 64 len.toNat) len msg
  if res then
    memmove unsignedMsg (msg.slice 64 (msgLen - 64).toNat) (msgLen - 64).toNat
    storeU64 unsignedMsgLen (msgLen - 64)
    return 0
  else return -1

variable {ed : Ed25519} {h : Mem}

namespace Ed25519

variable {pk msg signature secret : Buffer} {len : UInt32}

end Ed25519

end HaclStar.Api.Haclnacl
