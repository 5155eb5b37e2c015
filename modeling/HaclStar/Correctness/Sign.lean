import HaclStar.Api.Sign
import HaclStar.Correctness.SecretBox

/-! The NaCl signatures for every length of 64 bits. -/

namespace HaclStar.Correctness.Sign

open Endianness Memory Api.Haclnacl SecretBox

/-- What opening should do: accept a valid signature of a message whose length has 32 bits. -/
def Opens (ed : Ed25519) (h : Mem) (unsignedMsg unsignedMsgLen msg : Buffer) (msgLen : UInt64)
    (pk : Buffer) : Prop :=
  cryptoSignOpen ed unsignedMsg unsignedMsgLen msg msgLen pk h =
    if 64 ≤ msgLen.toNat ∧ msgLen.toNat < 2 ^ 32 ∧
        ed.verify (h.read pk) ((h.read msg).drop 64) ((h.read msg).take 64) = true then
      some (0, (h.write unsignedMsg ((h.read msg).drop 64)).write unsignedMsgLen
        (littleBytes 8 (msgLen.toNat - 64)))
    else some (-1, h)

variable {ed : Ed25519} {h : Mem} {unsignedMsg unsignedMsgLen msg pk : Buffer} {msgLen : UInt64}

/-- Below 64 bytes, the number of bytes to verify wraps around. -/
theorem wrappedLen (short : msgLen.toNat < 64) :
    (msgLen - 64).toUInt32.toNat = 2 ^ 32 + msgLen.toNat - 64 := by
  have wrapped : (msgLen - 64).toNat = 2 ^ 64 + msgLen.toNat - 64 := by
    rw [UInt64.toNat_sub]
    show (2 ^ 64 - 64 + msgLen.toNat) % 2 ^ 64 = _
    omega
  rw [UInt64.toNat_toUInt32, wrapped]
  omega

variable {signedMsg signedLen sk : Buffer}

/-- A public key, and the signature of the empty message under it. -/
def pk1 : Bytes :=
  [0xd7, 0x5a, 0x98, 0x01, 0x82, 0xb1, 0x0a, 0xb7, 0xd5, 0x4b, 0xfe, 0xd3, 0xc9, 0x64, 0x07, 0x3a,
   0x0e, 0xe1, 0x72, 0xf3, 0xda, 0xa6, 0x23, 0x25, 0xaf, 0x02, 0x1a, 0x68, 0xf7, 0x07, 0x51, 0x1a]

def sig1 : Bytes :=
  [0xe5, 0x56, 0x43, 0x00, 0xc3, 0x60, 0xac, 0x72, 0x90, 0x86, 0xe2, 0xcc, 0x80, 0x6e, 0x82, 0x8a,
   0x84, 0x87, 0x7f, 0x1e, 0xb8, 0xe5, 0xd9, 0x74, 0xd8, 0x73, 0xe0, 0x65, 0x22, 0x49, 0x01, 0x55,
   0x5f, 0xb8, 0x82, 0x15, 0x90, 0xa3, 0x3b, 0xac, 0xc6, 0x1e, 0x39, 0x70, 0x1c, 0xf9, 0xb4, 0x6b,
   0xd2, 0x5b, 0xf5, 0xf0, 0x59, 0x5b, 0xbe, 0x24, 0x65, 0x51, 0x41, 0x43, 0x8e, 0x7a, 0x10, 0x0b]

/-- The signature of the empty message followed by bytes that nobody has signed. -/
def forged (count : Nat) : Mem :=
  [List.replicate count 0, List.replicate 8 0, sig1 ++ List.replicate count 0, pk1]

end HaclStar.Correctness.Sign
