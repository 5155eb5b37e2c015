import HaclStar.Spec.SHA2

/-! HMAC-SHA2-256. -/

namespace HaclStar.Spec.HMAC

open Endianness Keystream SHA2

/-- A key of one block: the key with zeros, or the hash of a longer key with zeros. -/
def wrapKey (key : Bytes) : Bytes :=
  if key.length ≤ sizeBlock 4 then key ++ List.replicate (sizeBlock 4 - key.length) 0
  else sha256.hash key ++ List.replicate (sizeBlock 4 - 32) 0

/-- The authenticator under a key of one block. -/
def hmacCore (key data : Bytes) : Bytes :=
  let ipad := List.replicate (sizeBlock 4) 0x36
  let opad := List.replicate (sizeBlock 4) 0x5c
  let s2 := xor ipad key
  let s3 := s2 ++ data
  let s4 := sha256.hash s3
  let s5 := xor opad key
  let s6 := s5 ++ s4
  sha256.hash s6

/-- The authenticator under any key. -/
def hmac (key data : Bytes) : Bytes := hmacCore (wrapKey key) data

end HaclStar.Spec.HMAC
