import HaclStar.Spec.HMAC
import HaclStar.Spec.SHA2Generic

/-! HMAC over each of the SHA-2 hash functions. -/

namespace HaclStar.Spec.HMACGeneric

open Endianness Keystream SHA2Generic

variable (a : HashAlg)

/-- The bytes of a hash. -/
def sizeHash : Nat := sizeWord a * sizeHashFinalW a

/-- A key of one block: the key with zeros, or the hash of a longer key with zeros. -/
def wrapKey (key : Bytes) : Bytes :=
  if key.length ≤ sizeBlock a then
    let pad := List.replicate (sizeBlock a - key.length) 0
    key ++ pad
  else
    let nkey := hash a key
    let pad := List.replicate (sizeBlock a - sizeHash a) 0
    nkey ++ pad

/-- The authenticator under a key of one block. -/
def hmacCore (key data : Bytes) : Bytes :=
  let ipad := List.replicate (sizeBlock a) 0x36
  let opad := List.replicate (sizeBlock a) 0x5c
  let s2 := xor ipad key
  let s3 := s2 ++ data
  let s4 := hash a s3
  let s5 := xor opad key
  let s6 := s5 ++ s4
  hash a s6

/-- The authenticator under any key. -/
def hmac (key data : Bytes) : Bytes :=
  let okey := wrapKey a key
  hmacCore a okey data

/-- A hash has its final words. -/
@[simp] theorem hash_length (input : Bytes) : (hash a input).length = sizeHash a := by
  rw [hash_params]
  exact SHA2.Algorithm.finish_length _ (by cases a <;> decide)

/-- A wrapped key is one block. -/
theorem wrapKey_length (key : Bytes) : (wrapKey a key).length = sizeBlock a := by
  have fits : sizeHash a ≤ sizeBlock a := by cases a <;> decide
  -- Zeros fill the block behind the key or its hash.
  unfold wrapKey
  split
  · next short => simp only [List.length_append, List.length_replicate]; omega
  · simp only [List.length_append, List.length_replicate, hash_length]; omega

/-- An authenticator is a hash. -/
@[simp] theorem hmac_length (key data : Bytes) : (hmac a key data).length = sizeHash a :=
  hash_length a _

/-- The generic specification hashes with SHA-256 as the specification of SHA-256 does. -/
theorem hash_sha2_256 : SHA2Generic.hash .sha2_256 = SHA2.sha256.hash := by
  funext input
  rw [hash_params]
  rfl

/-- Over SHA-256 the core and the authenticator are those of SHA-256. -/
theorem hmacCore_sha2_256 (key data : Bytes) : hmacCore .sha2_256 key data = HMAC.hmacCore key data := by
  have block : sizeBlock .sha2_256 = SHA2.sizeBlock 4 := rfl
  simp only [hmacCore, hash_sha2_256, block, HMAC.hmacCore]

theorem hmac_sha2_256 (key data : Bytes) : hmac .sha2_256 key data = HMAC.hmac key data := by
  have block : sizeBlock .sha2_256 = SHA2.sizeBlock 4 := rfl
  have size : sizeHash .sha2_256 = 32 := rfl
  simp only [hmac, hmacCore_sha2_256, wrapKey, hash_sha2_256, block, size, HMAC.hmac, HMAC.wrapKey]

end HaclStar.Spec.HMACGeneric
