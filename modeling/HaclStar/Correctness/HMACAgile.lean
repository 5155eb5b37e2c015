import HaclStar.Correctness.SecretBox
import HaclStar.SecureApi.HMAC

/-! The agile HMAC against the generic specification, for all three hash functions. -/

namespace HaclStar.Correctness.HMACAgile

open Endianness Keystream Memory SecureApi.HMAC Correctness.SecretBox

variable {h : Mem} {mac key data : Buffer} {keylen datalen : UInt32}

/--
With each hash function, the agile code writes the authenticator of the specification.

The wrapped key and the outer hash have whole hashes, for SHA-384 of forty-eight bytes.
-/
theorem agileHmac_correct (a : Alg) (live : h.Live mac) (liveKey : h.Live key) (liveData : h.Live data)
    (size : mac.length = (hashSize a).toNat) (keySize : key.length = keylen.toNat)
    (dataSize : data.length = datalen.toNat) :
    (hmac a mac key keylen data datalen h = some ((), h.write mac
      (Spec.HMACGeneric.hmac (hashAlg a) (h.read key) (h.read data))) ∧
    Spec.HMACGeneric.hmac (hashAlg a) (h.read key) (h.read data) =
      Spec.SHA2Generic.hash (hashAlg a)
        (xor (List.replicate (blockSize a).toNat 0x5c)
            (Spec.HMACGeneric.wrapKey (hashAlg a) (h.read key)) ++
          Spec.SHA2Generic.hash (hashAlg a)
            (xor (List.replicate (blockSize a).toNat 0x36)
                (Spec.HMACGeneric.wrapKey (hashAlg a) (h.read key)) ++ h.read data))) ∧
    (∀ input, (Spec.SHA2Generic.hash (hashAlg a) input).length = (hashSize a).toNat) ∧
    hashSize .sha384 = 48 := by
  have bytes := Mem.read_length liveKey
  have bytes' := Mem.read_length liveData
  refine ⟨⟨?_, ?_⟩, ?_, rfl⟩
  · -- The announced bytes are those of the whole views.
    have ran : hmac a mac key keylen data datalen h = _ :=
      hmac_run live liveKey liveData size keySize.ge dataSize.ge
    rw [ran, List.take_of_length_le (by omega), List.take_of_length_le (by omega)]
  · rw [Spec.HMACGeneric.hmac, hmacCore_spec, spec_hash]
  · intro input
    rw [hashSize_spec, Spec.HMACGeneric.hash_length]

/-- A key longer than the block of SHA-384, and a message of one byte. -/
theorem agileHmac_correct_long :
    (hmac .sha384 (whole 0 48) (whole 1 129) 129 (whole 2 1) 1 (zeroMem [48, 129, 1]) =
      some ((), (zeroMem [48, 129, 1]).write (whole 0 48) (Spec.HMACGeneric.hmac (hashAlg .sha384)
        ((zeroMem [48, 129, 1]).read (whole 1 129)) ((zeroMem [48, 129, 1]).read (whole 2 1)))) ∧
    Spec.HMACGeneric.hmac (hashAlg .sha384) ((zeroMem [48, 129, 1]).read (whole 1 129))
        ((zeroMem [48, 129, 1]).read (whole 2 1)) =
      Spec.SHA2Generic.hash (hashAlg .sha384)
        (xor (List.replicate (blockSize .sha384).toNat 0x5c)
            (Spec.HMACGeneric.wrapKey (hashAlg .sha384) ((zeroMem [48, 129, 1]).read (whole 1 129))) ++
          Spec.SHA2Generic.hash (hashAlg .sha384)
            (xor (List.replicate (blockSize .sha384).toNat 0x36)
                (Spec.HMACGeneric.wrapKey (hashAlg .sha384) ((zeroMem [48, 129, 1]).read (whole 1 129))) ++
              (zeroMem [48, 129, 1]).read (whole 2 1)))) ∧
    (∀ input, (Spec.SHA2Generic.hash (hashAlg .sha384) input).length = (hashSize .sha384).toNat) ∧
    hashSize .sha384 = 48 :=
  agileHmac_correct .sha384 (by decide) (by decide) (by decide) (by decide) (by decide) (by decide)

end HaclStar.Correctness.HMACAgile
