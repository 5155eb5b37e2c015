import HaclStar.Correctness.SecretBox
import HaclStar.Impl.HMAC
import HaclStar.Spec.HMACGeneric

/-! HMAC-SHA2-256 under keys of any length. -/

namespace HaclStar.Correctness.HMACWhole

open Endianness Memory Spec.SHA2Generic Correctness.SecretBox

/-- The implementation writes the authenticator of the specification, for keys and data of every length that
a 32-bit length can state. -/
theorem hmac_correct {h : Mem} {mac key data : Buffer} {keylen datalen : UInt32} (live : h.Live mac)
    (live' : h.Live key) (live'' : h.Live data) (size : mac.length = 32) (size' : key.length = keylen.toNat)
    (size'' : data.length = datalen.toNat) :
    Impl.HMAC.hmac mac key keylen data datalen h =
      some ((), h.write mac (Spec.HMACGeneric.hmac .sha2_256 (h.read key) (h.read data))) := by
  rw [Impl.HMAC.hmac_run live live' live'' size size' size'', Spec.HMACGeneric.hmac_sha2_256]

/-- A key longer than a block. -/
theorem hmac_correct_long :
    Impl.HMAC.hmac (whole 0 32) (whole 1 65) 65 (whole 2 0) 0 (zeroMem [32, 65, 0]) =
      some ((), (zeroMem [32, 65, 0]).write (whole 0 32) (Spec.HMACGeneric.hmac .sha2_256
        ((zeroMem [32, 65, 0]).read (whole 1 65)) ((zeroMem [32, 65, 0]).read (whole 2 0)))) :=
  hmac_correct (by decide) (by decide) (by decide) rfl rfl rfl

end HaclStar.Correctness.HMACWhole
