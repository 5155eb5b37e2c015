import HaclStar.Correctness.SecretBox
import HaclStar.Impl.HKDFExperimental
import HaclStar.Impl.HMAC
import HaclStar.Spec.HKDF

/-! The expansion of the experimental HKDF, which no input survives. -/

namespace HaclStar.Correctness.HKDFExperimental

open Endianness Memory Impl.HKDFExperimental Correctness.SecretBox

/-- The expansion writes what the specification expands with SHA-256. -/
def Expands (hmac : Hmac) (h : Mem) (okm prk : Buffer) (prklen : UInt32) (info : Buffer) (infolen len : UInt32)
    (fits : len.toNat ≤ 255 * hashsize.toNat) : Prop :=
  hkdfExpand hmac okm prk prklen info infolen len fits h = some ((), h.write (okm.slice 0 len.toNat)
    (Spec.HKDF.hkdfExpand .sha2_256 ((h.read prk).take prklen.toNat) ((h.read info).take infolen.toNat) len.toNat))

/-- One byte is asked for, without a context. -/
theorem hkdfExpand_underflow : ¬ ∀ (h : Mem) (okm prk : Buffer) (prklen : UInt32) (info : Buffer)
    (infolen len : UInt32) (fits : len.toNat ≤ 255 * hashsize.toNat),
    h.Live okm → h.Live prk → h.Live info → 32 ≤ prk.length → prklen.toNat ≤ prk.length →
      infolen.toNat ≤ info.length → len.toNat ≤ okm.length → len.toNat / 32 + 1 ≤ okm.length →
        Expands Impl.HMAC.hmac h okm prk prklen info infolen len fits := by
  intro all
  have expands := all (zeroMem [1, 32, 0]) (whole 0 1) (whole 1 32) 32 (whole 2 0) 0 1 (by decide) (by decide)
    (by decide) (by decide) (by decide) (by decide) (by decide) (by decide) (by decide)
  rw [Expands, hkdfExpand_fault] at expands
  cases expands

/-- Whatever the authenticator and the input, the block numbered zero is copied to a place outside of the
buffer, and nothing is expanded. -/
theorem hkdfExpand_never (hmac : Hmac) (h : Mem) (okm prk : Buffer) (prklen : UInt32) (info : Buffer)
    (infolen len : UInt32) (fits : len.toNat ≤ 255 * hashsize.toNat) :
    hkdfExpand hmac okm prk prklen info infolen len fits h = none ∧
      ¬ Expands hmac h okm prk prklen info infolen len fits := by
  have fault : hkdfExpand hmac okm prk prklen info infolen len fits h = none := hkdfExpand_fault okm fits
  refine ⟨fault, ?_⟩
  intro expands
  rw [Expands, fault] at expands
  cases expands

theorem hkdfExpand_never_byte :
    hkdfExpand Impl.HMAC.hmac (whole 0 1) (whole 1 32) 32 (whole 2 0) 0 1 (by decide) (zeroMem [1, 32, 0]) =
        none ∧
      ¬ Expands Impl.HMAC.hmac (zeroMem [1, 32, 0]) (whole 0 1) (whole 1 32) 32 (whole 2 0) 0 1 (by decide) :=
  hkdfExpand_never Impl.HMAC.hmac (zeroMem [1, 32, 0]) (whole 0 1) (whole 1 32) 32 (whole 2 0) 0 1 (by decide)

end HaclStar.Correctness.HKDFExperimental
