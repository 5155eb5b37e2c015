import HaclStar.Correctness.SecretBox
import HaclStar.SecureApi.HKDF

/-! The expansion of the agile HKDF. -/

namespace HaclStar.Correctness.HKDF

open Endianness Memory SecureApi.HMAC SecureApi.HKDF Correctness.SecretBox
open Spec.HKDF (blocks blockCount)

/-- What an expansion relies on: live views that hold the announced bytes, an output that the counter of
blocks reaches, and a state whose size is a word. -/
structure ExpandViews (a : Alg) (h : Mem) (okm prk : Buffer) (prklen : UInt32) (info : Buffer)
    (infolen len : UInt32) : Prop where
  liveOkm : h.Live okm
  livePrk : h.Live prk
  liveInfo : h.Live info
  okmFits : len.toNat ≤ okm.length
  prkFits : prklen.toNat ≤ prk.length
  infoFits : infolen.toNat ≤ info.length
  fits : len.toNat ≤ 255 * (hashSize a).toNat
  room : headSize a infolen + blockCount (hashAlg a) len.toNat * (hashSize a).toNat < 2 ^ 32

variable {h : Mem} {okm okm' prk info : Buffer} {prklen infolen len len' : UInt32}

/--
With each hash function, the expansion writes the announced number of bytes of the blocks.

A shorter expansion of the same key and context is where a longer one starts. The specification expands
to the same bytes.
-/
theorem agileHkdfExpand_correct (a : Alg) (args : ExpandViews a h okm prk prklen info infolen len)
    (args' : ExpandViews a h okm' prk prklen info infolen len') (shorter : len ≤ len') :
    ∃ first second,
      hkdfExpand a okm prk prklen info infolen len args.fits h =
        some ((), h.write (okm.slice 0 len.toNat) first) ∧
      hkdfExpand a okm' prk prklen info infolen len' args'.fits h =
        some ((), h.write (okm'.slice 0 len'.toNat) second) ∧
      first = (blocks (hashAlg a) (keyOf h prk prklen) (keyOf h info infolen)
        (blockCount (hashAlg a) len.toNat)).take len.toNat ∧
      first.length = len.toNat ∧
      first = Spec.HKDF.hkdfExpand (hashAlg a) (keyOf h prk prklen) (keyOf h info infolen) len.toNat ∧
      first <+: second := by
  have fits := args.fits
  have ran := hkdfExpand_run args.liveOkm args.livePrk args.liveInfo args.okmFits args.prkFits args.infoFits
    args.fits args.room
  have ran' := hkdfExpand_run args'.liveOkm args'.livePrk args'.liveInfo args'.okmFits args'.prkFits
    args'.infoFits args'.fits args'.room
  rw [hashSize_spec] at fits
  refine ⟨_, _, ran, ran', rfl, Spec.HKDF.take_blocks_length _, ?_, ?_⟩
  · rw [Spec.HKDF.hkdfExpand_blocks fits]
  · exact Spec.HKDF.take_blocks_prefix (UInt32.le_iff_toNat_le.mp shorter)

/-- Two whole blocks of SHA-384, and a block and a byte less. -/
theorem agileHkdfExpand_correct_blocks :
    ∃ first second,
      hkdfExpand .sha384 (whole 0 96) (whole 1 48) 48 (whole 2 5) 5 49 (by decide)
          (zeroMem [96, 48, 5]) =
        some ((), (zeroMem [96, 48, 5]).write ((whole 0 96).slice 0 49) first) ∧
      hkdfExpand .sha384 (whole 0 96) (whole 1 48) 48 (whole 2 5) 5 96 (by decide)
          (zeroMem [96, 48, 5]) =
        some ((), (zeroMem [96, 48, 5]).write ((whole 0 96).slice 0 96) second) ∧
      first = (blocks (hashAlg .sha384) (keyOf (zeroMem [96, 48, 5]) (whole 1 48) 48)
        (keyOf (zeroMem [96, 48, 5]) (whole 2 5) 5) (blockCount (hashAlg .sha384) 49)).take 49 ∧
      first.length = 49 ∧
      first = Spec.HKDF.hkdfExpand (hashAlg .sha384) (keyOf (zeroMem [96, 48, 5]) (whole 1 48) 48)
        (keyOf (zeroMem [96, 48, 5]) (whole 2 5) 5) 49 ∧
      first <+: second :=
  agileHkdfExpand_correct .sha384 (by constructor <;> decide) (by constructor <;> decide) (by decide)

end HaclStar.Correctness.HKDF
