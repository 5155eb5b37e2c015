import HaclStar.Correctness.Poly1305
import HaclStar.Impl.Poly1305Experimental

/-! The two authenticators on 26-bit limbs against the specification and the one on 44-bit limbs. -/

namespace HaclStar.Correctness.Poly1305Word32

open Memory Impl.FiveLimbs Correctness.SecretBox
open Impl.Poly1305Word32 (field)

/-- The limb implementation writes the tag of the specification, so it agrees with the one on 44-bit
limbs; its last pass reduces every accumulator that a product leaves. -/
theorem cryptoOnetimeauth_agrees {h : Mem} {output input k : Buffer} {len : UInt64}
    (live : h.Live output) (live' : h.Live input) (live'' : h.Live k) (size : output.length = 16)
    (keySize : k.length = 32) (inputSize : input.length = len.toNat) (bounded : len.toNat < 2 ^ 32) :
    Impl.Poly1305Word32.cryptoOnetimeauth output input len k h =
      some ((), h.write output (Spec.Poly1305.poly1305 (h.read input) (h.read k))) ∧
    Impl.Poly1305Word32.cryptoOnetimeauth output input len k h =
      Impl.Poly1305.cryptoOnetimeauth output input len k h ∧
    ∀ acc, Below field.carriedBound acc → Below (2 ^ 26) (Impl.Poly1305Word32.lastPass acc) ∧
      field.seval (Impl.Poly1305Word32.lastPass acc) = field.seval acc % Spec.Poly1305.prime := by
  have bytes := Mem.read_length live'
  have run := Impl.Poly1305Word32.cryptoOnetimeauth_run len live live' live'' size.ge keySize bounded
    inputSize.ge
  refine ⟨?_, ?_, fun acc below => Impl.Poly1305Word32.lastPass_spec below⟩
  · rw [run, List.take_of_length_le (by omega)]
  · rw [run, Impl.Poly1305.cryptoOnetimeauth_run len live live' live'' size.ge keySize bounded inputSize.ge]

theorem cryptoOnetimeauth_agrees_zero :
    Impl.Poly1305Word32.cryptoOnetimeauth (whole 0 16) (whole 1 17) 17 (whole 2 32) (zeroMem [16, 17, 32]) =
      some ((), (zeroMem [16, 17, 32]).write (whole 0 16) (Spec.Poly1305.poly1305
        ((zeroMem [16, 17, 32]).read (whole 1 17)) ((zeroMem [16, 17, 32]).read (whole 2 32)))) :=
  (cryptoOnetimeauth_agrees (by decide) (by decide) (by decide) rfl rfl rfl (by decide)).1

/-- The experimental implementation writes the tag of the first `len` input bytes, so it agrees with the
one on 44-bit limbs; its shorter last pass reduces every accumulator that a product leaves, also where
a carry runs through all the limbs. -/
theorem experimental_agrees {h : Mem} {output input k : Buffer} {len : UInt64}
    (live : h.Live output) (live' : h.Live input) (live'' : h.Live k) (size : output.length = 16)
    (keySize : k.length = 32) (fits : len.toNat ≤ input.length) (bounded : len.toNat < 2 ^ 32) :
    Impl.Poly1305Experimental.cryptoOnetimeauth output input len k h =
      some ((), h.write output
        (Spec.Poly1305.poly1305 ((h.read input).take len.toNat) (h.read k))) ∧
    Impl.Poly1305Experimental.cryptoOnetimeauth output input len k h =
      Impl.Poly1305.cryptoOnetimeauth output input len k h ∧
    ∀ acc, Below field.carriedBound acc → Below (2 ^ 26) (Impl.Poly1305Experimental.lastPass acc) ∧
      field.seval (Impl.Poly1305Experimental.lastPass acc) = field.seval acc % Spec.Poly1305.prime := by
  have run := Impl.Poly1305Experimental.cryptoOnetimeauth_run len live live' live'' size.ge keySize bounded
    fits
  refine ⟨run, ?_, fun acc below => Impl.Poly1305Experimental.lastPass_spec below⟩
  rw [run, Impl.Poly1305.cryptoOnetimeauth_run len live live' live'' size.ge keySize bounded fits]

theorem experimental_agrees_zero :
    Impl.Poly1305Experimental.cryptoOnetimeauth (whole 0 16) (whole 1 17) 17 (whole 2 32)
        (zeroMem [16, 17, 32]) =
      some ((), (zeroMem [16, 17, 32]).write (whole 0 16) (Spec.Poly1305.poly1305
        (((zeroMem [16, 17, 32]).read (whole 1 17)).take 17)
        ((zeroMem [16, 17, 32]).read (whole 2 32)))) :=
  (experimental_agrees (by decide) (by decide) (by decide) rfl rfl (by decide) (by decide)).1

end HaclStar.Correctness.Poly1305Word32
