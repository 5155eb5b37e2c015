import HaclStar.Correctness.SecretBox
import HaclStar.Impl.Chacha20Vec
import HaclStar.Impl.Chacha20Vec2

/-! The experimental vectorised ChaCha20 implementations write the specified ciphertext. -/

namespace HaclStar.Correctness.Chacha20Bundles

open Memory
open HaclStar.Impl
open SecretBox (zeroMem whole)
open HaclStar.Spec.Chacha20 (chacha20EncryptBytes)

/-- For registers of one or two groups, both the cipher on rows, which takes the blocks of three, two or
one state at a time, and the cipher on words, which transposes its blocks, encrypt the whole message. -/
theorem bundles_encrypt {g : Nat} [NeZero g] (width : g = 1 ∨ g = 2) {h : Mem} {output plain key nonce : Buffer}
    {len ctr : UInt32} (views : SameOrDisjoint output plain) (live : h.Live output) (live' : h.Live plain)
    (liveKey : h.Live key) (liveNonce : h.Live nonce) (keylen : key.length = 32) (noncelen : nonce.length = 12)
    (size : output.length = len.toNat) (size' : plain.length = len.toNat) :
    Chacha20Vec.chacha20 g output plain len key nonce ctr h = some ((), h.write output
        (chacha20EncryptBytes (h.read key) (h.read nonce) ctr.toNat (h.read plain))) ∧
      Chacha20Vec2.chacha20 g output plain len key nonce ctr h = some ((), h.write output
        (chacha20EncryptBytes (h.read key) (h.read nonce) ctr.toNat (h.read plain))) :=
  ⟨Chacha20Vec.chacha20_run width views live live' liveKey liveNonce keylen noncelen size size',
    Chacha20Vec2.chacha20_run width views live live' liveKey liveNonce keylen noncelen size size'⟩

/-- A message of three blocks and a part, on registers of two groups. -/
theorem bundles_encrypt_two :
    Chacha20Vec.chacha20 2 (whole 0 200) (whole 1 200) 200 (whole 2 32) (whole 3 12) 7
        (zeroMem [200, 200, 32, 12]) = some ((), (zeroMem [200, 200, 32, 12]).write (whole 0 200)
        (chacha20EncryptBytes ((zeroMem [200, 200, 32, 12]).read (whole 2 32))
          ((zeroMem [200, 200, 32, 12]).read (whole 3 12)) (7 : UInt32).toNat
          ((zeroMem [200, 200, 32, 12]).read (whole 1 200)))) ∧
      Chacha20Vec2.chacha20 2 (whole 0 200) (whole 1 200) 200 (whole 2 32) (whole 3 12) 7
        (zeroMem [200, 200, 32, 12]) = some ((), (zeroMem [200, 200, 32, 12]).write (whole 0 200)
        (chacha20EncryptBytes ((zeroMem [200, 200, 32, 12]).read (whole 2 32))
          ((zeroMem [200, 200, 32, 12]).read (whole 3 12)) (7 : UInt32).toNat
          ((zeroMem [200, 200, 32, 12]).read (whole 1 200)))) :=
  bundles_encrypt (Or.inr rfl) (by decide) ⟨by decide, Nat.le_of_eq List.length_replicate.symm⟩
    ⟨by decide, Nat.le_of_eq List.length_replicate.symm⟩ (by decide) (by decide) rfl rfl rfl rfl

end HaclStar.Correctness.Chacha20Bundles
