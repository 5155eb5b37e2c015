import HaclStar.Impl.SHA2
import HaclStar.Spec.SHA2Generic

/-! The padding of SHA-2: hashing block by block is hashing the padded message, and padding is injective. -/

namespace HaclStar.Correctness.SHA2Padding

open Endianness Memory Spec.SHA2Generic

/--
Hashing all whole blocks and then the rest is hashing the padded message.

The padded message has whole blocks, as few as hold the marker and the length.
-/
theorem hash_padded (a : HashAlg) (input : Bytes) :
    (updateLast a (updateMulti a (h0 a) (input.take (input.length / sizeBlock a * sizeBlock a)))
        (input.length / sizeBlock a * sizeBlock a) (input.drop (input.length / sizeBlock a * sizeBlock a)) =
      updateMulti a (h0 a) (input ++ pad a 0 input.length) ∧
    hash a input = hash' a input ∧
    IsLeast {size | size % sizeBlock a = 0 ∧ input.length + 1 + sizeLen8 a ≤ size}
      (input ++ pad a 0 input.length).length) ∧
    (Spec.SHA2.sha256.hash input = Spec.SHA2.sha256.hash' input ∧
    IsLeast {size | size % 64 = 0 ∧ input.length + 1 + 8 ≤ size}
      (input ++ Spec.SHA2.sha256.pad 0 input.length).length) := by
  refine ⟨⟨?_, ?_, (params a).padded_least 0 input⟩, Spec.SHA2.sha256.hash_eq input,
    Spec.SHA2.sha256.padded_least 0 input⟩
  · rw [updateLast_eq, updateMulti_eq]
    exact (params a).updateLast_blocks input
  · rw [hash_params, hash'_params, (params a).hash_eq]

/-- The code pads with the given bytes: the bytes of a buffer of zeros become the padding behind the counted
blocks and the rest. -/
def PadsLike {n sizeK : Nat} (alg : Impl.SHA2.Algorithm n sizeK) (pad : Nat → Nat → Bytes) : Prop :=
  ∀ (h : Mem) (padding : Buffer) (count : BitVec (8 * n)) (len : UInt32), h.Live padding →
    alg.Accepts len → h.read padding = List.replicate padding.length 0 →
    padding.length = (pad (count.toNat * Spec.SHA2.sizeBlock n) len.toNat).length →
    alg.pad padding count len h =
      some ((), h.write padding (pad (count.toNat * Spec.SHA2.sizeBlock n) len.toNat))

/-- An implementation pads like its specification. -/
theorem padsLike {n sizeK : Nat} {alg : Impl.SHA2.Algorithm n sizeK} {spec : Spec.SHA2.Algorithm n sizeK}
    (imp : Impl.SHA2.Implements alg spec) : PadsLike alg spec.pad := by
  intro h padding count len live accepts zeros size
  exact Impl.SHA2.pad_run imp live count accepts zeros (size.trans (spec.pad_length _ _))

/-- The padding depends on the size of the length and of a block alone. -/
theorem pad_same {n sizeK : Nat} [NeZero n] {spec spec' : Spec.SHA2.Algorithm n sizeK}
    (size : spec.sizeLen = spec'.sizeLen) : spec.pad = spec'.pad := by
  funext prevlen len
  obtain ⟨few, complete⟩ := spec.pad0Length_spec len
  rw [size] at complete
  rw [Spec.SHA2.Algorithm.pad, Spec.SHA2.Algorithm.pad, size,
    Spec.SHA2.Algorithm.pad0Length_unique few complete]

/--
The padded message determines the message, and ends no padded message of another one.

The three implementations write the same padding.
-/
theorem padding_injective (a : HashAlg) {x y : Bytes} (short : x.length < maxInput8 a)
    (short' : y.length < maxInput8 a) :
    ((x ++ pad a 0 x.length = y ++ pad a 0 y.length → x = y) ∧
    ((x ++ pad a 0 x.length) <:+ (y ++ pad a 0 y.length) → x = y) ∧
    ((y ++ pad a 0 y.length) <:+ (x ++ pad a 0 x.length) → x = y)) ∧
    (PadsLike Impl.SHA2.sha256 (pad .sha2_256) ∧ PadsLike Impl.SHA2.sha384 (pad .sha2_384) ∧
    PadsLike Impl.SHA2.sha512 (pad .sha2_512)) := by
  have fits := length_fits a short
  have fits' := length_fits a short'
  have suffix := (params a).padded_suffix fits fits'
  refine ⟨⟨?_, suffix, ?_⟩, ?_, ?_, ?_⟩
  · intro same
    exact suffix (same ▸ List.suffix_rfl)
  · intro after
    exact ((params a).padded_suffix fits' fits after).symm
  · have same : Spec.SHA2.sha256.pad = pad .sha2_256 := pad_same rfl
    rw [← same]
    exact padsLike Impl.SHA2.sha256_implements
  · have same : Spec.SHA2.sha384.pad = pad .sha2_384 := pad_same rfl
    rw [← same]
    exact padsLike Impl.SHA2.sha384_implements
  · have same : Spec.SHA2.sha512.pad = pad .sha2_512 := pad_same rfl
    rw [← same]
    exact padsLike Impl.SHA2.sha512_implements

theorem padding_injective_empty :
    ¬ (([] : Bytes) ++ pad .sha2_224 0 0) <:+ (List.replicate 64 0 ++ pad .sha2_224 0 64) := by
  intro suffix
  have injective := @padding_injective .sha2_224 [] (List.replicate 64 0) (by decide) (by decide)
  exact absurd (injective.1.2.1 suffix) (by decide)

end HaclStar.Correctness.SHA2Padding
