import HaclStar.Impl.BignumChecked
import HaclStar.Impl.Poly1305
import HaclStar.Correctness.SecretBox

/-! The limbs of the accumulator: a step keeps their bounds and never overflows, and the final pass gives one form
to each residue. -/

namespace HaclStar.Correctness.Poly1305Limbs

open Endianness Memory
open HaclStar.Impl.Bignum HaclStar.Impl.Poly1305
open HaclStar.Correctness.SecretBox (zeroMem whole)

/-- A block is encoded by limbs when they have at most 44 bits, and the number of its bytes with a one bit above. -/
structure Encodes (e : Felem) (w : Bytes) : Prop where
  bound : Red44 e
  value : seval e = littleEndian w + 2 ^ (8 * w.length)

/-- A step neither overflows nor leaves the bounds, and multiplies by the key. -/
structure Step (acc e r : Felem) (w : Bytes) : Prop where
  checked : addAndMultiplyChecked acc e r = some (addAndMultiply acc e r)
  bound : Red45 (addAndMultiply acc e r)
  value : seval (addAndMultiply acc e r) ≡ (seval acc + (littleEndian w + 2 ^ (8 * w.length))) * seval r [MOD prime]

variable {h : Mem} {acc r e : Felem}

theorem Encodes.step {w : Bytes} (encodes : Encodes e w) (bound : Red45 acc) (key : Red44 r) : Step acc e r w := by
  obtain ⟨bound', value⟩ := addAndMultiply_spec bound encodes.bound key
  rw [encodes.value] at value
  exact ⟨addAndMultiplyChecked_eq bound encodes.bound key, bound', value⟩

/-- A whole block is encoded with a one bit above its sixteen bytes. -/
theorem update_step (r acc : Felem) {m : Buffer} (live : h.Live m) (size : m.length = 16) :
    ∃ e, Encodes e (h.read m) ∧ update ⟨r, acc⟩ m h = some (⟨r, addAndMultiply acc e r⟩, h) := by
  obtain ⟨e, bound, value, ran⟩ := toFieldPlus2128_run live size
  have bytes := Mem.read_length live
  refine ⟨e, ⟨bound, by rw [value, bytes, size]⟩, ?_⟩
  rw [update, Stack.bind_run ran, Stack.pure_run]

/-- A partial block is encoded with a one bit above its bytes. -/
theorem processLastBlock_step (r acc : Felem) {m : Buffer} (live : h.Live m) {len : Nat} (short : len < 16)
    (fits : len ≤ m.length) :
    ∃ e, Encodes e ((h.read m).take len) ∧
      processLastBlock ⟨r, acc⟩ m len h = some (⟨r, addAndMultiply acc e r⟩, h) := by
  have bytes := Mem.read_length live
  have size : ((h.read m).take len).length = len := by rw [List.length_take]; omega
  have room : 2 ^ (8 * len) ≤ 2 ^ 120 := Nat.pow_le_pow_right (by decide) (by omega)
  have absorbs : ∀ {h' : Mem} {block : Buffer}, h'.Live block → block.length = 16 →
      h'.read block = (h.read m).take len ++ 1 :: List.replicate (16 - (len + 1)) 0 →
      ∃ st', (∃ e, Encodes e ((h.read m).take len) ∧ st' = ⟨r, addAndMultiply acc e r⟩) ∧
        processLastBlock_ block ⟨r, acc⟩ h' = some (st', h') := by
    intro h' block fresh covers filled
    obtain ⟨e, ⟨e0, e1, e2⟩, value, ran⟩ := toField_run fresh covers
    rw [filled, littleEndian_one_above] at value
    exact ⟨_, ⟨e, ⟨⟨e0, e1, by omega⟩, value⟩, rfl⟩, by rw [processLastBlock_, Stack.bind_run ran, Stack.pure_run]⟩
  obtain ⟨st', ⟨e, encodes, rfl⟩, ran⟩ := lastBlock_run live short fits absorbs
  exact ⟨e, encodes, ran⟩

/-- Every step on a whole block or on a last partial block keeps the invariant of the limbs. -/
theorem addAndMultiply_invariant (acc r : Felem) (bound : Red45 acc) (key : Red44 r) (h : Mem) (m : Buffer)
    (live : h.Live m) :
    (m.length = 16 → ∃ e, Step acc e r (h.read m) ∧
      update ⟨r, acc⟩ m h = some (⟨r, addAndMultiply acc e r⟩, h)) ∧
    ∀ len < 16, len ≤ m.length → ∃ e, Step acc e r ((h.read m).take len) ∧
      processLastBlock ⟨r, acc⟩ m len h = some (⟨r, addAndMultiply acc e r⟩, h) := by
  constructor
  · intro size
    obtain ⟨e, encodes, ran⟩ := update_step r acc live size
    exact ⟨e, encodes.step bound key, ran⟩
  · intro len short fits
    obtain ⟨e, encodes, ran⟩ := processLastBlock_step r acc live short fits
    exact ⟨e, encodes.step bound key, ran⟩

/-- A step from limbs that are all at the bound. -/
theorem addAndMultiply_invariant_largest :
    ∃ e, Step #v[0x1fffffffffff, 0x1fffffffffff, 0x1fffffffffff] e #v[0xfffffffffff, 0xfffffffffff, 0xfffffffffff]
      ((zeroMem [16]).read (whole 0 16)) := by
  obtain ⟨e, step, -⟩ := (addAndMultiply_invariant #v[0x1fffffffffff, 0x1fffffffffff, 0x1fffffffffff]
    #v[0xfffffffffff, 0xfffffffffff, 0xfffffffffff] ⟨by decide, by decide, by decide⟩ ⟨by decide, by decide, by decide⟩
    (zeroMem [16]) (whole 0 16) (by decide)).1 rfl
  exact ⟨e, step⟩

/-- Limbs in range are determined by their value. -/
theorem eq_of_seval {a b : Felem} (bound : Bounds a (2 ^ 44) (2 ^ 44) (2 ^ 42))
    (bound' : Bounds b (2 ^ 44) (2 ^ 44) (2 ^ 42)) (same : seval a = seval b) : a = b := by
  obtain ⟨a0, a1, a2⟩ := bound
  obtain ⟨b0, b1, b2⟩ := bound'
  rw [seval_eq, seval_eq] at same
  have limb0 : a[0] = b[0] := UInt64.toNat_inj.mp (by omega)
  have limb1 : a[1] = b[1] := UInt64.toNat_inj.mp (by omega)
  have limb2 : a[2] = b[2] := UInt64.toNat_inj.mp (by omega)
  rw [three a, three b, limb0, limb1, limb2]

/-- The final pass leaves limbs in range whose value is the residue below the modulus, so that accumulators
with the same residue come out the same. -/
theorem lastPass_canonical (acc : Felem) (bound : Red45 acc) :
    Bounds (lastPass acc) (2 ^ 44) (2 ^ 44) (2 ^ 42) ∧ seval (lastPass acc) < prime ∧
    seval (lastPass acc) ≡ seval acc [MOD prime] ∧
    ∀ acc', Red45 acc' → seval acc' ≡ seval acc [MOD prime] → lastPass acc' = lastPass acc := by
  obtain ⟨range, value⟩ := lastPass_spec bound
  refine ⟨range, ?_, ?_, fun acc' bound' same => ?_⟩
  · rw [value]
    exact Nat.mod_lt _ (by decide)
  · rw [value]
    exact Nat.mod_modEq _ _
  · obtain ⟨range', value'⟩ := lastPass_spec bound'
    exact eq_of_seval range' range (by rw [value, value', same])

/-- The limbs of the modulus, and limbs out of range with the same value, both become zero. -/
theorem lastPass_canonical_prime :
    lastPass #v[0x1ffffffffffb, 0xffffffffffe, 0x3ffffffffff] = lastPass #v[0xffffffffffb, 0xfffffffffff, 0x3ffffffffff] :=
  (lastPass_canonical #v[0xffffffffffb, 0xfffffffffff, 0x3ffffffffff] ⟨by decide, by decide, by decide⟩).2.2.2
    #v[0x1ffffffffffb, 0xffffffffffe, 0x3ffffffffff] ⟨by decide, by decide, by decide⟩ (by decide +kernel)

end HaclStar.Correctness.Poly1305Limbs
