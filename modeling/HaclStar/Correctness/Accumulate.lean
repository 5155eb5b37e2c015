import HaclStar.Correctness.MacEncoding

/-! The accumulated words of the secure channel are the specified polynomial, for every key element. -/

namespace HaclStar.Correctness.Accumulate

open Endianness HaclStar.SecureApi HaclStar.SecureApi.Encoding HaclStar.SecureApi.UF1CMA MacEncoding

variable {i : Id} {fl : Flags} {st : State i}

/-- An accumulator stands for the polynomial of the words absorbed, and its log is made of them. -/
structure Evaluates (fl : Flags) (st : State i) (cs : Text) (acc : Acc i) : Prop where
  norm : MAC.Norm (macAlgOfId i) acc.a
  value : MAC.selElem (macAlgOfId i) acc.a
    = MAC.poly (macAlgOfId i) cs (MAC.selElem (macAlgOfId i) st.r)
  logged : fl.macLog = true → acc.l = cs

/-- The first accumulator stands for the polynomial of no words. -/
theorem start_evaluates (fl : Flags) (st : State i) : Evaluates fl st [] (start st) := by
  obtain ⟨norm, value⟩ := MAC.start_spec (macAlgOfId i) (MAC.selElem (macAlgOfId i) st.r)
  exact ⟨norm, value, fun _ => rfl⟩

/-- One step of the polynomial is taken for each word. -/
theorem evaluates_tracks (normR : MAC.NormR (macAlgOfId i) st.r) : Tracks fl st (Evaluates fl st) := by
  intro cs acc w evaluates size
  obtain ⟨a, ran, norm, value⟩ := MAC.update_spec normR evaluates.norm size
  refine ⟨⟨a, if fl.macLog then w :: acc.l else acc.l⟩, by simp [update, ran], norm, ?_, ?_⟩
  · -- The new word comes first, so it is the one added last.
    rw [MAC.poly_cons, value, evaluates.value]
  · intro logging
    show (if fl.macLog then w :: acc.l else acc.l) = w :: cs
    rw [if_pos logging, evaluates.logged logging]

/-- Both texts and their lengths are absorbed into the polynomial of their encoding, and the tag is its tag. -/
theorem accumulate_evaluates (fl : Flags) (st : State i) (normR : MAC.NormR (macAlgOfId i) st.r)
    (mask : st.s.length = 16) (aad cipher : Bytes) :
    ∃ acc, accumulate fl st (UInt32.ofNat aad.length) aad (UInt32.ofNat cipher.length) cipher = some acc ∧
      MAC.selElem (macAlgOfId i) acc.a
        = MAC.poly (macAlgOfId i) (encodeTexts i aad cipher) (MAC.selElem (macAlgOfId i) st.r) ∧
      (fl.macLog = true → acc.l = encodeTexts i aad cipher) ∧
      MAC.finish (macAlgOfId i) acc.a st.s
        = some (MAC.macElem (macAlgOfId i) (encodeTexts i aad cipher) (MAC.selElem (macAlgOfId i) st.r) st.s) := by
  obtain ⟨acc, ran, evaluates⟩ := accumulate_tracks (evaluates_tracks normR) (start_evaluates fl st)
    (UInt32.ofNat aad.length) aad (UInt32.ofNat cipher.length) cipher
  refine ⟨acc, ran, evaluates.value, evaluates.logged, ?_⟩
  rw [MAC.finish_spec evaluates.norm mask, evaluates.value]
  rfl

/-- A state whose key has the limbs 2, 3 and 5. -/
def sampleState : State .chacha20Poly1305 := ⟨Vector.ofFn fun k => [2, 3, 5].getD k.val 0, List.replicate 16 7, none⟩

theorem accumulate_evaluates_sample :
    sampleState.s.length = 16 ∧ ∃ acc, accumulate Flags.real sampleState 3 [1, 2, 3] 1 [4] = some acc ∧
      MAC.selElem .poly1305 acc.a = MAC.poly .poly1305 (encodeTexts .chacha20Poly1305 [1, 2, 3] [4])
        (MAC.selElem .poly1305 sampleState.r) := by
  have normR : MAC.NormR .poly1305 sampleState.r := ⟨by decide, by decide, by decide⟩
  obtain ⟨acc, ran, value, -, -⟩ := accumulate_evaluates Flags.real sampleState normR (by decide) [1, 2, 3] [4]
  exact ⟨by decide, acc, ran, value⟩

end HaclStar.Correctness.Accumulate
