import HaclStar.Api.Chacha20Poly1305
import HaclStar.Correctness.SecretBox

/-! What the authenticator of ChaCha20-Poly1305 absorbs, and that it determines what is authenticated. -/

namespace HaclStar.Correctness.MacInput

open Endianness Memory Impl.Poly1305 Impl.AeadPoly1305 Api.Chacha20Poly1305 Spec.Poly1305
open Spec.Chacha20Poly1305 Correctness.SecretBox

/-- The byte string under the tag. -/
def macInput (aad c : Bytes) : Bytes := pad16 aad ++ (pad16 c ++ lengths c aad)

/-- The coefficients of the polynomial under the tag, the one absorbed last first. -/
def coefficients (aad c : Bytes) : List Nat := (encodeBytes (macInput aad c)).map encode

/--
The accumulators that the limb code reaches.

Each coefficient is added as a field element of its value, and the sum is multiplied by the key.
-/
inductive Accumulates (r : Impl.Bignum.Felem) : List Nat → Impl.Bignum.Felem → Prop
  | start : Accumulates r [] start
  | absorb {coeffs : List Nat} {acc e : Impl.Bignum.Felem} : Accumulates r coeffs acc →
      Accumulates r (Impl.Bignum.seval e :: coeffs) (Impl.Bignum.addAndMultiply acc e r)

/-- Everything the authenticator absorbs, before the accumulator is reduced. -/
def absorbAll (c : Buffer) (mlen : UInt32) (aad : Buffer) (aadlen : UInt32) (lb mk : Buffer) :
    Stack Impl.Poly1305.State := do
  let st ← blocksInit aad aadlen mk
  let st ← blocksContinue st c mlen
  update st lb

/-- A state whose accumulator has taken in the field elements of a text. -/
structure Traced (kr : Bytes) (text : List Bytes) (st : Impl.Poly1305.State) : Prop where
  absorbed : Absorbed kr text st
  accumulates : Accumulates st.r (text.map encode) st.h

/-- Every whole block becomes one more coefficient. -/
theorem traced_tracks (kr : Bytes) : Tracks (Traced kr) := by
  intro text st e w traced bound size value
  refine ⟨absorbed_tracks kr traced.absorbed bound size value, ?_⟩
  have step := traced.accumulates.absorb (e := e)
  rw [value, ← encode_whole size] at step
  exact step

/-- The byte string under the tag has whole blocks. -/
theorem macInput_whole (aad c : Bytes) : (macInput aad c).length % 16 = 0 := by
  have first := pad16_length aad
  have second := pad16_length c
  rw [macInput, List.length_append, List.length_append, lengths_length]
  omega

/-- The byte string under the tag determines both strings: the lengths come last, and with them the
padding is known. -/
theorem macInput_injective {aad aad' c c' : Bytes} (fitsAad : aad.length < 2 ^ 64)
    (fitsAad' : aad'.length < 2 ^ 64) (fits : c.length < 2 ^ 64) (fits' : c'.length < 2 ^ 64)
    (same : macInput aad c = macInput aad' c') : aad = aad' ∧ c = c' := by
  simp only [macInput, ← List.append_assoc] at same
  obtain ⟨padded, trailers⟩ := List.append_inj' same (by simp)
  obtain ⟨aadSize, size⟩ := lengths_injective fits fits' fitsAad fitsAad' trailers
  -- Equal lengths are padded equally, so the two padded strings meet at one place.
  obtain ⟨first, second⟩ := List.append_inj padded (pad16_size aadSize)
  exact ⟨pad16_injective aadSize first, pad16_injective size second⟩

/-- Texts of whole blocks are determined by their coefficients. -/
theorem text_injective {text text' : List Bytes} (sizes : ∀ w ∈ text, w.length = 16)
    (sizes' : ∀ w ∈ text', w.length = 16) (same : text.map encode = text'.map encode) : text = text' := by
  induction text generalizing text' with
  | nil =>
    cases text' with
    | nil => rfl
    | cons w' text' => simp at same
  | cons w text ih =>
    cases text' with
    | nil => simp at same
    | cons w' text' =>
      simp only [List.map_cons, List.cons.injEq, List.forall_mem_cons] at same sizes sizes'
      rw [encode_injective sizes.1 sizes'.1 same.1, ih sizes.2 sizes'.2 same.2]

/-- The coefficients determine the byte string under the tag. -/
theorem coefficients_injective {aad aad' c c' : Bytes} (same : coefficients aad c = coefficients aad' c') :
    macInput aad c = macInput aad' c' := by
  have texts := text_injective (encodeBytes_whole (macInput_whole aad c))
    (encodeBytes_whole (macInput_whole aad' c')) same
  rw [← encodeBytes_flatten (macInput aad c), texts, encodeBytes_flatten]

/-- The code absorbs the coefficients of the byte string under the tag. -/
theorem absorbAll_run {h : Mem} {c aad lb mk : Buffer} {mlen aadlen : UInt32} (liveC : h.Live c)
    (liveAad : h.Live aad) (liveLb : h.Live lb) (liveMk : h.Live mk) (sizeC : c.length = mlen.toNat)
    (sizeAad : aad.length = aadlen.toNat) (sizeLb : lb.length = 16) (sizeMk : mk.length = 32)
    (stored : h.read lb = lengths (h.read c) (h.read aad)) :
    ∃ st, Traced ((h.read mk).take 16) (encodeBytes (macInput (h.read aad) (h.read c))) st ∧
      absorbAll c mlen aad aadlen lb mk h = some (st, h) := by
  have tracks := traced_tracks ((h.read mk).take 16)
  obtain ⟨st, traced, ran⟩ := blocksInit_run tracks
    (fun started zero => ⟨started, by rw [zero]; exact .start⟩) liveAad liveMk sizeAad (by omega)
  obtain ⟨st', traced', ran'⟩ := blocksContinue_run tracks (pad16_length _) traced liveC sizeC
  obtain ⟨st'', traced'', ran''⟩ := update_run tracks traced' liveLb sizeLb
  -- The block of the lengths follows whole blocks.
  have whole : (pad16 (h.read aad) ++ pad16 (h.read c)).length % 16 = 0 := by
    have first := pad16_length (h.read aad)
    have second := pad16_length (h.read c)
    rw [List.length_append]
    omega
  have last := lengths_length (h.read c) (h.read aad)
  rw [stored, ← encodeBytes_concat whole (by
    intro empty
    rw [empty] at last
    exact absurd last (by decide)) last.le, List.append_assoc, ← macInput] at traced''
  refine ⟨st'', traced'', ?_⟩
  rw [absorbAll, Stack.bind_run ran, Stack.bind_run ran', ran'']

/--
The byte string under the tag is an injective encoding, and so is the sequence of its coefficients,
which is what the limb code absorbs before it writes the tag.
-/
theorem mac_determines {aad aad' c c' : Bytes} (fitsAad : aad.length < 2 ^ 64)
    (fitsAad' : aad'.length < 2 ^ 64) (fits : c.length < 2 ^ 64) (fits' : c'.length < 2 ^ 64) :
    (pad16 aad ++ (pad16 c ++ (littleBytes 8 aad.length ++ littleBytes 8 c.length)) =
        pad16 aad' ++ (pad16 c' ++ (littleBytes 8 aad'.length ++ littleBytes 8 c'.length)) →
      aad = aad' ∧ c = c') ∧
    (coefficients aad c = coefficients aad' c' → aad = aad' ∧ c = c') ∧
    ∀ (h : Mem) (cB aadB mac tmp : Buffer) (mlen aadlen : UInt32), h.Live cB → h.Live aadB → h.Live tmp →
      cB.length = mlen.toNat → aadB.length = aadlen.toNat → 80 ≤ tmp.length →
      h.read cB = c → h.read aadB = aad → h.read (tmp.slice 64 16) = lengths c aad →
      ∃ st, absorbAll cB mlen aadB aadlen (tmp.slice 64 16) (tmp.slice 0 32) h = some (st, h) ∧
        Accumulates st.r (coefficients aad c) st.h ∧
        aeadEncryptPoly cB mlen mac aadB aadlen tmp h = (do
          let st ← updateLast st (tmp.slice 80 0) 0
          Impl.Poly1305.finish st mac (tmp.slice 16 16) : Stack Unit) h := by
  refine ⟨macInput_injective fitsAad fitsAad' fits fits', ?_, ?_⟩
  · intro same
    exact macInput_injective fitsAad fitsAad' fits fits' (coefficients_injective same)
  · rintro h cB aadB mac tmp mlen aadlen liveC liveAad liveTmp sizeC sizeAad room rfl rfl stored
    obtain ⟨st, traced, ran⟩ := absorbAll_run liveC liveAad (liveTmp.slice (i := 64) (n := 16) (by omega))
      (liveTmp.slice (i := 0) (n := 32) (by omega)) sizeC sizeAad rfl rfl stored
    refine ⟨st, ran, traced.accumulates, ?_⟩
    -- The last call of the code starts with the block of the lengths.
    obtain ⟨st1, h1, ran1, later⟩ := Stack.bind_some ran
    obtain ⟨st2, h2, ran2, ran3⟩ := Stack.bind_some later
    rw [aeadEncryptPoly, Stack.bind_run (Buffer.sub_run _ (by omega)),
      Stack.bind_run (Buffer.sub_run _ (by omega)),
      Stack.bind_run (Buffer.sub_run _ (show 0 + 32 ≤ 64 by decide)), Buffer.slice_slice,
      Stack.bind_run (Buffer.sub_run _ (show 16 + 16 ≤ 32 by decide)), Buffer.slice_slice,
      Stack.bind_run ran1, Stack.bind_run ran2, blocksFinish, Stack.bind_run ran3,
      Stack.bind_run (Buffer.offset_run _ (show 16 ≤ 16 by decide)), Buffer.slice_slice]
    rfl

/-- Two strings of zeros that are padded alike have different coefficients. -/
theorem mac_determines_zeros : coefficients [] [0] ≠ coefficients [] [0, 0] := by
  intro same
  obtain ⟨-, determined, -⟩ := @mac_determines [] [] [0] [0, 0] (by decide) (by decide) (by decide) (by decide)
  exact absurd (determined same).2 (by decide)

end HaclStar.Correctness.MacInput
