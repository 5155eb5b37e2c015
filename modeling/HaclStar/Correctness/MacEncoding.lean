import HaclStar.SecureApi.Encoding

/-! What the authenticators of the secure channel absorb determines the additional data and the ciphertext. -/

namespace HaclStar.Correctness.MacEncoding

open Endianness HaclStar.SecureApi HaclStar.SecureApi.Encoding

/-- The encoding of two texts with their own lengths. -/
def encodeTexts (i : Id) (aad cipher : Bytes) : UF1CMA.Text :=
  encodeBoth i (UInt32.ofNat aad.length) aad (UInt32.ofNat cipher.length) cipher

/-- The word of the lengths: in bytes and little-endian, or in bits and big-endian. -/
def lengthsWord (i : Id) (aad cipher : Bytes) : Bytes :=
  match macAlgOfId i with
  | .poly1305 => littleBytes 8 aad.length ++ littleBytes 8 cipher.length
  | .ghash => bigBytes 8 (8 * aad.length) ++ bigBytes 8 (8 * cipher.length)

/-- A small number has zeros for its upper bytes. -/
theorem littleBytes_small {n : Nat} (small : n < 2 ^ 32) : littleBytes 8 n = littleBytes 4 n ++ List.replicate 4 0 := by
  have none : n / 2 ^ (8 * 4) = 0 := Nat.div_eq_of_lt small
  have zeros : littleBytes 4 0 = List.replicate 4 0 := rfl
  rw [littleBytes_add 4 4, none, zeros]

theorem bigBytes_small {n : Nat} (small : n < 2 ^ 32) : bigBytes 8 n = List.replicate 4 0 ++ bigBytes 4 n := by
  rw [bigBytes_eq_reverse, littleBytes_small small, List.reverse_append, List.reverse_replicate, bigBytes_eq_reverse]

variable {i : Id} {aad cipher : Bytes}

/-- The word of the lengths is written as whole double words. -/
theorem encodeLengths_eq (shortAad : aad.length < lengthBound i) (shortTxt : cipher.length < lengthBound i) :
    encodeLengths i (UInt32.ofNat aad.length) (UInt32.ofNat cipher.length) = lengthsWord i aad cipher := by
  have aadWord := length_toNat shortAad
  have txtWord := length_toNat shortTxt
  have eight : (8 : UInt32).toNat = 8 := rfl
  cases alg : macAlgOfId i with
  | poly1305 =>
    simp only [lengthBound, alg] at shortAad shortTxt
    simp only [encodeLengths, lengthsWord, alg, encodeLengthsPoly1305, aadWord, txtWord, littleBytes_small shortAad,
      littleBytes_small shortTxt, List.append_assoc]
  | ghash =>
    simp only [lengthBound, alg] at shortAad shortTxt
    have bits {len : Nat} {x : UInt32} (short : len < 2 ^ 29) (word : x.toNat = len) : (8 * x).toNat = 8 * len := by
      rw [UInt32.toNat_mul, eight, word]
      omega
    simp only [encodeLengths, lengthsWord, alg, encodeLengthsGhash, bits shortAad aadWord, bits shortTxt txtWord,
      bigBytes_small (show 8 * aad.length < 2 ^ 32 by omega), bigBytes_small (show 8 * cipher.length < 2 ^ 32 by omega),
      List.append_assoc]

/-- The encoding starts with the lengths, and determines both texts. -/
theorem encodeTexts_determines (shortAad : aad.length < lengthBound i) (shortTxt : cipher.length < lengthBound i) :
    (encodeTexts i aad cipher).head? = some (lengthsWord i aad cipher) ∧
    ∀ aad' cipher', aad'.length < lengthBound i → cipher'.length < lengthBound i →
      encodeTexts i aad' cipher' = encodeTexts i aad cipher → aad' = aad ∧ cipher' = cipher := by
  constructor
  · rw [encodeTexts, encodeBoth, List.head?_cons, encodeLengths_eq shortAad shortTxt]
  · intro aad' cipher' shortAad' shortTxt' same
    exact encodeBoth_injective shortAad' shortTxt' shortAad shortTxt same

/-- A ciphertext of one byte is not confused with additional data of one byte. -/
theorem encodeTexts_determines_byte :
    (encodeTexts .aes128Gcm [] [7]).head? = some (lengthsWord .aes128Gcm [] [7]) ∧
      encodeTexts .aes128Gcm [7] [] ≠ encodeTexts .aes128Gcm [] [7] := by
  obtain ⟨word, determines⟩ := @encodeTexts_determines .aes128Gcm [] [7] (by decide) (by decide)
  exact ⟨word, fun same => absurd (determines [7] [] (by decide) (by decide) same).1 (by decide)⟩

/-- In 32 bits the length in bits of half a gigabyte is zero, so the texts may change places. -/
theorem encodeTexts_wraps : ¬ ∀ (i : Id) (aad cipher aad' cipher' : Bytes), aad.length < 2 ^ 32 →
    cipher.length < 2 ^ 32 → aad'.length < 2 ^ 32 → cipher'.length < 2 ^ 32 →
    encodeTexts i aad cipher = encodeTexts i aad' cipher' → aad = aad' ∧ cipher = cipher' := by
  intro injective
  have size : (List.replicate (2 ^ 29) (0 : UInt8)).length = 2 ^ 29 := List.length_replicate
  generalize List.replicate (2 ^ 29) (0 : UInt8) = large at size
  have lengths : encodeLengths .aes128Gcm (UInt32.ofNat (2 ^ 29)) (UInt32.ofNat 0) =
      encodeLengths .aes128Gcm (UInt32.ofNat 0) (UInt32.ofNat (2 ^ 29)) := by decide
  have same : encodeTexts .aes128Gcm large [] = encodeTexts .aes128Gcm [] large := by
    rw [encodeTexts, encodeTexts, encodeBoth, encodeBoth, size, List.length_nil, lengths, encodeBytes_nil,
      List.append_nil, List.nil_append]
  have equal := (injective .aes128Gcm large [] [] large (by omega) (by simp) (by simp) (by omega) same).1
  rw [equal] at size
  exact absurd size (by decide)

end HaclStar.Correctness.MacEncoding
