import HaclStar.Spec.Chacha20
import HaclStar.Spec.Poly1305

/-! The ChaCha20-Poly1305 specification. -/

namespace HaclStar.Spec.Chacha20Poly1305

open Endianness

/-- A byte string with zeros up to the next multiple of sixteen. -/
def pad16 (x : Bytes) : Bytes :=
  let l := x.length
  let m := l % 16
  if m = 0 then x else x ++ List.replicate (16 - m) 0

/-- The one-time key of a nonce: the first half of block zero. -/
def macKey (k n : Bytes) : Bytes := (Chacha20.chacha20Block k n 0).take 32

/-- The lengths of the additional data and of the ciphertext. -/
def lengths (m aad : Bytes) : Bytes := littleBytes 8 aad.length ++ littleBytes 8 m.length

/-- The tag of a ciphertext and its additional data. -/
def poly1305Aad (k n m aad : Bytes) : Bytes :=
  let toMac := pad16 aad ++ (pad16 m ++ lengths m aad)
  Poly1305.poly1305 toMac (macKey k n)

/-- The ciphertext and the tag of a message. -/
def encrypt (k n m aad : Bytes) : Bytes × Bytes :=
  let cipher := Chacha20.chacha20EncryptBytes k n 1 m
  let mac := poly1305Aad k n cipher aad
  (cipher, mac)

/-- The message of a ciphertext, when the tag is right. -/
def decrypt (k n c mac aad : Bytes) : Option Bytes :=
  let xmac := poly1305Aad k n c aad
  if xmac = mac then some (Chacha20.chacha20EncryptBytes k n 1 c) else none

/-- Padding completes the last block. -/
theorem pad16_length (x : Bytes) : (pad16 x).length % 16 = 0 := by
  -- Either nothing is missing, or the zeros fill what is.
  simp only [pad16]
  split
  · assumption
  · rw [List.length_append, List.length_replicate]
    omega

@[simp] theorem pad16_nil : pad16 [] = [] := rfl

/-- Whole blocks are not padded. -/
theorem pad16_whole {x : Bytes} (whole : x.length % 16 = 0) : pad16 x = x := by
  simp only [pad16, if_pos whole]

/-- After whole blocks only the rest is padded. -/
theorem pad16_append {first : Bytes} (whole : first.length % 16 = 0) (rest : Bytes) :
    pad16 (first ++ rest) = first ++ pad16 rest := by
  -- Both lengths leave the same remainder.
  have same : (first ++ rest).length % 16 = rest.length % 16 := by
    rw [List.length_append]
    omega
  simp only [pad16, same]
  split
  · rfl
  · rw [List.append_assoc]

/-- The padded length depends on the length alone. -/
theorem pad16_size {x y : Bytes} (same : x.length = y.length) : (pad16 x).length = (pad16 y).length := by
  simp only [pad16, same]
  split <;> simp [same]

/-- A padded byte string of known length determines the byte string. -/
theorem pad16_injective {x y : Bytes} (size : x.length = y.length) (same : pad16 x = pad16 y) : x = y := by
  simp only [pad16, size] at same
  split at same
  · exact same
  · exact (List.append_inj same size).1

/-- The block of the lengths determines lengths that fit in eight bytes. -/
theorem lengths_injective {m m' aad aad' : Bytes} (fits : m.length < 2 ^ 64) (fits' : m'.length < 2 ^ 64)
    (fitsAad : aad.length < 2 ^ 64) (fitsAad' : aad'.length < 2 ^ 64)
    (same : lengths m aad = lengths m' aad') : aad.length = aad'.length ∧ m.length = m'.length := by
  obtain ⟨first, second⟩ := List.append_inj same (by simp)
  exact ⟨littleBytes_injective fitsAad fitsAad' first, littleBytes_injective fits fits' second⟩

/-- The key of the tag has thirty-two bytes. -/
@[simp] theorem macKey_length (k n : Bytes) : (macKey k n).length = 32 := by
  rw [macKey, List.length_take, Chacha20.chacha20Block_length]
  rfl

@[simp] theorem poly1305Aad_length (k n m aad : Bytes) : (poly1305Aad k n m aad).length = 16 :=
  Poly1305.poly1305_length _ _

@[simp] theorem lengths_length (m aad : Bytes) : (lengths m aad).length = 16 := by
  simp [lengths]

/-- Decryption restores what was encrypted. -/
theorem decrypt_encrypt (k n m aad : Bytes) :
    decrypt k n (encrypt k n m aad).1 (encrypt k n m aad).2 aad = some m := by
  -- The tag is recomputed from the same ciphertext, and the cipher is an involution.
  simp only [decrypt, encrypt, if_true, Chacha20.chacha20EncryptBytes_involutive]

end HaclStar.Spec.Chacha20Poly1305
