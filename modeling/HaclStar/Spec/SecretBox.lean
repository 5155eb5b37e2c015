import HaclStar.Spec.Poly1305
import HaclStar.Spec.Salsa20

/-! The secretbox specification. -/

namespace HaclStar.Spec.SecretBox

open Endianness Keystream

/-- The one-time key, the cipher key and the cipher nonce. -/
def secretboxInit (k n : Bytes) : Bytes × Bytes × Bytes :=
  let n1 := n.take 16
  let n2 := n.drop 16
  let subkey := HSalsa20.hsalsa20 k n1
  let keyblock := Salsa20.salsa20Block subkey n2 0
  let mackey := keyblock.take 32
  (mackey, subkey, n2)

/-- Encrypt or decrypt: the first bytes share a block with the one-time key. -/
def secretboxProcess (input k n : Bytes) : Bytes :=
  let ilen := input.length
  let ilen0 := if ilen < 32 then ilen else 32
  let i0 := input.take ilen0
  let irest := input.drop ilen0
  let iblock0 := List.replicate 32 0 ++ i0
  let oblock0 := Salsa20.salsa20EncryptBytes k n 0 iblock0
  let o0 := oblock0.drop 32
  let orest := Salsa20.salsa20EncryptBytes k n 1 irest
  o0 ++ orest

/-- The tag and the ciphertext of a message. -/
def secretboxDetached (m k n : Bytes) : Bytes × Bytes :=
  let (mk, ek, n) := secretboxInit k n
  let cipher := secretboxProcess m ek n
  let mac := Poly1305.poly1305 cipher mk
  (mac, cipher)

/-- The message of a ciphertext when the tag is right. -/
def secretboxOpenDetached (cipher mac k n : Bytes) : Option Bytes :=
  let (mk, ek, n) := secretboxInit k n
  let xmac := Poly1305.poly1305 cipher mk
  if xmac = mac then some (secretboxProcess cipher ek n) else none

/-- The keystream of a box: the one-time key, then the bytes that meet the message. -/
def boxStream (k n : Bytes) : Nat → UInt8 :=
  keystream (Salsa20.salsa20Block (HSalsa20.hsalsa20 k (n.take 16)) (n.drop 16)) 64 0

/-- The one-time key of a box. -/
def macKey (k n : Bytes) : Bytes := xorStream (boxStream k n) (List.replicate 32 0)

/-- The ciphertext of a message, and the message of a ciphertext. -/
def encipher (k n m : Bytes) : Bytes := xorStream (fun i => boxStream k n (32 + i)) m

/-- The tag of a ciphertext. -/
def tag (k n cipher : Bytes) : Bytes := Poly1305.poly1305 cipher (macKey k n)

@[simp] theorem macKey_length (k n : Bytes) : (macKey k n).length = 32 := by simp [macKey]

@[simp] theorem encipher_length (k n m : Bytes) : (encipher k n m).length = m.length := by
  simp [encipher]

@[simp] theorem tag_length (k n cipher : Bytes) : (tag k n cipher).length = 16 :=
  Poly1305.poly1305_length _ _

/-- Enciphering twice restores the message. -/
theorem encipher_involutive (k n m : Bytes) : encipher k n (encipher k n m) = m :=
  xorStream_involutive _ m

/-- Bytes after a prefix of thirty-two meet the keystream of the message. -/
theorem drop_boxStream (k n padded : Bytes) :
    (xorStream (boxStream k n) padded).drop 32 = encipher k n (padded.drop 32) :=
  xorStream_drop _ _ _

/-- A prefix of thirty-two zero bytes turns into the one-time key. -/
theorem take_boxStream {k n padded : Bytes} (zeros : padded.take 32 = List.replicate 32 0) :
    (xorStream (boxStream k n) padded).take 32 = macKey k n := by
  rw [xorStream_take, zeros, macKey]

/-- The one-time key is the beginning of the first block. -/
theorem macKey_eq (k n : Bytes) :
    macKey k n = (Salsa20.salsa20Block (HSalsa20.hsalsa20 k (n.take 16)) (n.drop 16) 0).take 32 :=
  xorStream_zeros (Salsa20.salsa20Block_length _ _ 0) (by decide)

/-- Processing meets the keystream from its thirty-third byte on. -/
theorem secretboxProcess_eq (k n input : Bytes) :
    secretboxProcess input (HSalsa20.hsalsa20 k (n.take 16)) (n.drop 16) = encipher k n input := by
  -- The rest starts at block one, which is byte thirty-two of the message.
  have rest : keystream (Salsa20.salsa20Block (HSalsa20.hsalsa20 k (n.take 16)) (n.drop 16)) 64 1 =
      fun i => boxStream k n (64 + i) := by
    funext i
    exact (keystream_shift (by decide) 1 i).symm
  have first : (List.replicate 32 (0 : UInt8)).length = 32 := List.length_replicate
  simp only [secretboxProcess, Salsa20.salsa20EncryptBytes_keystream]
  rw [show keystream (Salsa20.salsa20Block (HSalsa20.hsalsa20 k (n.take 16)) (n.drop 16)) 64 0 =
    boxStream k n from rfl, xorStream_append, first, List.drop_left' (by simp), rest]
  split
  · next short =>
    rw [List.drop_length, xorStream_nil, List.append_nil, List.take_length]
    rfl
  · next long =>
    have size : (input.take 32).length = 32 := by rw [List.length_take]; omega
    have shifted : (fun i => boxStream k n (32 + (32 + i))) = fun i => boxStream k n (64 + i) := by
      funext i
      rw [← Nat.add_assoc]
    conv_rhs => rw [encipher, ← List.take_append_drop 32 input, xorStream_append, size, shifted]

/-- Sealing enciphers the message, and tags the ciphertext. -/
theorem secretboxDetached_eq (m k n : Bytes) :
    secretboxDetached m k n = (tag k n (encipher k n m), encipher k n m) := by
  simp only [secretboxDetached, secretboxInit, secretboxProcess_eq, tag, macKey_eq]

/-- Opening checks the tag, and enciphers the ciphertext. -/
theorem secretboxOpenDetached_eq (cipher mac k n : Bytes) :
    secretboxOpenDetached cipher mac k n =
      if tag k n cipher = mac then some (encipher k n cipher) else none := by
  simp only [secretboxOpenDetached, secretboxInit, secretboxProcess_eq, tag, macKey_eq]

/-- Opening a sealed message restores it. -/
theorem secretboxOpenDetached_sealed (m k n : Bytes) :
    secretboxOpenDetached (secretboxDetached m k n).2 (secretboxDetached m k n).1 k n = some m := by
  rw [secretboxDetached_eq, secretboxOpenDetached_eq, if_pos rfl, encipher_involutive]

end HaclStar.Spec.SecretBox
