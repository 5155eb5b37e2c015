import HaclStar.Impl.Chacha20Rust

/-! The Rust ChaCha20 against the specification, for messages of any number of blocks. -/

namespace HaclStar.Correctness.Chacha20Rust

open Endianness Keystream Memory Spec Impl.Chacha20Rust

/-- Every output buffer with room receives the encryption of the first `len` bytes, and keeps its rest. -/
def Encrypts (m : Bytes) (len : Nat) (k n : Bytes) (ctr : UInt32) : Prop :=
  ∀ c : Bytes, len ≤ c.length → chacha20 c m len k n ctr =
    some (Spec.Chacha20.chacha20EncryptBytes k n ctr.toNat (m.take len) ++ c.drop len)

variable {k n m c : Bytes} {len : Nat} {ctr : UInt32}

/-- A message of at most one block meets the keystream block of its counter. -/
theorem encrypt_short {message : Bytes} (short : message.length ≤ 64) (counter : Nat) :
    Spec.Chacha20.chacha20EncryptBytes k n counter message =
      xor message (Spec.Chacha20.chacha20Block k n counter) := by
  rw [Spec.Chacha20.chacha20EncryptBytes_keystream,
    xorStream_block (Spec.Chacha20.chacha20Block_length k n counter) short]

/-- The bytes behind the first block are encrypted with the next counter. -/
theorem encrypt_append {first : Bytes} (size : first.length = 64) (rest : Bytes) (counter : Nat) :
    Spec.Chacha20.chacha20EncryptBytes k n counter (first ++ rest) =
      xor first (Spec.Chacha20.chacha20Block k n counter) ++
        Spec.Chacha20.chacha20EncryptBytes k n (counter + 1) rest := by
  have shifted : (fun i => keystream (Spec.Chacha20.chacha20Block k n) 64 counter (first.length + i)) =
      keystream (Spec.Chacha20.chacha20Block k n) 64 (counter + 1) :=
    funext fun i => by rw [size]; exact keystream_shift (by decide) 1 i
  rw [Spec.Chacha20.chacha20EncryptBytes_keystream, Spec.Chacha20.chacha20EncryptBytes_keystream,
    xorStream_append, shifted, xorStream_block (Spec.Chacha20.chacha20Block_length k n counter) size.le]

/-- Without a whole block, the rest is the message. -/
theorem encrypts_rest (size : k.length = 32) (size' : n.length = 12) (fits : len ≤ m.length)
    (short : len < 64) : Encrypts m len k n ctr := by
  intro c fits'
  have small := ctr.toNat_lt
  have none : len / 64 = 0 := Nat.div_eq_of_lt short
  have taken : (m.take len).length = len := by rw [List.length_take]; omega
  rw [chacha20_run size size' fits fits' (by omega), none, if_pos rfl, Nat.add_zero, finishRest,
    Nat.mod_eq_of_lt short, Nat.sub_self, List.drop_zero, encrypt_short (by omega)]
  split
  · rw [splice_start, xor_length, taken, Spec.Chacha20.chacha20Block_length, Nat.min_eq_left (by omega)]
  · have empty : len = 0 := by omega
    subst empty
    rfl

/-- One whole block is written to its place, and the rest behind it. -/
theorem encrypts_block (size : k.length = 32) (size' : n.length = 12) (fits : len ≤ m.length)
    (bounded : ctr.toNat + len / 64 < 2 ^ 32) (whole : 64 ≤ len) (short : len < 128) :
    Encrypts m len k n ctr := by
  intro c fits'
  have one : len / 64 = 1 := by omega
  have rest : len % 64 = len - 64 := by omega
  have before : len - (len - 64) = 64 := by omega
  set first := m.take 64 with first_def
  set last := (m.drop 64).take (len - 64) with last_def
  have parts : m.take len = first ++ last := by
    rw [first_def, last_def, ← List.take_add, Nat.add_sub_cancel' whole]
  have firstSize : first.length = 64 := by rw [first_def, List.length_take]; omega
  have lastSize : last.length = len - 64 := by rw [last_def, List.length_take, List.length_drop]; omega
  have blockSize := block_length (show 64 ≤ m.length by omega) k n ctr.toNat
  have written : splice c 0 (block k n m ctr.toNat) = block k n m ctr.toNat ++ c.drop 64 := by
    rw [splice_start, blockSize]
  have maskedSize : (xor last (Spec.Chacha20.chacha20Block k n (ctr.toNat + 1))).length = len - 64 := by
    rw [xor_length, lastSize, Spec.Chacha20.chacha20Block_length]; omega
  -- The rest replaces the bytes behind the block.
  have replaced := splice_append (block k n m ctr.toNat) (c.drop 64)
    (xor last (Spec.Chacha20.chacha20Block k n (ctr.toNat + 1)))
  rw [blockSize, splice_start, maskedSize, List.drop_drop, Nat.add_sub_cancel' whole] at replaced
  rw [chacha20_run size size' fits fits' bounded, one, if_neg one_ne_zero, Nat.add_sub_cancel, written,
    finishRest, rest, before, ← last_def, parts, encrypt_append firstSize, encrypt_short (by omega), replaced,
    List.append_assoc]
  split
  · rfl
  · have exact64 : len = 64 := by omega
    have empty : last = [] := List.eq_nil_of_length_eq_zero (by omega)
    rw [empty, exact64]
    rfl

/-- From two whole blocks on, the second block of the output is left as it was. -/
theorem not_encrypts (size : k.length = 32) (size' : n.length = 12) (fits : len ≤ m.length)
    (bounded : ctr.toNat + len / 64 < 2 ^ 32) (long : 128 ≤ len) : ¬ Encrypts m len k n ctr := by
  intro claimed
  set ct := Spec.Chacha20.chacha20EncryptBytes k n ctr.toNat (m.take len) with ct_def
  have ctSize : ct.length = len := by
    rw [ct_def, Spec.Chacha20.chacha20EncryptBytes_length, List.length_take]; omega
  -- An output that holds another byte than the one to be written there keeps it.
  set old := ct.getD 64 0 + 1 with old_def
  set c := List.replicate len old with c_def
  have cSize : c.length = len := List.length_replicate
  have ran := claimed c cSize.ge
  have blockSize := block_length (show 64 ≤ m.length by omega) k n (ctr.toNat + len / 64 - 1)
  have some : len / 64 ≠ 0 := by omega
  rw [chacha20_run size size' fits cSize.ge bounded, if_neg some, Option.some_inj, ← ct_def,
    List.drop_of_length_le cSize.le, List.append_nil] at ran
  have written : (splice c 0 (block k n m (ctr.toNat + len / 64 - 1)))[64]? = Option.some old := by
    rw [splice_getElem? _ _ _ (by omega), if_neg (by omega), c_def, List.getElem?_replicate, if_pos (by omega)]
  have kept : (finishRest k n m len (ctr.toNat + len / 64)
      (splice c 0 (block k n m (ctr.toNat + len / 64 - 1))))[64]? = Option.some old := by
    have maskedSize : (xor ((m.drop (len - len % 64)).take (len % 64))
        (Spec.Chacha20.chacha20Block k n (ctr.toNat + len / 64))).length = len % 64 := by
      rw [xor_length, List.length_take, List.length_drop, Spec.Chacha20.chacha20Block_length]; omega
    rw [finishRest]
    split
    · rw [splice_getElem? _ _ _ (by rw [splice_length _ _ _ (by omega)]; omega), if_neg (by omega), written]
    · exact written
  rw [ran, List.getElem?_eq_getElem (by omega), Option.some_inj] at kept
  rw [old_def, List.getD_eq_getElem _ _ (by omega)] at kept
  -- No byte is its own successor.
  simp at kept

/-- The Rust function encrypts to every output buffer exactly when the message has fewer than two whole
blocks. -/
theorem encrypts_iff (size : k.length = 32) (size' : n.length = 12) (fits : len ≤ m.length)
    (bounded : ctr.toNat + len / 64 < 2 ^ 32) : Encrypts m len k n ctr ↔ len < 128 := by
  constructor
  · intro encrypts
    by_contra long
    exact not_encrypts size size' fits bounded (by omega) encrypts
  · intro short
    by_cases whole : 64 ≤ len
    · exact encrypts_block size size' fits bounded whole short
    · exact encrypts_rest size size' fits (by omega)

theorem encrypts_iff_two_blocks :
    Encrypts (List.replicate 128 0) 128 (List.replicate 32 0) (List.replicate 12 0) 0 ↔ 128 < 128 :=
  encrypts_iff (by decide) (by decide) (by decide) (by decide)

/-- Two blocks of zeros are not encrypted. -/
theorem encrypts_fails : ¬ ∀ (m : Bytes) (len : Nat) (k n : Bytes) (ctr : UInt32), k.length = 32 →
    n.length = 12 → len ≤ m.length → ctr.toNat + len / 64 < 2 ^ 32 → Encrypts m len k n ctr := by
  intro claimed
  exact not_encrypts (by decide) (by decide) (by decide) (by decide) (by decide)
    (claimed (List.replicate 128 0) 128 (List.replicate 32 0) (List.replicate 12 0) 0 (by decide) (by decide)
      (by decide) (by decide))

end HaclStar.Correctness.Chacha20Rust
