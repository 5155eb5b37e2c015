import HaclStar.Lib.Words

/-! The specification's word operations, byte encodings of words, and counter mode. -/

namespace HaclStar.Spec

open Endianness Keystream Words

/-! Positions of words in states, keys, nonces and rows may be written as numerals. -/

instance statePositions : NeZero 16 := ⟨by decide⟩

instance keyPositions : NeZero 8 := ⟨by decide⟩

instance rowPositions : NeZero 4 := ⟨by decide⟩

instance halfPositions : NeZero 2 := ⟨by decide⟩

/-- Word twelve of a state, the counter of ChaCha20, is within it. -/
theorem counterPosition : 12 < 16 := by decide

/-- A position of a state is within it. -/
theorem within (a : Fin 16) : a.val < 16 := a.isLt

/-- A lane of a row, or a row of a state, is within it. -/
theorem withinRow (a : Fin 4) : a.val < 4 := a.isLt

/-- Rotate a word towards its most significant bit. -/
def rotateLeft (a s : UInt32) : UInt32 := (a <<< s) ||| (a >>> (32 - s))

/-- Rotate a word towards its least significant bit. -/
def rotateRight (a s : UInt32) : UInt32 := (a >>> s) ||| (a <<< (32 - s))

/-- Decode four little-endian bytes. -/
def uint32FromLe (b : Bytes) : UInt32 := UInt32.ofNat (littleEndian b)

/-- Encode a word as four little-endian bytes. -/
def uint32ToLe (a : UInt32) : Bytes := littleBytes 4 a.toNat

/-- Decode four big-endian bytes. -/
def uint32FromBe (b : Bytes) : UInt32 := UInt32.ofNat (bigEndian b)

/-- Encode a word as four big-endian bytes. -/
def uint32ToBe (a : UInt32) : Bytes := bigBytes 4 a.toNat

/-- Decode eight little-endian bytes. -/
def uint64FromLe (b : Bytes) : UInt64 := UInt64.ofNat (littleEndian b)

/-- Encode a word as eight little-endian bytes. -/
def uint64ToLe (a : UInt64) : Bytes := littleBytes 8 a.toNat

/-- Decode eight big-endian bytes. -/
def uint64FromBe (b : Bytes) : UInt64 := UInt64.ofNat (bigEndian b)

/-- Encode a word as eight big-endian bytes. -/
def uint64ToBe (a : UInt64) : Bytes := bigBytes 8 a.toNat

/-- The little-endian encoding of 32-bit words. -/
def uint32Le : WordCodec UInt32 where
  width := 4
  decode := uint32FromLe
  encode := uint32ToLe
  encode_length := fun word => littleBytes_length 4 word.toNat
  decode_encode := fun word => by
    rw [uint32FromLe, uint32ToLe, littleEndian_littleBytes, Nat.mod_eq_of_lt word.toNat_lt,
      UInt32.ofNat_toNat]
  encode_decode := fun bytes size => by
    have bound : littleEndian bytes < 2 ^ 32 := by
      have := littleEndian_lt bytes
      rwa [size] at this
    rw [uint32ToLe, uint32FromLe, UInt32.toNat_ofNat_of_lt' bound, ← size, littleBytes_littleEndian]

/-- The big-endian encoding of 32-bit words. -/
def uint32Be : WordCodec UInt32 where
  width := 4
  decode := uint32FromBe
  encode := uint32ToBe
  encode_length := fun word => bigBytes_length 4 word.toNat
  decode_encode := fun word => by
    rw [uint32FromBe, uint32ToBe, bigEndian_bigBytes, Nat.mod_eq_of_lt word.toNat_lt,
      UInt32.ofNat_toNat]
  encode_decode := fun bytes size => by
    have bound : bigEndian bytes < 2 ^ 32 := by
      have := bigEndian_lt bytes
      rwa [size] at this
    rw [uint32ToBe, uint32FromBe, UInt32.toNat_ofNat_of_lt' bound, ← size, bigBytes_bigEndian]

/-- The little-endian encoding of 64-bit words. -/
def uint64Le : WordCodec UInt64 where
  width := 8
  decode := uint64FromLe
  encode := uint64ToLe
  encode_length := fun word => littleBytes_length 8 word.toNat
  decode_encode := fun word => by
    rw [uint64FromLe, uint64ToLe, littleEndian_littleBytes, Nat.mod_eq_of_lt word.toNat_lt,
      UInt64.ofNat_toNat]
  encode_decode := fun bytes size => by
    have bound : littleEndian bytes < 2 ^ 64 := by
      have := littleEndian_lt bytes
      rwa [size] at this
    rw [uint64ToLe, uint64FromLe, UInt64.toNat_ofNat_of_lt' bound, ← size, littleBytes_littleEndian]

/-- The big-endian encoding of 64-bit words. -/
def uint64Be : WordCodec UInt64 where
  width := 8
  decode := uint64FromBe
  encode := uint64ToBe
  encode_length := fun word => bigBytes_length 8 word.toNat
  decode_encode := fun word => by
    rw [uint64FromBe, uint64ToBe, bigEndian_bigBytes, Nat.mod_eq_of_lt word.toNat_lt,
      UInt64.ofNat_toNat]
  encode_decode := fun bytes size => by
    have bound : bigEndian bytes < 2 ^ 64 := by
      have := bigEndian_lt bytes
      rwa [size] at this
    rw [uint64ToBe, uint64FromBe, UInt64.toNat_ofNat_of_lt' bound, ← size, bigBytes_bigEndian]

/-- Decode little-endian 32-bit words. -/
def uint32sFromLe (len : Nat) (src : Bytes) : Vector UInt32 len := uint32Le.fromBytes len src

/-- Encode little-endian 32-bit words. -/
def uint32sToLe (len : Nat) (src : Vector UInt32 len) : Bytes := uint32Le.toBytes len src

/-- Decode little-endian 64-bit words. -/
def uint64sFromLe (len : Nat) (src : Bytes) : Vector UInt64 len := uint64Le.fromBytes len src

/-- Encode little-endian 64-bit words. -/
def uint64sToLe (len : Nat) (src : Vector UInt64 len) : Bytes := uint64Le.toBytes len src

/-- Decode big-endian 32-bit words. -/
def uint32sFromBe (len : Nat) (src : Bytes) : Vector UInt32 len := uint32Be.fromBytes len src

/-- Encode big-endian 32-bit words. -/
def uint32sToBe (len : Nat) (src : Vector UInt32 len) : Bytes := uint32Be.toBytes len src

/-- Decode big-endian 64-bit words. -/
def uint64sFromBe (len : Nat) (src : Bytes) : Vector UInt64 len := uint64Be.fromBytes len src

/-- Encode big-endian 64-bit words. -/
def uint64sToBe (len : Nat) (src : Vector UInt64 len) : Bytes := uint64Be.toBytes len src

@[simp] theorem uint32sToLe_length (len : Nat) (src : Vector UInt32 len) :
    (uint32sToLe len src).length = 4 * len := uint32Le.toBytes_length len src

/-- Exclusive or on words is exclusive or on their little-endian bytes. -/
theorem uint32sToLe_xor (len : Nat) (x y : Vector UInt32 len) :
    uint32sToLe len (Vector.zipWith (· ^^^ ·) x y) = xor (uint32sToLe len x) (uint32sToLe len y) :=
  uint32Le.toBytes_xor (fun a b => by
    show littleBytes 4 (a ^^^ b).toNat = _
    rw [UInt32.toNat_xor, littleBytes_xor]
    rfl) len x y

/-- The parameters of a block cipher used in counter mode. -/
structure BlockCipherCtx where
  keylen : Nat
  blocklen : Nat
  noncelen : Nat
  counterbits : Nat
  incr : Nat

/-- A block of keystream for a key, a nonce and a counter. -/
abbrev BlockCipher := Bytes → Bytes → Nat → Bytes

/-- Counter mode on whole blocks, the last block encrypted last.
The recursion is on the number of blocks of the message. -/
def counterModeBlocks (ctx : BlockCipherCtx) (blockEnc : BlockCipher) (key nonce : Bytes)
    (counter : Nat) : Nat → Bytes → Bytes
  | 0, _ => []
  | blocks + 1, plain =>
    let len := plain.length
    let before := plain.take (len - ctx.blocklen * ctx.incr)
    let block := plain.drop (len - ctx.blocklen * ctx.incr)
    let cipher := counterModeBlocks ctx blockEnc key nonce counter blocks before
    let mask := blockEnc key nonce (counter + (len / ctx.blocklen - 1) * ctx.incr)
    cipher ++ xor block mask

/-- Counter mode: whole blocks, then the final partial block when there is one. -/
def counterMode (ctx : BlockCipherCtx) (blockEnc : BlockCipher) (key nonce : Bytes)
    (counter : Nat) (plain : Bytes) : Bytes :=
  let len := plain.length
  let blocksLen := (ctx.incr * ctx.blocklen) * (len / (ctx.blocklen * ctx.incr))
  let partLen := len % (ctx.blocklen * ctx.incr)
  let blocks := plain.take blocksLen
  let lastBlock := plain.drop blocksLen
  let cipherBlocks := counterModeBlocks ctx blockEnc key nonce counter
    (len / (ctx.blocklen * ctx.incr)) blocks
  let cipherLastBlock :=
    if 0 < partLen then
      let mask := blockEnc key nonce (counter + ctx.incr * (len / ctx.blocklen))
      xor lastBlock (mask.take partLen)
    else []
  cipherBlocks ++ cipherLastBlock

section CounterMode

variable {ctx : BlockCipherCtx} {blockEnc : BlockCipher} {key nonce : Bytes}

/-- The counter of a mask, as counter mode computes it from the length of the message: the masks of
whole blocks are numbered from zero, and the mask of a final part follows them. -/
def maskCounter (ctx : BlockCipherCtx) (counter len j : Nat) : Nat :=
  if j < len / (ctx.blocklen * ctx.incr) then counter + (ctx.incr * (j + 1) - 1) * ctx.incr
  else counter + ctx.incr * (len / ctx.blocklen)

/-- On whole blocks, counter mode combines each chunk with the mask of its own counter. -/
theorem counterModeBlocks_chunks (positive : 0 < ctx.blocklen) (counter n : Nat) (plain : Bytes)
    (whole : plain.length = ctx.blocklen * ctx.incr * n) :
    counterModeBlocks ctx blockEnc key nonce counter n plain =
      mapChunks (ctx.blocklen * ctx.incr) (fun j chunk => xor chunk
        (blockEnc key nonce (counter + (ctx.incr * (j + 1) - 1) * ctx.incr))) n plain := by
  -- The recursion and the chunks both treat the last block last.
  induction n generalizing plain with
  | zero => rfl
  | succ n ih =>
    have number : plain.length / ctx.blocklen = ctx.incr * (n + 1) := by
      rw [whole, Nat.mul_assoc, Nat.mul_div_cancel_left _ positive]
    rw [Nat.mul_succ] at whole
    have start : plain.length - ctx.blocklen * ctx.incr = ctx.blocklen * ctx.incr * n := by omega
    have last : (plain.drop (ctx.blocklen * ctx.incr * n)).length ≤ ctx.blocklen * ctx.incr := by
      rw [List.length_drop]; omega
    simp only [counterModeBlocks, start, number]
    rw [ih _ (by rw [List.length_take]; omega), mapChunks_take, mapChunks_succ,
      List.take_of_length_le last]

/-- Counter mode is the exclusive or with the masks of the counters it computes. -/
theorem counterMode_masks (positive : 0 < ctx.blocklen) (forward : 0 < ctx.incr) {counter : Nat}
    {plain : Bytes} (sizes : ∀ j, ctx.blocklen * ctx.incr * j < plain.length →
      (blockEnc key nonce (maskCounter ctx counter plain.length j)).length = ctx.blocklen * ctx.incr) :
    counterMode ctx blockEnc key nonce counter plain =
      xorStream (keystream (fun j => blockEnc key nonce (maskCounter ctx counter plain.length j))
        (ctx.blocklen * ctx.incr) 0) plain := by
  have wide : 0 < ctx.blocklen * ctx.incr := Nat.mul_pos positive forward
  simp only [counterMode, Nat.mul_comm ctx.incr ctx.blocklen]
  set width := ctx.blocklen * ctx.incr with width_def
  set blocks := plain.length / width with blocks_def
  set mask := fun j => blockEnc key nonce (maskCounter ctx counter plain.length j) with mask_def
  have divided := Nat.div_add_mod plain.length width
  rw [← blocks_def] at divided
  have bounded := Nat.mod_lt plain.length wide
  have size : (plain.take (width * blocks)).length = width * blocks := by
    rw [List.length_take]; omega
  have rest : (plain.drop (width * blocks)).length = plain.length % width := by
    rw [List.length_drop]; omega
  have before : ∀ j < blocks, mask j =
      blockEnc key nonce (counter + (ctx.incr * (j + 1) - 1) * ctx.incr) := by
    intro j below
    simp only [mask_def, maskCounter, ← width_def, ← blocks_def, if_pos below]
  have sized : ∀ j < blocks, (mask (0 + j)).length = width := by
    intro j below
    have inside : width * (j + 1) ≤ width * blocks := Nat.mul_le_mul_left _ below
    rw [Nat.mul_succ] at inside
    rw [Nat.zero_add]
    exact sizes j (by omega)
  have shifted : (fun i => keystream mask width 0 (width * blocks + i)) = keystream mask width blocks := by
    funext i
    rw [keystream_shift wide blocks i, Nat.zero_add]
  -- The message is its whole blocks followed by a part shorter than a block.
  conv_rhs => rw [← List.take_append_drop (width * blocks) plain, xorStream_append, size, shifted,
    xorStream_chunks wide blocks sized size]
  rw [counterModeBlocks_chunks positive _ _ _ size]
  congr 1
  · unfold mapChunks
    simp only [List.flatMap_def]
    congr 1
    apply List.map_congr_left
    intro j member
    rw [Nat.zero_add, before j (List.mem_range.mp member)]
  · split
    · next partly =>
      have last : mask blocks = blockEnc key nonce (counter + ctx.incr * (plain.length / ctx.blocklen)) := by
        simp only [mask_def, maskCounter, ← width_def, ← blocks_def, if_neg (Nat.lt_irrefl blocks)]
      have full : (mask blocks).length = width := sizes blocks (by omega)
      rw [xorStream_block full (by rw [rest]; omega), ← rest, xor_take, last]
    · next whole =>
      have none : plain.drop (width * blocks) = [] := List.eq_nil_of_length_eq_zero (by omega)
      rw [none, xorStream_nil]

/-- Single steps count the blocks. -/
theorem maskCounter_single (single : ctx.incr = 1) (counter : Nat) {len j : Nat}
    (inside : ctx.blocklen * j < len) (positive : 0 < ctx.blocklen) :
    maskCounter ctx counter len j = counter + j := by
  have most : j ≤ len / ctx.blocklen := (Nat.le_div_iff_mul_le positive).mpr (by rw [Nat.mul_comm]; omega)
  simp only [maskCounter, single, Nat.mul_one, Nat.one_mul]
  split <;> omega

/-- Counter mode with single steps is the exclusive or with the keystream of the block cipher. -/
theorem counterMode_keystream (single : ctx.incr = 1) (positive : 0 < ctx.blocklen)
    (sizes : ∀ c, (blockEnc key nonce c).length = ctx.blocklen) (counter : Nat) (plain : Bytes) :
    counterMode ctx blockEnc key nonce counter plain =
      xorStream (keystream (blockEnc key nonce) ctx.blocklen counter) plain := by
  rw [counterMode_masks positive (by omega) (fun j _ => by rw [sizes, single, Nat.mul_one])]
  apply xorStream_congr
  intro i inside
  have block : ctx.blocklen * (i / ctx.blocklen) < plain.length :=
    Nat.lt_of_le_of_lt (Nat.mul_div_le i ctx.blocklen) inside
  simp only [keystream, single, Nat.mul_one, Nat.zero_add, maskCounter_single single counter block positive]

end CounterMode

end HaclStar.Spec
