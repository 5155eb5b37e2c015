import HaclStar.Lib.Endianness

/-! Byte strings cut into chunks, and stream ciphers as the exclusive or with a keystream. -/

namespace Keystream

open Endianness

/-- The chunks of a byte string, each transformed by a function of its number. -/
def mapChunks (width : Nat) (g : Nat → Bytes → Bytes) (n : Nat) (bytes : Bytes) : Bytes :=
  (List.range n).flatMap fun i => g i ((bytes.drop (width * i)).take width)

/-- One more chunk is appended at the end. -/
theorem mapChunks_succ (width : Nat) (g : Nat → Bytes → Bytes) (n : Nat) (bytes : Bytes) :
    mapChunks width g (n + 1) bytes =
      mapChunks width g n bytes ++ g n ((bytes.drop (width * n)).take width) := by
  simp [mapChunks, List.range_succ]

/-- Transformations that keep the chunk width keep the total width. -/
theorem mapChunks_length (width n : Nat) (g : Nat → Bytes → Bytes) (bytes : Bytes)
    (widths : ∀ i < n, (g i ((bytes.drop (width * i)).take width)).length = width) :
    (mapChunks width g n bytes).length = width * n := by
  -- Each chunk adds its width.
  induction n with
  | zero => simp [mapChunks]
  | succ n ih =>
    rw [mapChunks_succ, List.length_append, ih fun i below => widths i (by omega),
      widths n (by omega), Nat.mul_succ]

/-- Chunks before the end of a prefix are chunks of the prefix. -/
theorem mapChunks_take {width : Nat} {g : Nat → Bytes → Bytes} (n : Nat) (bytes : Bytes) :
    mapChunks width g n (bytes.take (width * n)) = mapChunks width g n bytes := by
  -- Chunk `i` ends at `width * (i + 1)`, which the prefix reaches.
  unfold mapChunks
  simp only [List.flatMap_def]
  congr 1
  apply List.map_congr_left
  intro i member
  have below : width * (i + 1) ≤ width * n :=
    Nat.mul_le_mul_left _ (List.mem_range.mp member)
  rw [Nat.mul_succ] at below
  rw [List.drop_take, List.take_take, Nat.min_eq_left (by omega)]

/-- The bytes combined by exclusive or, as far as both strings reach. -/
def xor (x y : Bytes) : Bytes := List.zipWith (fun a b => a ^^^ b) x y

@[simp] theorem xor_length (x y : Bytes) : (xor x y).length = min x.length y.length := by
  simp [xor]

theorem xor_comm (x y : Bytes) : xor x y = xor y x := by
  rw [xor, xor, List.zipWith_comm]
  simp only [UInt8.xor_comm]

/-- The keystream byte at a position, cut from numbered blocks of one width. -/
def keystream (block : Nat → Bytes) (width start i : Nat) : UInt8 :=
  (block (start + i / width)).getD (i % width) 0

/-- A message combined with a keystream, position by position. -/
def xorStream (stream : Nat → UInt8) (message : Bytes) : Bytes :=
  message.mapIdx fun i byte => byte ^^^ stream i

variable {stream : Nat → UInt8} {block : Nat → Bytes} {width start : Nat} {message : Bytes}

@[simp] theorem xorStream_length (stream : Nat → UInt8) (message : Bytes) :
    (xorStream stream message).length = message.length := by
  simp [xorStream]

@[simp] theorem xorStream_nil (stream : Nat → UInt8) : xorStream stream [] = [] := rfl

/-- Each position of the result is the message byte combined with the keystream byte. -/
theorem xorStream_getElem? (stream : Nat → UInt8) (message : Bytes) (i : Nat) :
    (xorStream stream message)[i]? = message[i]?.map (· ^^^ stream i) := by
  simp [xorStream, List.getElem?_mapIdx]

/-- The second part of a message meets the keystream where the first part left it. -/
theorem xorStream_append (stream : Nat → UInt8) (first second : Bytes) :
    xorStream stream (first ++ second) =
      xorStream stream first ++ xorStream (fun i => stream (first.length + i)) second := by
  -- Positions in the second part are shifted by the length of the first.
  simp only [xorStream, List.mapIdx_append, Nat.add_comm]

/-- A prefix of the result is the result on the prefix. -/
theorem xorStream_take (stream : Nat → UInt8) (message : Bytes) (n : Nat) :
    (xorStream stream message).take n = xorStream stream (message.take n) := by
  -- Both sides agree at each position below `n` and end there.
  apply List.ext_getElem?
  intro i
  simp only [List.getElem?_take, xorStream_getElem?]
  split <;> simp

/-- A suffix of the result is the result on the suffix under the shifted keystream. -/
theorem xorStream_drop (stream : Nat → UInt8) (message : Bytes) (n : Nat) :
    (xorStream stream message).drop n = xorStream (fun i => stream (n + i)) (message.drop n) := by
  -- Position `i` of the suffix is position `n + i` of the whole.
  apply List.ext_getElem?
  intro i
  simp only [List.getElem?_drop, xorStream_getElem?]

/-- Combining twice with one keystream restores the message. -/
theorem xorStream_involutive (stream : Nat → UInt8) (message : Bytes) :
    xorStream stream (xorStream stream message) = message := by
  -- Each byte meets the same keystream byte twice.
  apply List.ext_getElem?
  intro i
  simp only [xorStream_getElem?, Option.map_map]
  cases message[i]? with
  | none => rfl
  | some byte => simp

/-- Only the keystream bytes under the message matter. -/
theorem xorStream_congr {stream stream' : Nat → UInt8}
    (agree : ∀ i < message.length, stream i = stream' i) :
    xorStream stream message = xorStream stream' message := by
  -- Beyond the message both sides have no position.
  apply List.ext_getElem?
  intro i
  rw [xorStream_getElem?, xorStream_getElem?]
  by_cases inside : i < message.length
  · rw [agree i inside]
  · simp [List.getElem?_eq_none (Nat.le_of_not_lt inside)]

/-- Two keystreams give one result exactly when they agree under the message. -/
theorem xorStream_inj {stream stream' : Nat → UInt8} :
    xorStream stream message = xorStream stream' message ↔ ∀ i < message.length, stream i = stream' i := by
  refine ⟨?_, xorStream_congr⟩
  intro same i inside
  have byte : (xorStream stream message)[i]? = (xorStream stream' message)[i]? := by rw [same]
  rw [xorStream_getElem?, xorStream_getElem?, List.getElem?_eq_getElem inside] at byte
  simpa [UInt8.xor_right_inj] using byte

/-- Whole blocks advance the block number. -/
theorem keystream_shift (positive : 0 < width) (n i : Nat) :
    keystream block width start (width * n + i) = keystream block width (start + n) i := by
  -- Dividing the shifted position by the width adds the number of whole blocks.
  unfold keystream
  rw [Nat.mul_add_div positive, Nat.mul_add_mod, Nat.add_assoc]

/-- Inside the first block the keystream is that block. -/
theorem xorStream_block (size : (block start).length = width) (short : message.length ≤ width) :
    xorStream (keystream block width start) message = xor message (block start) := by
  -- Positions below the width have quotient zero.
  apply List.ext_getElem?
  intro i
  rw [xorStream_getElem?, xor, List.getElem?_zipWith]
  by_cases inside : i < message.length
  · have below : i < (block start).length := by omega
    have here : keystream block width start i = (block start)[i] := by
      unfold keystream
      rw [Nat.div_eq_of_lt (by omega), Nat.mod_eq_of_lt (by omega), Nat.add_zero,
        List.getD_eq_getElem _ _ below]
    simp [inside, below, here]
  · simp [List.getElem?_eq_none (Nat.le_of_not_lt inside)]

/-- Combining with a block needs only the part of the block under the message. -/
theorem xor_take (message mask : Bytes) : xor message (mask.take message.length) = xor message mask := by
  -- The shorter operand ends the result.
  apply List.ext_getElem?
  intro i
  simp only [xor, List.getElem?_zipWith, List.getElem?_take]
  by_cases inside : i < message.length
  · rw [if_pos inside]
  · simp [List.getElem?_eq_none (Nat.le_of_not_lt inside)]

/-- A mask in two parts meets the two parts of the message. -/
theorem xor_append (message first second : Bytes) :
    xor message (first ++ second) =
      xor (message.take first.length) first ++ xor (message.drop first.length) second := by
  -- Byte by byte, until the first part of the mask or the message ends.
  induction first generalizing message with
  | nil => simp [xor]
  | cons byte first ih =>
    cases message with
    | nil => simp [xor]
    | cons byte' message => simpa [xor] using ih message

/-- The blocks of successive counters, one after another, are a stretch of the keystream. -/
theorem xor_blocks (positive : 0 < width) (m : Nat)
    (size : ∀ i < m, (block (start + i)).length = width) (short : message.length ≤ width * m) :
    xor message ((List.range m).flatMap fun i => block (start + i)) =
      xorStream (keystream block width start) message := by
  -- The part of the message under the last block meets the block numbered by the ones before it.
  induction m generalizing message with
  | zero =>
    have none : message = [] := List.eq_nil_of_length_eq_zero (by omega)
    simp [none, xor]
  | succ m ih =>
    have before : ((List.range m).flatMap fun i => block (start + i)).length = width * m := by
      have total := mapChunks_length width m (fun i _ => block (start + i)) []
        fun i below => size i (by omega)
      exact total
    have shifted : (fun i => keystream block width start (width * m + i)) =
        keystream block width (start + m) := funext fun i => keystream_shift positive m i
    rw [Nat.mul_succ] at short
    have last : (message.drop (width * m)).length ≤ width := by rw [List.length_drop]; omega
    rw [List.range_succ, List.flatMap_append, xor_append, before,
      ih (fun i below => size i (by omega)) (by rw [List.length_take]; omega), List.flatMap_singleton,
      ← xorStream_block (size m (by omega)) last, ← shifted, ← xorStream_drop, ← xorStream_take,
      List.take_append_drop]

/-- On whole chunks the keystream is applied block by block. -/
theorem xorStream_chunks (positive : 0 < width) (n : Nat)
    (size : ∀ i < n, (block (start + i)).length = width) (whole : message.length = width * n) :
    xorStream (keystream block width start) message =
      mapChunks width (fun i chunk => xor chunk (block (start + i))) n message := by
  -- The last chunk meets the block numbered by the chunks before it.
  induction n generalizing message with
  | zero =>
    have none : message = [] := List.eq_nil_of_length_eq_zero (by omega)
    simp [none, mapChunks]
  | succ n ih =>
    rw [Nat.mul_succ] at whole
    have before : (message.take (width * n)).length = width * n := by
      rw [List.length_take]; omega
    have last : (message.drop (width * n)).length = width := by
      rw [List.length_drop]; omega
    have split := List.take_append_drop (width * n) message
    have chunks : mapChunks width (fun i chunk => xor chunk (block (start + i))) n
        (message.take (width * n)) =
          mapChunks width (fun i chunk => xor chunk (block (start + i))) n message :=
      mapChunks_take n message
    have shifted : (fun i => keystream block width start (width * n + i)) =
        keystream block width (start + n) := funext fun i => keystream_shift positive n i
    rw [mapChunks_succ, List.take_of_length_le last.le, ← chunks,
      ← ih (fun i below => size i (by omega)) before]
    conv_lhs => rw [← split, xorStream_append, before, shifted,
      xorStream_block (size n (by omega)) last.le]

/-- A keystream may be applied to chunks of any width, each meeting it where the last one ended. -/
theorem mapChunks_xorStream {n : Nat} (covers : width * n ≤ message.length) :
    mapChunks width (fun i chunk => xorStream (fun j => stream (width * i + j)) chunk) n message =
      xorStream stream (message.take (width * n)) := by
  -- The last chunk starts after the chunks before it.
  induction n with
  | zero => simp [mapChunks]
  | succ n ih =>
    rw [Nat.mul_succ] at covers
    have before : (message.take (width * n)).length = width * n := by
      rw [List.length_take]; omega
    rw [mapChunks_succ, ih (by omega), Nat.mul_succ, List.take_add, xorStream_append, before]

/-- The keystream itself is what zero bytes turn into. -/
theorem xorStream_zeros (size : (block start).length = width) {n : Nat} (short : n ≤ width) :
    xorStream (keystream block width start) (List.replicate n 0) = (block start).take n := by
  -- Combining a zero byte with a keystream byte gives the keystream byte.
  rw [xorStream_block size (by simpa using short), ← xor_take, List.length_replicate]
  apply List.ext_getElem?
  intro i
  simp only [xor, List.getElem?_zipWith, List.getElem?_replicate, List.getElem?_take]
  by_cases inside : i < n
  · cases (block start)[i]? <;> simp [inside]
  · simp [inside]

end Keystream
