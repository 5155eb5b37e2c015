import HaclStar.Lib.Keystream

/-! Vectors of machine words as byte strings, for any fixed-width encoding of one word. -/

namespace Words

open Endianness Keystream

/-- A fixed-width encoding of words that loses nothing in either direction. -/
structure WordCodec (W : Type) where
  width : Nat
  decode : Bytes → W
  encode : W → Bytes
  encode_length : ∀ word, (encode word).length = width
  decode_encode : ∀ word, decode (encode word) = word
  encode_decode : ∀ bytes, bytes.length = width → encode (decode bytes) = bytes

namespace WordCodec

variable {W : Type} (codec : WordCodec W)

/-- The words of a byte string, the last one decoded last. -/
def fromBytes : (len : Nat) → Bytes → Vector W len
  | 0, _ => #v[]
  | len + 1, src =>
    (fromBytes len (src.take (codec.width * len))).push (codec.decode (src.drop (codec.width * len)))

/-- The bytes of a vector of words, the last one encoded last. -/
def toBytes : (len : Nat) → Vector W len → Bytes
  | 0, _ => []
  | len + 1, src => toBytes len src.pop ++ codec.encode src[len]

/-- The words of a byte string, each loaded from its own position. -/
def loadAll (len : Nat) (src : Bytes) : Vector W len :=
  Vector.ofFn fun i => codec.decode ((src.drop (codec.width * i)).take codec.width)

/-- The bytes of a vector of words, stored one after another. -/
def storeAll {len : Nat} (src : Vector W len) : Bytes := src.toList.flatMap codec.encode

/-- A vector is its last element after the others. -/
private theorem pop_push_last {len : Nat} (src : Vector W (len + 1)) : src.pop.push src[len] = src := by
  apply Vector.ext
  intro i inside
  rw [Vector.getElem_push]
  split
  · simp
  · congr 1
    omega

/-- Encoded words fill their widths. -/
@[simp] theorem toBytes_length (len : Nat) (src : Vector W len) :
    (codec.toBytes len src).length = codec.width * len := by
  -- The last word adds one width.
  induction len with
  | zero => rfl
  | succ len ih => rw [toBytes, List.length_append, ih, codec.encode_length, Nat.mul_succ]

/-- Encoding the words decoded from a byte string of the right length gives the string back. -/
theorem toBytes_fromBytes (len : Nat) (src : Bytes) (size : src.length = codec.width * len) :
    codec.toBytes len (codec.fromBytes len src) = src := by
  -- The last word holds the last bytes.
  induction len generalizing src with
  | zero => exact (List.eq_nil_of_length_eq_zero (by simpa using size)).symm
  | succ len ih =>
    rw [Nat.mul_succ] at size
    rw [fromBytes, toBytes, Vector.pop_push, Vector.getElem_push_eq,
      ih _ (by rw [List.length_take]; omega),
      codec.encode_decode _ (by rw [List.length_drop]; omega), List.take_append_drop]

/-- Decoding encoded words gives them back. -/
theorem fromBytes_toBytes (len : Nat) (src : Vector W len) :
    codec.fromBytes len (codec.toBytes len src) = src := by
  -- The prefix of the bytes encodes all words but the last.
  induction len with
  | zero => exact Vector.eq_empty.symm
  | succ len ih =>
    have size := codec.toBytes_length len src.pop
    rw [toBytes, fromBytes, List.take_left' size, List.drop_left' size, ih, codec.decode_encode]
    exact pop_push_last src

/-- Loading every word from its own position decodes the byte string. -/
theorem loadAll_eq (len : Nat) (src : Bytes) (size : src.length = codec.width * len) :
    codec.loadAll len src = codec.fromBytes len src := by
  -- The words before the last one lie in the prefix.
  induction len generalizing src with
  | zero => exact Vector.eq_empty
  | succ len ih =>
    rw [Nat.mul_succ] at size
    have before := ih (src.take (codec.width * len)) (by rw [List.length_take]; omega)
    rw [fromBytes, ← before]
    apply Vector.ext
    intro i inside
    rw [Vector.getElem_push]
    split
    · next below =>
      have ends : codec.width * (i + 1) ≤ codec.width * len := Nat.mul_le_mul_left _ below
      rw [Nat.mul_succ] at ends
      simp only [loadAll, Vector.getElem_ofFn, List.drop_take, List.take_take]
      rw [Nat.min_eq_left (by omega)]
    · next last =>
      obtain rfl : i = len := by omega
      simp only [loadAll, Vector.getElem_ofFn]
      rw [List.take_of_length_le (by rw [List.length_drop]; omega)]

/-- Storing the words one after another encodes the vector. -/
theorem storeAll_eq {len : Nat} (src : Vector W len) : codec.storeAll src = codec.toBytes len src := by
  -- The last word is stored last.
  induction len with
  | zero => simp [storeAll, toBytes, show src = #v[] from Vector.eq_empty]
  | succ len ih =>
    have split := congrArg Vector.toList (pop_push_last src)
    rw [Vector.toList_push] at split
    rw [toBytes, ← ih, storeAll, storeAll, ← split]
    simp

/-- The bytes of two vectors one after another are the bytes of the first, then of the second. -/
theorem toBytes_append {len len' : Nat} (first : Vector W len) (second : Vector W len') :
    codec.toBytes (len + len') (first ++ second) =
      codec.toBytes len first ++ codec.toBytes len' second := by
  rw [← codec.storeAll_eq, ← codec.storeAll_eq, ← codec.storeAll_eq, storeAll, Vector.toList_append,
    List.flatMap_append]
  rfl

/-- Two byte strings decode to the two parts of a vector. -/
theorem fromBytes_append (len len' : Nat) (first second : Bytes)
    (size : first.length = codec.width * len) (size' : second.length = codec.width * len') :
    codec.fromBytes (len + len') (first ++ second) =
      codec.fromBytes len first ++ codec.fromBytes len' second := by
  -- Loading a word position finds it in the first or in the second string.
  have total : (first ++ second).length = codec.width * (len + len') := by
    rw [List.length_append, size, size', Nat.mul_add]
  rw [← codec.loadAll_eq _ _ total, ← codec.loadAll_eq _ _ size, ← codec.loadAll_eq _ _ size']
  apply Vector.ext
  intro i inside
  rw [Vector.getElem_append]
  split
  · next below =>
    have ends : codec.width * (i + 1) ≤ codec.width * len := Nat.mul_le_mul_left _ below
    rw [Nat.mul_succ] at ends
    simp only [loadAll, Vector.getElem_ofFn]
    rw [List.drop_append_of_le_length (by omega),
      List.take_append_of_le_length (by rw [List.length_drop]; omega)]
  · next above =>
    simp only [loadAll, Vector.getElem_ofFn]
    have start : codec.width * i = first.length + codec.width * (i - len) := by
      rw [size, ← Nat.mul_add]
      congr 1
      omega
    rw [start, ← List.drop_drop, List.drop_left]

/-- A part of a vector that starts at word `i` and has `n` words. -/
def slice {len : Nat} (src : Vector W len) (i n : Nat) (within : i + n ≤ len) : Vector W n :=
  Vector.ofFn fun j => src.get ⟨i + j.val, Nat.lt_of_lt_of_le (Nat.add_lt_add_left j.isLt i) within⟩

/-- The bytes between two word boundaries decode to the words between them. -/
theorem fromBytes_slice {len i n : Nat} {src : Bytes} (size : src.length = codec.width * len) (within : i + n ≤ len) :
    codec.fromBytes n ((src.drop (codec.width * i)).take (codec.width * n)) =
      slice (codec.fromBytes len src) i n within := by
  have ends : codec.width * (i + n) ≤ codec.width * len := Nat.mul_le_mul_left _ within
  rw [Nat.mul_add] at ends
  rw [← codec.loadAll_eq _ _ size, ← codec.loadAll_eq _ _ (by rw [List.length_take, List.length_drop]; omega)]
  -- Each word is loaded from its own position, in the part as in the whole string.
  apply Vector.ext
  intro j inside
  have last : codec.width * (j + 1) ≤ codec.width * n := Nat.mul_le_mul_left _ inside
  rw [Nat.mul_succ] at last
  simp only [loadAll, slice, Vector.getElem_ofFn, Vector.get_eq_getElem]
  rw [List.drop_take, List.take_take, List.drop_drop, Nat.min_eq_left (by omega), Nat.mul_add]

/-- The words between two positions encode to the bytes between their boundaries. -/
theorem toBytes_slice {len i n : Nat} (src : Vector W len) (within : i + n ≤ len) :
    codec.toBytes n (slice src i n within) =
      ((codec.toBytes len src).drop (codec.width * i)).take (codec.width * n) := by
  have ends : codec.width * (i + n) ≤ codec.width * len := Nat.mul_le_mul_left _ within
  rw [Nat.mul_add] at ends
  have size := codec.toBytes_length len src
  -- The bytes decode to the words, and their number makes them the only ones that do.
  have decoded := codec.fromBytes_slice size within
  rw [codec.fromBytes_toBytes] at decoded
  rw [← decoded, codec.toBytes_fromBytes]
  rw [List.length_take, List.length_drop, size]
  omega

/-- Exclusive or on words is exclusive or on their bytes. -/
theorem toBytes_xor [XorOp W]
    (onWord : ∀ x y, codec.encode (x ^^^ y) = xor (codec.encode x) (codec.encode y))
    (len : Nat) (x y : Vector W len) :
    codec.toBytes len (Vector.zipWith (· ^^^ ·) x y) =
      xor (codec.toBytes len x) (codec.toBytes len y) := by
  -- The last words contribute the last bytes on both sides.
  induction len with
  | zero => rfl
  | succ len ih =>
    have same : (codec.toBytes len x.pop).length = (codec.toBytes len y.pop).length := by
      rw [toBytes_length, toBytes_length]
    have popped : (Vector.zipWith (· ^^^ ·) x y).pop = Vector.zipWith (· ^^^ ·) x.pop y.pop := by
      apply Vector.ext
      intro i inside
      simp
    rw [toBytes, toBytes, toBytes, popped, Vector.getElem_zipWith, ih, onWord, Keystream.xor,
      Keystream.xor, Keystream.xor, List.zipWith_append same]

end WordCodec

/-- Exclusive or on naturals is exclusive or on their low bytes. -/
theorem littleBytes_xor (len x y : Nat) :
    littleBytes len (x ^^^ y) = xor (littleBytes len x) (littleBytes len y) := by
  -- Quotient and remainder by 256 both commute with exclusive or.
  induction len generalizing x y with
  | zero => rfl
  | succ len ih =>
    have high : (x ^^^ y) / 256 = x / 256 ^^^ y / 256 := Nat.xor_div_two_pow (n := 8)
    have low : (x ^^^ y) % 256 = x % 256 ^^^ y % 256 := Nat.xor_mod_two_pow (n := 8)
    have byte : UInt8.ofNat (x % 256 ^^^ y % 256) =
        UInt8.ofNat (x % 256) ^^^ UInt8.ofNat (y % 256) := by
      apply UInt8.toNat_inj.mp
      rw [UInt8.toNat_xor, UInt8.toNat_ofNat', UInt8.toNat_ofNat', UInt8.toNat_ofNat',
        Nat.xor_mod_two_pow]
    rw [littleBytes, high, low, byte, ih]
    rfl

end Words
