import Mathlib

/-! Naturals as byte strings of a fixed width, least or most significant byte first. -/

namespace Endianness

/-- A byte string. -/
abbrev Bytes := List UInt8

/-- The little-endian value of a byte string. -/
def littleEndian : Bytes → Nat
  | [] => 0
  | byte :: rest => byte.toNat + 2 ^ 8 * littleEndian rest

/-- The big-endian value of a byte string. -/
def bigEndian (bytes : Bytes) : Nat :=
  bytes.foldl (fun value byte => byte.toNat + 2 ^ 8 * value) 0

/-- The low `len` bytes of a natural, least significant byte first. -/
def littleBytes : Nat → Nat → Bytes
  | 0, _ => []
  | len + 1, n => UInt8.ofNat (n % 256) :: littleBytes len (n / 256)

/-- The low `len` bytes of a natural, most significant byte first. -/
def bigBytes : Nat → Nat → Bytes
  | 0, _ => []
  | len + 1, n => bigBytes len (n / 256) ++ [UInt8.ofNat (n % 256)]

/-- A little-endian encoding has the width it is asked for. -/
@[simp] theorem littleBytes_length (len n : Nat) : (littleBytes len n).length = len := by
  -- Each recursive call emits one byte.
  induction len generalizing n with
  | zero => rfl
  | succ len ih => simp [littleBytes, ih]

/-- A big-endian encoding has the width it is asked for. -/
@[simp] theorem bigBytes_length (len n : Nat) : (bigBytes len n).length = len := by
  -- Each recursive call emits one byte.
  induction len generalizing n with
  | zero => rfl
  | succ len ih => simp [bigBytes, ih]

/-- A byte string of length `len` denotes a natural below `256 ^ len`. -/
theorem littleEndian_lt (bytes : Bytes) : littleEndian bytes < 2 ^ (8 * bytes.length) := by
  -- One more byte multiplies the bound by 256, and a byte is at most 255.
  induction bytes with
  | nil => simp [littleEndian]
  | cons byte rest ih =>
    have small : byte.toNat < 256 := byte.toNat_lt
    rw [littleEndian, List.length_cons, Nat.mul_succ, Nat.pow_add]
    omega

/-- Concatenation places the second string above the bits of the first. -/
theorem littleEndian_append (low high : Bytes) :
    littleEndian (low ++ high) = littleEndian low + 2 ^ (8 * low.length) * littleEndian high := by
  -- Peeling one low byte divides both sides by 256.
  induction low with
  | nil => simp [littleEndian]
  | cons byte rest ih =>
    rw [List.cons_append, littleEndian, ih, littleEndian, List.length_cons, Nat.mul_succ, Nat.pow_add]
    ring

/-- Decoding a little-endian encoding keeps the bits that fit in its width. -/
theorem littleEndian_littleBytes (len n : Nat) :
    littleEndian (littleBytes len n) = n % 2 ^ (8 * len) := by
  -- The lowest byte is the remainder by 256, and the rest encodes the quotient.
  induction len generalizing n with
  | zero => simp [littleEndian, littleBytes, Nat.mod_one]
  | succ len ih =>
    have low : (UInt8.ofNat (n % 256)).toNat = n % 256 := by
      simp [UInt8.toNat_ofNat']
    rw [littleBytes, littleEndian, ih, low, Nat.mul_succ, Nat.add_comm (8 * len), Nat.pow_add,
      Nat.mod_mul]

/-- An encoding is that of the low bits followed by that of the high bits. -/
theorem littleBytes_add (len len' n : Nat) :
    littleBytes (len + len') n = littleBytes len n ++ littleBytes len' (n / 2 ^ (8 * len)) := by
  -- Induction on the low part: each of its bytes divides by 256.
  induction len generalizing n with
  | zero => simp [littleBytes]
  | succ len ih =>
    rw [Nat.succ_add, littleBytes, ih, littleBytes, List.cons_append, Nat.mul_succ, Nat.add_comm (8 * len),
      Nat.pow_add, Nat.div_div_eq_div_mul]

/-- Encoding the value of a byte string in its own width gives the string back. -/
theorem littleBytes_littleEndian (bytes : Bytes) :
    littleBytes bytes.length (littleEndian bytes) = bytes := by
  -- The head is the remainder by 256 and the tail is the quotient.
  induction bytes with
  | nil => rfl
  | cons byte rest ih =>
    have small : byte.toNat < 256 := byte.toNat_lt
    have head : (byte.toNat + 2 ^ 8 * littleEndian rest) % 256 = byte.toNat := by omega
    have tail : (byte.toNat + 2 ^ 8 * littleEndian rest) / 256 = littleEndian rest := by omega
    rw [List.length_cons, littleEndian, littleBytes, head, tail, ih, UInt8.ofNat_toNat]

/-- Bits beyond the width do not change an encoding. -/
theorem littleBytes_mod (len n : Nat) : littleBytes len (n % 2 ^ (8 * len)) = littleBytes len n := by
  have restored := littleBytes_littleEndian (littleBytes len n)
  rwa [littleBytes_length, littleEndian_littleBytes] at restored

/-- The bytes of a natural that fits determine it. -/
theorem littleBytes_injective {len n n' : Nat} (fits : n < 2 ^ (8 * len)) (fits' : n' < 2 ^ (8 * len))
    (same : littleBytes len n = littleBytes len n') : n = n' := by
  have value := congrArg littleEndian same
  rwa [littleEndian_littleBytes, littleEndian_littleBytes, Nat.mod_eq_of_lt fits,
    Nat.mod_eq_of_lt fits'] at value

/-- Byte strings of one length are determined by their little-endian value. -/
theorem littleEndian_injective {first second : Bytes}
    (width : first.length = second.length) (same : littleEndian first = littleEndian second) :
    first = second := by
  -- Both strings are the encoding of one value in one width.
  rw [← littleBytes_littleEndian first, width, same, littleBytes_littleEndian]

/-- The last byte of a big-endian string is its least significant one. -/
theorem bigEndian_concat (bytes : Bytes) (byte : UInt8) :
    bigEndian (bytes ++ [byte]) = byte.toNat + 2 ^ 8 * bigEndian bytes := by
  -- The fold treats the last byte last.
  simp [bigEndian]

/-- Decoding a big-endian encoding keeps the bits that fit in its width. -/
theorem bigEndian_bigBytes (len n : Nat) : bigEndian (bigBytes len n) = n % 2 ^ (8 * len) := by
  -- The last byte is the remainder by 256, and the rest encodes the quotient.
  induction len generalizing n with
  | zero => simp [bigEndian, bigBytes, Nat.mod_one]
  | succ len ih =>
    have low : (UInt8.ofNat (n % 256)).toNat = n % 256 := by
      simp [UInt8.toNat_ofNat']
    rw [bigBytes, bigEndian_concat, ih, low, Nat.mul_succ, Nat.add_comm (8 * len), Nat.pow_add,
      Nat.mod_mul]

/-- The big-endian value of a string is the little-endian value of the reversed string. -/
theorem bigEndian_eq_reverse (bytes : Bytes) : bigEndian bytes = littleEndian bytes.reverse := by
  -- The last byte becomes the head.
  induction bytes using List.reverseRecOn with
  | nil => rfl
  | append_singleton bytes byte ih => simp [bigEndian_concat, littleEndian, ih]

/-- A big-endian encoding is the reversed little-endian one. -/
theorem bigBytes_eq_reverse (len n : Nat) : bigBytes len n = (littleBytes len n).reverse := by
  -- Each step puts the same byte at opposite ends.
  induction len generalizing n with
  | zero => rfl
  | succ len ih => simp [bigBytes, littleBytes, ih]

/-- The big-endian bytes of a natural that fits determine it. -/
theorem bigBytes_injective {len n n' : Nat} (fits : n < 2 ^ (8 * len)) (fits' : n' < 2 ^ (8 * len))
    (same : bigBytes len n = bigBytes len n') : n = n' := by
  rw [bigBytes_eq_reverse, bigBytes_eq_reverse, List.reverse_inj] at same
  exact littleBytes_injective fits fits' same

/-- A byte string of length `len` denotes a big-endian natural below `256 ^ len`. -/
theorem bigEndian_lt (bytes : Bytes) : bigEndian bytes < 2 ^ (8 * bytes.length) := by
  -- Reversal keeps the length.
  have bound := littleEndian_lt bytes.reverse
  rwa [List.length_reverse, ← bigEndian_eq_reverse] at bound

/-- Encoding the big-endian value of a byte string in its own width gives the string back. -/
theorem bigBytes_bigEndian (bytes : Bytes) : bigBytes bytes.length (bigEndian bytes) = bytes := by
  -- Reversal turns this into the little-endian law.
  have law := littleBytes_littleEndian bytes.reverse
  rw [List.length_reverse] at law
  rw [bigBytes_eq_reverse, bigEndian_eq_reverse, law, List.reverse_reverse]

/-- Zero bytes encode zero. -/
@[simp] theorem littleEndian_zeros (len : Nat) : littleEndian (List.replicate len 0) = 0 := by
  -- Every byte contributes nothing.
  induction len with
  | zero => rfl
  | succ len ih => simp [List.replicate_succ, littleEndian, ih]

/-- A one byte above a string, and zeros above it, add its weight. -/
theorem littleEndian_one_above (bytes : Bytes) (zeros : Nat) :
    littleEndian (bytes ++ 1 :: List.replicate zeros 0) =
      littleEndian bytes + 2 ^ (8 * bytes.length) := by
  rw [littleEndian_append, littleEndian, littleEndian_zeros, Nat.mul_zero, Nat.add_zero]
  simp

/-- Bytes within a string are its value, cut to their bits. -/
theorem littleEndian_slice (bytes : Bytes) (i : Nat) {n : Nat} (within : i + n ≤ bytes.length) :
    littleEndian ((bytes.drop i).take n) = littleEndian bytes / 2 ^ (8 * i) % 2 ^ (8 * n) := by
  have first : (bytes.take i).length = i := by rw [List.length_take]; omega
  have second : ((bytes.drop i).take n).length = n := by
    rw [List.length_take, List.length_drop]
    omega
  have low := littleEndian_lt (bytes.take i)
  have middle := littleEndian_lt ((bytes.drop i).take n)
  rw [first] at low
  rw [second] at middle
  -- The string is what lies below the bytes, the bytes, and what lies above them.
  have split : littleEndian bytes = littleEndian (bytes.take i) + 2 ^ (8 * i) *
      (littleEndian ((bytes.drop i).take n) + 2 ^ (8 * n) * littleEndian ((bytes.drop i).drop n)) := by
    conv_lhs => rw [← List.take_append_drop i bytes, littleEndian_append, first,
      ← List.take_append_drop n (bytes.drop i), littleEndian_append, second]
  rw [split, Nat.add_mul_div_left _ _ (by positivity), Nat.div_eq_of_lt low, Nat.zero_add,
    Nat.add_mul_mod_self_left, Nat.mod_eq_of_lt middle]

/-- The bits of a little-endian value are those of its bytes, the first byte lowest. -/
theorem littleEndian_testBit (bytes : Bytes) (i : Nat) :
    (littleEndian bytes).testBit i = (bytes.getD (i / 8) 0).toNat.testBit (i % 8) := by
  -- Induction on the string: the first byte holds the eight lowest bits.
  induction bytes generalizing i with
  | nil => simp [littleEndian]
  | cons byte rest ih =>
    rw [littleEndian, Nat.add_comm, Nat.testBit_two_pow_mul_add _ byte.toNat_lt]
    by_cases low : i < 8
    · rw [if_pos low, Nat.div_eq_of_lt low, Nat.mod_eq_of_lt low, List.getD_cons_zero]
    · have position : i / 8 = (i - 8) / 8 + 1 := by omega
      have offset : (i - 8) % 8 = i % 8 := by omega
      rw [if_neg low, ih, position, List.getD_cons_succ, offset]

/-- The bits of a big-endian value are those of its bytes, the last byte lowest. -/
theorem bigEndian_testBit {bytes : Bytes} {i : Nat} (inside : i < 8 * bytes.length) :
    (bigEndian bytes).testBit i =
      (bytes.getD (bytes.length - 1 - i / 8) 0).toNat.testBit (i % 8) := by
  have position : i / 8 < bytes.length := by omega
  rw [bigEndian_eq_reverse, littleEndian_testBit, List.getD_eq_getElem?_getD, List.getElem?_reverse position,
    ← List.getD_eq_getElem?_getD]

/-- One bit more doubles the number that the bits so far make, and adds the bit. -/
theorem bits_succ (n i : Nat) : n / 2 ^ i = 2 * (n / 2 ^ (i + 1)) + n / 2 ^ i % 2 := by
  rw [pow_succ, ← Nat.div_div_eq_div_mul]
  omega

end Endianness
