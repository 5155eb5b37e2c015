import HaclStar.Spec.Chacha20Poly1305

/-! The field of 2^128 elements, and the polynomial hash over it. -/

namespace HaclStar.Spec.GF128

open Endianness Chacha20Poly1305

/-- A polynomial of degree below 128: its coefficients are the bits from the left. -/
abbrev Elem := BitVec 128

/-- The irreducible polynomial without its leading term. -/
def irr : Elem := 0xe1000000000000000000000000000000

def zero : Elem := 0

def fadd (a b : Elem) : Elem := a ^^^ b

/-- Multiply by the indeterminate, and reduce. -/
def shiftReduce (a : Elem) : Elem :=
  if a.getMsbD 127 then fadd (a >>> 1) irr else a >>> 1

/-- Add one element to another when a bit of the third is set. -/
def condFadd (a b c : Elem) (n : Nat) : Elem := if b.getMsbD n then fadd c a else c

/-- The sum over the last `rest` bits of `b`, starting with `a` at the first of them. -/
def fmulLoop (a b : Elem) : Nat → Elem
  | 0 => zero
  | rest + 1 => condFadd a b (fmulLoop (shiftReduce a) b rest) (127 - rest)

def fmul (a b : Elem) : Elem := fmulLoop a b 128

/-- The element of a block, whose missing bytes are zeros. -/
def encode (w : Bytes) : Elem := BitVec.ofNat 128 (2 ^ (128 - 8 * w.length) * bigEndian w)

def decode (e : Elem) : Bytes := bigBytes 16 e.toNat

/-- The polynomial of a text, whose last block comes first. -/
def poly : List Bytes → Elem → Elem
  | [], _ => zero
  | w :: txt, r => fmul (fadd (encode w) (poly txt r)) r

/-- The tag of an accumulator and a mask. -/
def finish (a : Elem) (s : Bytes) : Bytes := decode (fadd a (encode s))

def mac (txt : List Bytes) (r : Elem) (s : Bytes) : Bytes := finish (poly txt r) s

/-- The blocks of a message, the last one first. -/
def encodeBytes (txt : Bytes) : List Bytes := Poly1305.encodeBytes txt

/-- An element times a power of another. -/
def fmulPow (x r : Elem) (k : Nat) : Elem := (fun y => fmul y r)^[k] x

/-- The sum over the blocks of a text, the last of them times the power `k` of `r`, the one before it
times the next power, and so on. -/
def blockSum (r : Elem) : Nat → List Bytes → Elem
  | _, [] => zero
  | k, w :: txt => fadd (fmulPow (encode w) r k) (blockSum r (k + 1) txt)

/-- What is hashed: the padded additional data, the padded ciphertext, and their lengths in bits. -/
def hashed (aad cipher : Bytes) : Bytes :=
  pad16 aad ++ (pad16 cipher ++ (bigBytes 8 (8 * aad.length) ++ bigBytes 8 (8 * cipher.length)))

/-- The hash of additional data and a ciphertext: the sum over the blocks of what is hashed. -/
def ghash (r : Elem) (aad cipher : Bytes) : Elem := blockSum r 1 (encodeBytes (hashed aad cipher))

@[simp] theorem fadd_zero (a : Elem) : fadd a zero = a := BitVec.xor_zero

@[simp] theorem zero_fadd (a : Elem) : fadd zero a = a := BitVec.zero_xor

@[simp] theorem fadd_self (a : Elem) : fadd a a = zero := BitVec.xor_self

theorem fadd_comm (a b : Elem) : fadd a b = fadd b a := BitVec.xor_comm a b

theorem fadd_assoc (a b c : Elem) : fadd (fadd a b) c = fadd a (fadd b c) := BitVec.xor_assoc a b c

/-- Elements whose sum is zero are equal. -/
theorem fadd_eq_zero {a b : Elem} : fadd a b = zero ↔ a = b := BitVec.xor_eq_zero_iff

/-- Multiplying by the indeterminate is additive. -/
theorem shiftReduce_fadd (a b : Elem) :
    shiftReduce (fadd a b) = fadd (shiftReduce a) (shiftReduce b) := by
  have shifted : (fadd a b) >>> 1 = fadd (a >>> 1) (b >>> 1) := BitVec.ushiftRight_xor_distrib a b 1
  have bit : (fadd a b).getMsbD 127 = (a.getMsbD 127 ^^ b.getMsbD 127) := BitVec.getMsbD_xor
  rw [shiftReduce, shiftReduce, shiftReduce, shifted, bit]
  -- The reduction happens on one side, on both or on none.
  cases a.getMsbD 127 with
  | false =>
    cases b.getMsbD 127 with
    | false => rfl
    | true => exact fadd_assoc _ _ _
  | true =>
    cases b.getMsbD 127 with
    | false =>
      show fadd (fadd (a >>> 1) (b >>> 1)) irr = fadd (fadd (a >>> 1) irr) (b >>> 1)
      rw [fadd_assoc, fadd_comm (b >>> 1), fadd_assoc]
    | true =>
      show fadd (a >>> 1) (b >>> 1) = fadd (fadd (a >>> 1) irr) (fadd (b >>> 1) irr)
      rw [fadd_comm (b >>> 1) irr, fadd_assoc, ← fadd_assoc irr, fadd_self, zero_fadd]

/-- Multiplication is additive in its first argument. -/
theorem fmulLoop_fadd (a b c : Elem) (rest : Nat) :
    fmulLoop (fadd a b) c rest = fadd (fmulLoop a c rest) (fmulLoop b c rest) := by
  -- Induction on the number of bits: each adds the same multiples on both sides.
  induction rest generalizing a b with
  | zero => exact (fadd_self zero).symm
  | succ rest ih =>
    rw [fmulLoop, fmulLoop, fmulLoop, shiftReduce_fadd, ih]
    simp only [condFadd]
    split
    · simp only [fadd]
      ac_rfl
    · rfl

theorem fmul_fadd (a b c : Elem) : fmul (fadd a b) c = fadd (fmul a c) (fmul b c) :=
  fmulLoop_fadd a b c 128

/-- The multiples of zero. -/
@[simp] theorem zero_fmul (c : Elem) : fmul zero c = zero := by
  have same := fmul_fadd zero zero c
  rwa [fadd_self, fadd_self] at same

theorem fmulPow_succ (x r : Elem) (k : Nat) : fmulPow x r (k + 1) = fmulPow (fmul x r) r k := rfl

theorem fmulPow_fadd (x y r : Elem) (k : Nat) :
    fmulPow (fadd x y) r k = fadd (fmulPow x r k) (fmulPow y r k) := by
  -- Induction on the exponent.
  induction k generalizing x y with
  | zero => rfl
  | succ k ih => rw [fmulPow_succ, fmul_fadd, ih, ← fmulPow_succ, ← fmulPow_succ]

theorem fmulPow_zero (r : Elem) (k : Nat) : fmulPow zero r k = zero := by
  -- Induction on the exponent.
  induction k with
  | zero => rfl
  | succ k ih => rw [fmulPow_succ, zero_fmul, ih]

/-- The polynomial, evaluated step by step, is the sum over the blocks. -/
theorem fmulPow_poly (txt : List Bytes) (r : Elem) (k : Nat) :
    fmulPow (poly txt r) r k = blockSum r (k + 1) txt := by
  -- Induction on the text: each block is multiplied once more than those behind it.
  induction txt generalizing k with
  | nil => exact fmulPow_zero r k
  | cons w txt ih => rw [poly, ← fmulPow_succ, fmulPow_fadd, ih, blockSum]

theorem poly_eq_blockSum (txt : List Bytes) (r : Elem) : poly txt r = blockSum r 1 txt :=
  fmulPow_poly txt r 0

@[simp] theorem decode_length (e : Elem) : (decode e).length = 16 := bigBytes_length 16 _

@[simp] theorem finish_length (a : Elem) (s : Bytes) : (finish a s).length = 16 := decode_length _

/-- A whole block is the big-endian number of its bytes. -/
theorem encode_block {w : Bytes} (size : w.length = 16) : encode w = BitVec.ofNat 128 (bigEndian w) := by
  rw [encode, size]
  simp

/-- An element is read back from the block it is written to. -/
@[simp] theorem encode_decode (e : Elem) : encode (decode e) = e := by
  rw [encode_block (decode_length e), decode, bigEndian_bigBytes,
    Nat.mod_eq_of_lt (show e.toNat < 2 ^ (8 * 16) from e.isLt), BitVec.ofNat_toNat, BitVec.setWidth_eq]

/-- A whole block is written back as it was read. -/
theorem decode_encode {w : Bytes} (size : w.length = 16) : decode (encode w) = w := by
  have bound := bigEndian_lt w
  have written := bigBytes_bigEndian w
  rw [size] at bound written
  rw [encode_block size, decode, BitVec.toNat_ofNat, Nat.mod_eq_of_lt bound, written]

/-- Zeros behind a block do not change its element. -/
theorem encode_pad (w : Bytes) (n : Nat) (short : w.length + n ≤ 16) :
    encode (w ++ List.replicate n 0) = encode w := by
  have value : bigEndian (w ++ List.replicate n 0) = 2 ^ (8 * n) * bigEndian w := by
    rw [bigEndian_eq_reverse, List.reverse_append, List.reverse_replicate, littleEndian_append,
      littleEndian_zeros, Nat.zero_add, List.length_replicate, ← bigEndian_eq_reverse]
  rw [encode, encode, value, List.length_append, List.length_replicate, ← Nat.mul_assoc, ← Nat.pow_add]
  congr 4
  omega

/-- Evaluate the polynomial of a text on top of what is already absorbed. -/
def polyFrom (acc : Elem) (txt : List Bytes) (r : Elem) : Elem :=
  txt.foldr (fun w a => fmul (fadd (encode w) a) r) acc

theorem poly_append (txt rest : List Bytes) (r : Elem) :
    poly (txt ++ rest) r = polyFrom (poly rest r) txt r := by
  -- Induction on the text in front, which is absorbed last.
  induction txt with
  | nil => rfl
  | cons w txt ih => rw [List.cons_append, poly, ih, polyFrom, polyFrom, List.foldr_cons]

theorem poly_eq_polyFrom (txt : List Bytes) (r : Elem) : poly txt r = polyFrom zero txt r := by
  have result := poly_append txt [] r
  rwa [List.append_nil] at result

@[simp] theorem polyFrom_nil (acc r : Elem) : polyFrom acc [] r = acc := rfl

@[simp] theorem polyFrom_cons (acc : Elem) (w : Bytes) (txt : List Bytes) (r : Elem) :
    polyFrom acc (w :: txt) r = fmul (fadd (encode w) (polyFrom acc txt r)) r := by
  rw [polyFrom, polyFrom, List.foldr_cons]

/-- The last block of a text is absorbed first. -/
theorem polyFrom_concat (acc : Elem) (txt : List Bytes) (w : Bytes) (r : Elem) :
    polyFrom acc (txt ++ [w]) r = polyFrom (fmul (fadd (encode w) acc) r) txt r := by
  rw [polyFrom, List.foldr_append]
  rfl

/-- The zeros behind the last block add nothing. -/
theorem polyFrom_pad16 (acc : Elem) (txt : Bytes) (r : Elem) :
    polyFrom acc (encodeBytes (pad16 txt)) r = polyFrom acc (encodeBytes txt) r := by
  -- Only what follows the whole blocks is padded.
  have whole : (txt.take (16 * (txt.length / 16))).length % 16 = 0 := by
    rw [List.length_take]
    omega
  have short : (txt.drop (16 * (txt.length / 16))).length < 16 := by
    rw [List.length_drop]
    omega
  conv_lhs => rw [← List.take_append_drop (16 * (txt.length / 16)) txt, pad16_append whole]
  conv_rhs => rw [← List.take_append_drop (16 * (txt.length / 16)) txt]
  rw [encodeBytes, encodeBytes, Poly1305.encodeBytes_append whole, Poly1305.encodeBytes_append whole]
  generalize txt.drop (16 * (txt.length / 16)) = rest at short
  by_cases none : rest = []
  · rw [none, pad16_nil]
  · -- The rest is one block, with zeros behind it or without.
    have positive : rest.length ≠ 0 := fun zero => none (List.eq_nil_of_length_eq_zero zero)
    have padded : pad16 rest = rest ++ List.replicate (16 - rest.length) 0 := by
      simp only [pad16, Nat.mod_eq_of_lt short, if_neg positive]
    have size : (pad16 rest).length = 16 := by
      rw [padded, List.length_append, List.length_replicate]
      omega
    have some : pad16 rest ≠ [] := fun empty => by
      rw [empty] at size
      exact absurd size (by decide)
    rw [Poly1305.encodeBytes_short some size.le, Poly1305.encodeBytes_short none short.le, List.singleton_append,
      List.singleton_append, polyFrom_cons, polyFrom_cons, padded, encode_pad _ _ (by omega)]

/-- The hash absorbs the additional data, then the ciphertext and then the block of the lengths. -/
theorem ghash_eq (r : Elem) (aad cipher : Bytes) :
    ghash r aad cipher =
      fmul (fadd (encode (bigBytes 8 (8 * aad.length) ++ bigBytes 8 (8 * cipher.length)))
        (polyFrom (polyFrom zero (encodeBytes aad) r) (encodeBytes cipher) r)) r := by
  have size : (bigBytes 8 (8 * aad.length) ++ bigBytes 8 (8 * cipher.length)).length = 16 := by simp
  have some : bigBytes 8 (8 * aad.length) ++ bigBytes 8 (8 * cipher.length) ≠ [] := fun empty => by
    rw [empty] at size
    exact absurd size (by decide)
  have last := polyFrom_pad16 (polyFrom zero (encodeBytes aad) r) cipher r
  have first := polyFrom_pad16 zero aad r
  rw [ghash, ← poly_eq_blockSum, hashed]
  simp only [encodeBytes] at first last ⊢
  rw [Poly1305.encodeBytes_append (pad16_length aad), Poly1305.encodeBytes_append (pad16_length cipher),
    Poly1305.encodeBytes_short some size.le, List.append_assoc, List.singleton_append, poly, poly_append,
    poly_eq_polyFrom, first, last]

end HaclStar.Spec.GF128
