import HaclStar.Lib.Endianness

/-! The Poly1305 specification. -/

namespace HaclStar.Spec.Poly1305

open Endianness

def prime : Nat := 2 ^ 130 - 5

def fadd (e1 e2 : Nat) : Nat := (e1 + e2) % prime

def fmul (e1 e2 : Nat) : Nat := (e1 * e2) % prime

/-- The field element of a block: its bytes with a one bit above them. -/
def encode (w : Bytes) : Nat := fadd (2 ^ (8 * w.length)) (littleEndian w)

/-- The polynomial of a text, whose last block comes first. -/
def poly : List Bytes → Nat → Nat
  | [], _ => 0
  | w :: txt, r => fmul (fadd (encode w) (poly txt r)) r

/-- The clamped key. -/
def encodeR (rb : Bytes) : Nat := littleEndian rb &&& 0x0ffffffc0ffffffc0ffffffc0fffffff

/-- The tag of an accumulator and a mask. -/
def finish (a : Nat) (s : Bytes) : Bytes := littleBytes 16 ((a + littleEndian s) % 2 ^ 128)

/-- The blocks of a message, the last one first. -/
def encodeBytes (txt : Bytes) : List Bytes :=
  if txt.length = 0 then []
  else
    let w := txt.take (min txt.length 16)
    let rest := txt.drop (min txt.length 16)
    encodeBytes rest ++ [w]
termination_by txt.length
decreasing_by rw [List.length_drop]; omega

/-- The tag of a message under a one-time key. -/
def poly1305 (msg k : Bytes) : Bytes :=
  let text := encodeBytes msg
  let r := encodeR (k.take 16)
  let s := (k.drop 16).take 16
  finish (poly text r) s

@[simp] theorem finish_length (a : Nat) (s : Bytes) : (finish a s).length = 16 :=
  littleBytes_length 16 _

@[simp] theorem poly1305_length (msg k : Bytes) : (poly1305 msg k).length = 16 := finish_length _ _

/-- The clamped key has at most 128 bits. -/
theorem encodeR_lt (rb : Bytes) : encodeR rb < 2 ^ 128 :=
  Nat.lt_of_le_of_lt Nat.and_le_right (by decide)

@[simp] theorem encodeBytes_nil : encodeBytes [] = [] := by
  rw [encodeBytes]
  rfl

/-- A message of at most one block is that block. -/
theorem encodeBytes_short {txt : Bytes} (some : txt ≠ []) (short : txt.length ≤ 16) :
    encodeBytes txt = [txt] := by
  have positive : txt.length ≠ 0 := fun none => some (List.eq_nil_of_length_eq_zero none)
  rw [encodeBytes, if_neg positive]
  simp only [Nat.min_eq_left short, List.drop_length, List.take_length, encodeBytes_nil,
    List.nil_append]

/-- The first block of a longer message comes last. -/
theorem encodeBytes_block {txt : Bytes} (long : 16 ≤ txt.length) :
    encodeBytes txt = encodeBytes (txt.drop 16) ++ [txt.take 16] := by
  rw [encodeBytes, if_neg (by omega)]
  simp only [Nat.min_eq_right long]

/-- Blocks of a message that follow whole blocks come before them. -/
theorem encodeBytes_append {first : Bytes} (whole : first.length % 16 = 0) (second : Bytes) :
    encodeBytes (first ++ second) = encodeBytes second ++ encodeBytes first := by
  -- Induction on the number of whole blocks: the first block of both sides comes last.
  obtain ⟨n, size⟩ : ∃ n, first.length = 16 * n := ⟨first.length / 16, by omega⟩
  induction n generalizing first with
  | zero => simp [List.eq_nil_of_length_eq_zero (show first.length = 0 by omega)]
  | succ n ih =>
    have more : 16 ≤ (first ++ second).length := by rw [List.length_append]; omega
    have rest := @ih (first.drop 16) (by rw [List.length_drop]; omega)
      (by rw [List.length_drop]; omega)
    rw [encodeBytes_block more, encodeBytes_block (show 16 ≤ first.length by omega),
      List.take_append_of_le_length (by omega), List.drop_append_of_le_length (by omega), rest,
      List.append_assoc]

/-- A block after whole blocks becomes the head of the text. -/
theorem encodeBytes_concat {first : Bytes} (whole : first.length % 16 = 0) {w : Bytes}
    (some : w ≠ []) (short : w.length ≤ 16) : encodeBytes (first ++ w) = w :: encodeBytes first := by
  rw [encodeBytes_append whole, encodeBytes_short some short, List.singleton_append]

/-- The blocks put together again, the last one first, are the message. -/
theorem encodeBytes_flatten (txt : Bytes) : (encodeBytes txt).reverse.flatten = txt := by
  fun_induction encodeBytes txt with
  | case1 txt empty => simp [List.eq_nil_of_length_eq_zero empty]
  | case2 txt some w rest ih => simp [ih, w, rest]

/-- Every block of a message of whole blocks has sixteen bytes. -/
theorem encodeBytes_whole {txt : Bytes} (whole : txt.length % 16 = 0) :
    ∀ w ∈ encodeBytes txt, w.length = 16 := by
  fun_induction encodeBytes txt with
  | case1 txt empty => simp
  | case2 txt some w rest ih =>
    intro v inside
    rcases List.mem_append.mp inside with later | first
    · exact ih (by rw [List.length_drop]; omega) v later
    · rw [List.mem_singleton.mp first, List.length_take]
      omega

/-- The field element of a whole block is the block with one more bit. -/
theorem encode_whole {w : Bytes} (size : w.length = 16) : encode w = littleEndian w + 2 ^ 128 := by
  have bound := littleEndian_lt w
  rw [size] at bound
  rw [encode, fadd, size, prime, Nat.mod_eq_of_lt (by omega), Nat.add_comm]

/-- Blocks of one length are determined by their field elements. -/
theorem encode_injective {w w' : Bytes} (size : w.length = 16) (size' : w'.length = 16)
    (same : encode w = encode w') : w = w' := by
  rw [encode_whole size, encode_whole size'] at same
  exact littleEndian_injective (size.trans size'.symm) (Nat.add_right_cancel same)

/-- The tag of the empty message is the second half of the key. -/
theorem poly1305_nil {k : Bytes} (size : k.length = 32) : poly1305 [] k = k.drop 16 := by
  have half : (k.drop 16).length = 16 := by rw [List.length_drop]; omega
  have bound := littleEndian_lt (k.drop 16)
  rw [half] at bound
  simp only [poly1305, encodeBytes_nil, poly, finish, Nat.zero_add]
  rw [List.take_of_length_le half.le, Nat.mod_eq_of_lt bound]
  have restored := littleBytes_littleEndian (k.drop 16)
  rwa [half] at restored

end HaclStar.Spec.Poly1305
