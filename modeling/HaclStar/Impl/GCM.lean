import HaclStar.Impl.Policies
import HaclStar.Lib.Blocks
import HaclStar.Lib.Memory
import HaclStar.Spec.GF128

/-! Counter mode with the polynomial hash on byte strings. -/

namespace HaclStar.Impl.GCM

open Endianness Memory Blocks Policies Spec.GF128 Spec.Chacha20Poly1305

/-- Add the bytes before position `dep`, from the last one on. -/
def gf128AddLoop (a b : Bytes) : Nat → Bytes
  | 0 => a
  | i + 1 => gf128AddLoop (a.set i (a.getD i 0 ^^^ b.getD i 0)) b i

def gf128Add (a b : Bytes) : Bytes := gf128AddLoop a b 16

/-- Shift the bytes up to position `dep` by one bit, from the last one on. -/
def gf128ShiftRightLoop (a : Bytes) : Nat → Bytes
  | 0 => a.set 0 (a.getD 0 0 >>> 1)
  | i + 1 =>
    let hd := a.getD i 0
    let tl := a.getD (i + 1) 0
    gf128ShiftRightLoop (a.set (i + 1) ((hd <<< 7) + (tl >>> 1))) i

def gf128ShiftRight (a : Bytes) : Bytes := gf128ShiftRightLoop a 15

/-- All ones when a bit is set, counted from the left, and zero otherwise. -/
def ithBitMask (num : UInt8) (i : Nat) : UInt8 :=
  let proj : UInt8 := 128 >>> UInt8.ofNat i
  let res := num &&& proj
  eqMask res proj

/-- Mask the bytes before position `dep`, from the last one on. -/
def applyMaskLoop (a m : Bytes) (msk : UInt8) : Nat → Bytes
  | 0 => m
  | i + 1 => applyMaskLoop a (m.set i (a.getD i 0 &&& msk)) msk i

def applyMask (a m : Bytes) (msk : UInt8) : Bytes := applyMaskLoop a m msk 16

def rMul : UInt8 := 225

/-- The loop when `rest` bits of `b` are left: `r` is the sum so far, and `m` the other half of the local
memory. -/
def gf128MulLoop (add : Bytes → Bytes → Bytes) (a b r m : Bytes) : Nat → Bytes
  | 0 => r
  | rest + 1 =>
    let dep := 127 - rest
    let num := b.getD (dep / 8) 0
    let msk := ithBitMask num (dep % 8)
    let m := applyMask a m msk
    let r := add r m
    let num := a.getD 15 0
    let msk := ithBitMask num 7
    let a := gf128ShiftRight a
    let num := a.getD 0 0
    let a := a.set 0 (num ^^^ (msk &&& rMul))
    gf128MulLoop add a b r m rest

def gf128Mul (a b : Bytes) : Bytes :=
  gf128MulLoop gf128Add a b (List.replicate 16 0) (List.replicate 16 0) 128

/-- Write both lengths, in bits, to a block of zeros. -/
def mkLenInfo (lenInfo : Bytes) (len1 len2 : UInt32) : Bytes :=
  let last := len1.toUInt8 <<< 3
  let lenInfo := lenInfo.set 7 last
  let len1 := len1 >>> 5
  let lenInfo := lenInfo.set 6 len1.toUInt8
  let len1 := len1 >>> 8
  let lenInfo := lenInfo.set 5 len1.toUInt8
  let len1 := len1 >>> 8
  let lenInfo := lenInfo.set 4 len1.toUInt8
  let len1 := len1 >>> 8
  let lenInfo := lenInfo.set 3 len1.toUInt8
  let last := len2.toUInt8 <<< 3
  let lenInfo := lenInfo.set 15 last
  let len2 := len2 >>> 5
  let lenInfo := lenInfo.set 14 len2.toUInt8
  let len2 := len2 >>> 8
  let lenInfo := lenInfo.set 13 len2.toUInt8
  let len2 := len2 >>> 8
  let lenInfo := lenInfo.set 12 len2.toUInt8
  let len2 := len2 >>> 8
  lenInfo.set 11 len2.toUInt8

/-- Absorb what is left of a string from position `dep` on, with zeros behind it. -/
def ghashLoop_ (tag authKey str : Bytes) (len dep : Nat) : Bytes :=
  let last := splice (List.replicate 16 0) 0 ((str.drop dep).take (len - dep))
  let tag := gf128Add tag last
  gf128Mul tag authKey

/-- Absorb a string from position `dep` on. -/
def ghashLoop (tag authKey str : Bytes) (len dep : Nat) : Bytes :=
  -- Appending zeros if the last block is not a complete one.
  if 16 ≥ len - dep then ghashLoop_ tag authKey str len dep
  else
    let next := dep + 16
    let si := (str.drop dep).take 16
    let tag := gf128Add tag si
    let tag := gf128Mul tag authKey
    ghashLoop tag authKey str len next
termination_by len - dep

/-- The hash of additional data and a ciphertext. -/
def ghash (authKey ad : Bytes) (adlen : UInt32) (ciphertext : Bytes) (len : UInt32) : Bytes :=
  let lenInfo := List.replicate 16 0
  let lenInfo := mkLenInfo lenInfo adlen len
  let tag := List.replicate 16 0
  let tag := ghashLoop tag authKey ad adlen.toNat 0
  let tag := ghashLoop tag authKey ciphertext len.toNat 0
  let tag := gf128Add tag lenInfo
  gf128Mul tag authKey

/-- Replace the last four bytes of a counter block. -/
def updateCounter (counter : Bytes) (num : UInt32) : Bytes :=
  let counter := counter.set 15 num.toUInt8
  let num := num >>> 8
  let counter := counter.set 14 num.toUInt8
  let num := num >>> 8
  let counter := counter.set 13 num.toUInt8
  let num := num >>> 8
  counter.set 12 num.toUInt8

/-- A block cipher: it takes a key and an input block. -/
abbrev CipherAlg := Bytes → Bytes → Bytes

/-- The tag: the hash of the additional data and the ciphertext, plus the block of counter `cnt`. -/
def authBody (alg : CipherAlg) (ciphertext key nonce : Bytes) (cnt : UInt32) (ad : Bytes)
    (adlen len : UInt32) : Bytes :=
  let tag := List.replicate 16 0
  let authKey := alg key tag
  let tag := ghash authKey ad adlen ciphertext len
  let counter := splice (List.replicate 16 0) 0 (nonce.take 12)
  let counter := updateCounter counter cnt
  let c0 := alg key counter
  gf128Add tag c0

def authenticate (alg : CipherAlg) (ciphertext key nonce : Bytes) (cnt : UInt32) (ad : Bytes)
    (adlen len : UInt32) : Bytes := authBody alg ciphertext key nonce cnt ad adlen len

/-- Encrypt a message from position `dep` on: `counter` and `last` are parts of the local memory. -/
def encryptLoop (alg : CipherAlg) (ciphertext key : Bytes) (cnt : UInt32) (plaintext : Bytes) (len : Nat)
    (counter last : Bytes) (dep : Nat) : Bytes :=
  -- Appending zeros if the last block is not a complete one.
  if 16 ≥ len - dep then
    let counter := updateCounter counter cnt
    let last := splice last 0 ((plaintext.drop dep).take (len - dep))
    let ci := alg key counter
    let ci := gf128Add ci last
    splice ciphertext dep (ci.take (len - dep))
  else
    let pi := (plaintext.drop dep).take 16
    let counter := updateCounter counter cnt
    let ci := alg key counter
    let ci := gf128Add ci pi
    let ciphertext := splice ciphertext dep ci
    encryptLoop alg ciphertext key (cnt + 1) plaintext len counter last (dep + 16)
termination_by len - dep

/-- The ciphertext and the tag of a message, when the tag takes the block of counter `cnt`. -/
def encryptBody (alg : CipherAlg) (ciphertext key nonce : Bytes) (cnt : UInt32) (ad : Bytes)
    (adlen : UInt32) (plaintext : Bytes) (len : UInt32) : Bytes × Bytes :=
  let counter := splice (List.replicate 16 0) 0 (nonce.take 12)
  let last := List.replicate 16 0
  let ciphertext := encryptLoop alg ciphertext key (cnt + 1) plaintext len.toNat counter last 0
  let tag := authenticate alg ciphertext key nonce cnt ad adlen len
  (ciphertext, tag)

/-- The ciphertext and the tag of a message: `ciphertext` is what the output buffer held. -/
def encrypt (alg : CipherAlg) (ciphertext key iv ad : Bytes) (adlen : UInt32) (plaintext : Bytes)
    (len : UInt32) : Bytes × Bytes := encryptBody alg ciphertext key iv 1 ad adlen plaintext len

variable {a b m r tag authKey str : Bytes}

/-- The bits of a block, from the left. -/
theorem encode_getMsbD (size : a.length = 16) {n : Nat} (inside : n < 128) :
    (encode a).getMsbD n = (a.getD (n / 8) 0).toNat.testBit (7 - n % 8) := by
  have bound := bigEndian_lt a
  rw [size] at bound
  have position : 15 - (127 - n) / 8 = n / 8 := by omega
  have offset : (127 - n) % 8 = 7 - n % 8 := by omega
  rw [encode_block size, BitVec.getMsbD_eq_getLsbD, decide_eq_true inside, Bool.true_and,
    BitVec.getLsbD_ofNat, decide_eq_true (show 128 - 1 - n < 128 by omega), Bool.true_and,
    bigEndian_testBit (by omega), size]
  show (a.getD (15 - (127 - n) / 8) 0).toNat.testBit ((127 - n) % 8) = _
  rw [position, offset]

/-- A position before or at the one that is set. -/
theorem getD_set (i j : Nat) (x : UInt8) (inside : i < a.length) :
    (a.set i x).getD j 0 = if i = j then x else a.getD j 0 := by
  rw [List.getD_eq_getElem?_getD, List.getElem?_set, List.getD_eq_getElem?_getD]
  by_cases here : i = j
  · simp [here ▸ inside, here]
  · simp [here]

@[simp] theorem gf128AddLoop_length (a b : Bytes) (dep : Nat) : (gf128AddLoop a b dep).length = a.length := by
  induction dep generalizing a with
  | zero => rfl
  | succ i ih => rw [gf128AddLoop, ih, List.length_set]

/-- The bytes before position `dep` are added. -/
theorem gf128AddLoop_getD (a b : Bytes) {dep : Nat} (inside : dep ≤ a.length) (j : Nat) :
    (gf128AddLoop a b dep).getD j 0 = if j < dep then a.getD j 0 ^^^ b.getD j 0 else a.getD j 0 := by
  -- Induction on the number of bytes: the last one is added first.
  induction dep generalizing a with
  | zero => rfl
  | succ i ih =>
    rw [gf128AddLoop, ih _ (by rw [List.length_set]; omega), getD_set _ _ _ (by omega)]
    by_cases here : i = j
    · subst here
      simp
    · rw [if_neg here]
      by_cases before : j < i
      · rw [if_pos before, if_pos (by omega)]
      · rw [if_neg before, if_neg (by omega)]

@[simp] theorem gf128Add_length (a b : Bytes) : (gf128Add a b).length = a.length :=
  gf128AddLoop_length a b 16

/-- Adding bytes adds the elements. -/
theorem encode_xor {c : Bytes} (size : a.length = 16) (size' : b.length = 16) (size'' : c.length = 16)
    (sum : ∀ j < 16, c.getD j 0 = a.getD j 0 ^^^ b.getD j 0) :
    encode c = fadd (encode a) (encode b) := by
  -- The elements agree bit by bit.
  apply BitVec.eq_of_getMsbD_eq
  intro n inside
  rw [fadd, BitVec.getMsbD_xor, encode_getMsbD size inside, encode_getMsbD size' inside,
    encode_getMsbD size'' inside, sum _ (by omega), UInt8.toNat_xor, Nat.testBit_xor]

theorem encode_gf128Add (size : a.length = 16) (size' : b.length = 16) :
    encode (gf128Add a b) = fadd (encode a) (encode b) := by
  apply encode_xor size size' (by rw [gf128Add_length, size])
  intro j inside
  rw [gf128Add, gf128AddLoop_getD a b size.ge, if_pos inside]

@[simp] theorem gf128ShiftRightLoop_length (a : Bytes) (dep : Nat) :
    (gf128ShiftRightLoop a dep).length = a.length := by
  induction dep generalizing a with
  | zero => rw [gf128ShiftRightLoop, List.length_set]
  | succ i ih => simp only [gf128ShiftRightLoop, ih, List.length_set]

/-- Every byte up to position `dep` takes the lowest bit of the byte before it. -/
theorem gf128ShiftRightLoop_getD (a : Bytes) {dep : Nat} (inside : dep < a.length) (j : Nat) :
    (gf128ShiftRightLoop a dep).getD j 0 =
      if j = 0 then a.getD 0 0 >>> 1
      else if j ≤ dep then (a.getD (j - 1) 0 <<< 7) + (a.getD j 0 >>> 1) else a.getD j 0 := by
  -- Induction on the position: the last byte is shifted first.
  induction dep generalizing a with
  | zero =>
    rw [gf128ShiftRightLoop, getD_set _ _ _ (by omega)]
    by_cases first : j = 0
    · rw [if_pos first.symm, if_pos first]
    · rw [if_neg (Ne.symm first), if_neg first, if_neg (by omega)]
  | succ i ih =>
    have size : i < (a.set (i + 1) ((a.getD i 0 <<< 7) + (a.getD (i + 1) 0 >>> 1))).length := by
      rw [List.length_set]
      omega
    simp only [gf128ShiftRightLoop]
    rw [ih _ size, getD_set _ _ _ inside, getD_set _ _ _ inside, getD_set _ _ _ inside,
      if_neg (show ¬ i + 1 = 0 by omega)]
    by_cases first : j = 0
    · rw [if_pos first, if_pos first]
    · rw [if_neg first, if_neg first]
      by_cases before : j ≤ i
      · rw [if_pos before, if_neg (show ¬ i + 1 = j - 1 by omega), if_neg (show ¬ i + 1 = j by omega),
          if_pos (show j ≤ i + 1 by omega)]
      · rw [if_neg before]
        by_cases here : i + 1 = j
        · subst here
          simp
        · rw [if_neg here, if_neg (show ¬ j ≤ i + 1 by omega)]

/-- The bits of a byte that takes the lowest bit of the byte before it. -/
theorem testBit_shifted (x y : UInt8) (k : Nat) (inside : k < 8) :
    ((x <<< 7) + (y >>> 1)).toNat.testBit k = if k = 7 then x.toNat.testBit 0 else y.toNat.testBit (k + 1) := by
  -- The lowest bit of the first byte stands above the upper bits of the second.
  have low : y.toNat / 2 < 2 ^ 7 := by
    have := y.toNat_lt
    omega
  have value : ((x <<< 7) + (y >>> 1)).toNat = 2 ^ 7 * (x.toNat % 2) + y.toNat / 2 := by
    have upper : (x <<< 7).toNat = x.toNat * 128 % 256 := by
      rw [UInt8.toNat_shiftLeft, Nat.shiftLeft_eq]
      rfl
    have lower : (y >>> 1).toNat = y.toNat / 2 := by
      rw [UInt8.toNat_shiftRight, Nat.shiftRight_eq_div_pow]
      rfl
    rw [UInt8.toNat_add, upper, lower]
    omega
  rw [value, Nat.testBit_two_pow_mul_add _ low]
  by_cases last : k = 7
  · rw [last, if_neg (by omega), if_pos rfl, Nat.sub_self, Nat.testBit_zero, Nat.testBit_zero, Nat.mod_mod]
  · rw [if_pos (by omega), if_neg last, Nat.testBit_succ]

/-- Shifting the bytes shifts the element. -/
theorem encode_gf128ShiftRight (size : a.length = 16) :
    encode (gf128ShiftRight a) = encode a >>> 1 := by
  apply BitVec.eq_of_getMsbD_eq
  intro n inside
  rw [BitVec.getMsbD_ushiftRight, encode_getMsbD (by rw [gf128ShiftRight, gf128ShiftRightLoop_length, size]) inside,
    gf128ShiftRight, gf128ShiftRightLoop_getD a (by omega), decide_eq_true inside, Bool.true_and]
  by_cases first : n / 8 = 0
  · -- The first byte takes a zero bit.
    rw [if_pos first, UInt8.toNat_shiftRight, Nat.testBit_shiftRight]
    by_cases start : n = 0
    · subst start
      exact Nat.testBit_lt_two_pow (a.getD 0 0).toNat_lt
    · rw [decide_eq_false (by omega), Bool.not_false, Bool.true_and, encode_getMsbD size (by omega),
        show (n - 1) / 8 = 0 by omega]
      congr 1
      show 1 + (7 - n % 8) = 7 - (n - 1) % 8
      omega
  · rw [if_neg first, if_pos (by omega), testBit_shifted _ _ _ (by omega), decide_eq_false (by omega),
      Bool.not_false, Bool.true_and, encode_getMsbD size (by omega)]
    by_cases start : n % 8 = 0
    · -- The bit comes from the byte before.
      rw [if_pos (by omega), show (n - 1) / 8 = n / 8 - 1 by omega, show 7 - (n - 1) % 8 = 0 by omega]
    · rw [if_neg (by omega), show (n - 1) / 8 = n / 8 by omega, show 7 - (n - 1) % 8 = 7 - n % 8 + 1 by omega]

/-- The mask tells whether the bit is set. -/
theorem ithBitMask_eq (num : UInt8) (i : Nat) (inside : i < 8) :
    ithBitMask num i = if num.toNat.testBit (7 - i) then 255 else 0 := by
  have all : ∀ (n : Fin 256) (i : Fin 8), ithBitMask (UInt8.ofNat n) i =
      if (UInt8.ofNat n).toNat.testBit (7 - i) then 255 else 0 := by decide +kernel
  have here := all ⟨num.toNat, num.toNat_lt⟩ ⟨i, inside⟩
  rwa [UInt8.ofNat_toNat] at here

@[simp] theorem applyMaskLoop_length (a m : Bytes) (msk : UInt8) (dep : Nat) :
    (applyMaskLoop a m msk dep).length = m.length := by
  induction dep generalizing m with
  | zero => rfl
  | succ i ih => rw [applyMaskLoop, ih, List.length_set]

/-- The bytes before position `dep` are masked. -/
theorem applyMaskLoop_getD (a m : Bytes) (msk : UInt8) {dep : Nat} (inside : dep ≤ m.length) (j : Nat) :
    (applyMaskLoop a m msk dep).getD j 0 = if j < dep then a.getD j 0 &&& msk else m.getD j 0 := by
  -- Induction on the number of bytes: the last one is masked first.
  induction dep generalizing m with
  | zero => rfl
  | succ i ih =>
    rw [applyMaskLoop, ih _ (by rw [List.length_set]; omega), getD_set _ _ _ (by omega)]
    by_cases here : i = j
    · subst here
      simp
    · rw [if_neg here]
      by_cases before : j < i
      · rw [if_pos before, if_pos (by omega)]
      · rw [if_neg before, if_neg (by omega)]

/-- A mask of all ones selects the element, and a mask of zeros gives zero. -/
theorem encode_applyMask (size : a.length = 16) (size' : m.length = 16) (bit : Bool) :
    encode (applyMask a m (if bit then 255 else 0)) = if bit then encode a else zero := by
  apply BitVec.eq_of_getMsbD_eq
  intro n inside
  rw [encode_getMsbD (by rw [applyMask, applyMaskLoop_length, size']) inside, applyMask,
    applyMaskLoop_getD _ _ _ size'.ge, if_pos (by omega)]
  cases bit with
  | false =>
    rw [if_neg (by simp), if_neg (by simp), UInt8.and_zero]
    rw [show (0 : UInt8).toNat = 0 by rfl, Nat.zero_testBit]
    exact BitVec.getMsbD_zero.symm
  | true =>
    rw [if_pos rfl, if_pos rfl, show (255 : UInt8) = -1 by decide, UInt8.and_neg_one, encode_getMsbD size inside]

/-- The byte of the irreducible polynomial is added to the first byte when the mask is set. -/
theorem encode_reduce (size : a.length = 16) (bit : Bool) :
    encode (a.set 0 (a.getD 0 0 ^^^ ((if bit then 255 else 0) &&& rMul))) =
      if bit then fadd (encode a) irr else encode a := by
  cases bit with
  | false =>
    -- Nothing is added.
    have same : a.set 0 (a.getD 0 0 ^^^ ((if false then 255 else 0) &&& rMul)) = a := by
      apply List.ext_getElem (by rw [List.length_set])
      intro n _ _
      rw [List.getElem_set]
      split
      · rename_i first
        subst first
        simp [List.getElem_eq_getD (0 : UInt8)]
      · rfl
    rw [same]
    rfl
  | true =>
    rw [if_pos rfl, if_pos rfl, ← (show encode (rMul :: List.replicate 15 0) = irr by decide)]
    apply encode_xor size rfl (by rw [List.length_set, size])
    intro j inside
    rw [getD_set _ _ _ (by omega)]
    cases j with
    | zero => rfl
    | succ j =>
      rw [if_neg (by omega), List.getD_cons_succ, List.getD_replicate _ (by omega), UInt8.xor_zero]

section Multiplication

variable {add : Bytes → Bytes → Bytes}

/-- One bit of the second factor: the multiple is added, and the first factor shifted. -/
theorem gf128MulLoop_encode (sizes : ∀ x y, (add x y).length = x.length)
    (adds : ∀ x y, x.length = 16 → y.length = 16 → encode (add x y) = fadd (encode x) (encode y))
    (sizeA : a.length = 16) (sizeB : b.length = 16) (sizeR : r.length = 16) (sizeM : m.length = 16)
    {rest : Nat} (inside : rest ≤ 128) :
    encode (gf128MulLoop add a b r m rest) = fadd (fmulLoop (encode a) (encode b) rest) (encode r) := by
  -- Induction on the number of bits that are left.
  induction rest generalizing a r m with
  | zero => exact (zero_fadd _).symm
  | succ rest ih =>
    -- The masks are those of the bits.
    have mask := ithBitMask_eq (b.getD ((127 - rest) / 8) 0) ((127 - rest) % 8) (by omega)
    have mask' := ithBitMask_eq (a.getD 15 0) 7 (by omega)
    have long : (gf128ShiftRight a).length = 16 := by rw [gf128ShiftRight, gf128ShiftRightLoop_length, sizeA]
    have masked : (applyMask a m (ithBitMask (b.getD ((127 - rest) / 8) 0) ((127 - rest) % 8))).length = 16 := by
      rw [applyMask, applyMaskLoop_length, sizeM]
    rw [← encode_getMsbD sizeB (by omega)] at mask
    rw [show 7 - 7 = 7 - 127 % 8 by rfl, show a.getD 15 0 = a.getD (127 / 8) 0 by rfl,
      ← encode_getMsbD sizeA (by omega)] at mask'
    simp only [gf128MulLoop]
    rw [ih (by rw [List.length_set, long]) (by rw [sizes, sizeR]) masked (by omega), adds _ _ sizeR masked, mask,
      encode_applyMask sizeA sizeM, mask', encode_reduce long, encode_gf128ShiftRight sizeA, ← shiftReduce,
      fmulLoop, condFadd]
    split
    · rw [fadd_comm (encode r), ← fadd_assoc]
    · rw [fadd_zero]

theorem gf128MulLoop_length (sizes : ∀ x y, (add x y).length = x.length) (a b r m : Bytes) (rest : Nat) :
    (gf128MulLoop add a b r m rest).length = r.length := by
  induction rest generalizing a r m with
  | zero => rfl
  | succ rest ih => simp only [gf128MulLoop, ih, sizes]

end Multiplication

@[simp] theorem gf128Mul_length (a b : Bytes) : (gf128Mul a b).length = 16 :=
  gf128MulLoop_length gf128Add_length a b _ _ 128

/-- Multiplying byte strings multiplies the elements. -/
theorem encode_gf128Mul (size : a.length = 16) (size' : b.length = 16) :
    encode (gf128Mul a b) = fmul (encode a) (encode b) := by
  have zeros : encode (List.replicate 16 0) = zero := by decide
  have long : (List.replicate 16 (0 : UInt8)).length = 16 := List.length_replicate
  rw [gf128Mul, gf128MulLoop_encode gf128Add_length (fun x y => encode_gf128Add) size size' long long le_rfl, zeros,
    fadd_zero, fmul]

/-- A block of zeros with a short string in front of it encodes as the string does. -/
theorem encode_splice {w : Bytes} (short : w.length ≤ 16) :
    encode (splice (List.replicate 16 0) 0 w) = encode w := by
  have block : splice (List.replicate 16 0) 0 w = w ++ List.replicate (16 - w.length) 0 := by
    rw [splice, List.take_zero, List.nil_append, Nat.zero_add, List.drop_replicate]
  rw [block, encode_pad _ _ (by omega)]

/-- Absorbing what is left: one block, which is zero when nothing is. -/
theorem ghashLoopLast_encode (sizeT : tag.length = 16) (sizeK : authKey.length = 16) {dep : Nat}
    (short : str.length - dep ≤ 16) :
    encode (ghashLoop_ tag authKey str str.length dep) =
      fmul (fadd (encode (str.drop dep)) (encode tag)) (encode authKey) := by
  have rest : (str.drop dep).take (str.length - dep) = str.drop dep :=
    List.take_of_length_le (by rw [List.length_drop])
  have small : (str.drop dep).length ≤ 16 := by rwa [List.length_drop]
  have size : (splice (List.replicate 16 0) 0 (str.drop dep)).length = 16 :=
    splice_length _ 0 _ (by rw [List.length_replicate]; omega)
  simp only [ghashLoop_, rest]
  rw [encode_gf128Mul (by rw [gf128Add_length, sizeT]) sizeK, encode_gf128Add sizeT size, encode_splice small,
    fadd_comm]

@[simp] theorem ghashLoop_length (tag authKey str : Bytes) (len dep : Nat) :
    (ghashLoop tag authKey str len dep).length = 16 := by
  fun_induction ghashLoop tag authKey str len dep with
  | case1 tag dep short => exact gf128Mul_length _ _
  | case2 tag dep long next si added multiplied ih => exact ih

/-- A string that is not empty is absorbed block by block. -/
theorem ghashLoop_encode (sizeT : tag.length = 16) (sizeK : authKey.length = 16) {dep : Nat}
    (inside : dep < str.length) :
    encode (ghashLoop tag authKey str str.length dep) =
      polyFrom (encode tag) (encodeBytes (str.drop dep)) (encode authKey) := by
  -- Induction along the loop: more than one block is left before it goes on.
  fun_induction ghashLoop tag authKey str str.length dep with
  | case1 tag dep short =>
    have some : str.drop dep ≠ [] := fun none => by
      have size := congrArg List.length none
      rw [List.length_drop, List.length_nil] at size
      omega
    rw [ghashLoopLast_encode sizeT sizeK short, encodeBytes,
      Spec.Poly1305.encodeBytes_short some (by rw [List.length_drop]; omega), polyFrom_cons, polyFrom_nil]
  | case2 tag dep long next si added multiplied ih =>
    have size : si.length = 16 := by
      rw [List.length_take, List.length_drop]
      omega
    have sum : multiplied.length = 16 := gf128Mul_length _ _
    rw [ih sum (by omega), encode_gf128Mul (by rw [gf128Add_length, sizeT]) sizeK, encode_gf128Add sizeT size,
      fadd_comm, encodeBytes, encodeBytes,
      Spec.Poly1305.encodeBytes_block (show 16 ≤ (str.drop dep).length by rw [List.length_drop]; omega), List.drop_drop,
      polyFrom_concat]

/-- An empty string is absorbed as a block of zeros. -/
theorem ghashLoop_nil (sizeT : tag.length = 16) (sizeK : authKey.length = 16) :
    encode (ghashLoop tag authKey [] 0 0) = fmul (encode tag) (encode authKey) := by
  have result := ghashLoopLast_encode sizeT sizeK (show ([] : Bytes).length - 0 ≤ 16 by decide)
  have zeros : encode [] = zero := by decide
  rw [List.length_nil, List.drop_nil, zeros, zero_fadd] at result
  rw [ghashLoop, if_pos (by decide), result]

/-- A length in bits, byte by byte. -/
theorem bigBytes_bits (len : UInt32) :
    bigBytes 8 (8 * len.toNat) =
      [(0 : UInt8), 0, 0, (len >>> 5 >>> 8 >>> 8 >>> 8).toUInt8, (len >>> 5 >>> 8 >>> 8).toUInt8,
        (len >>> 5 >>> 8).toUInt8, (len >>> 5).toUInt8, len.toUInt8 <<< 3] := by
  have small := len.toNat_lt
  have byte : ∀ (b : UInt8) (n : Nat), b.toNat = n % 256 → UInt8.ofNat (n % 256) = b := by
    intro b n value
    rw [← value, UInt8.ofNat_toNat]
  have shift5 : (len >>> 5).toNat = len.toNat / 32 := by
    rw [UInt32.toNat_shiftRight, Nat.shiftRight_eq_div_pow]
    rfl
  have shift8 : ∀ n : UInt32, (n >>> 8).toNat = n.toNat / 256 := by
    intro n
    rw [UInt32.toNat_shiftRight, Nat.shiftRight_eq_div_pow]
    rfl
  have last : (len.toUInt8 <<< 3).toNat = len.toNat % 256 * 8 % 256 := by
    rw [UInt8.toNat_shiftLeft, Nat.shiftLeft_eq, UInt32.toNat_toUInt8]
    rfl
  -- The first three bytes are zeros: the length in bits is below 2^35.
  simp only [bigBytes, List.nil_append, List.cons_append]
  rw [byte 0 (8 * len.toNat / 256 / 256 / 256 / 256 / 256 / 256 / 256) (by rw [UInt8.toNat_zero]; omega),
    byte 0 (8 * len.toNat / 256 / 256 / 256 / 256 / 256 / 256) (by rw [UInt8.toNat_zero]; omega),
    byte 0 (8 * len.toNat / 256 / 256 / 256 / 256 / 256) (by rw [UInt8.toNat_zero]; omega),
    byte (len >>> 5 >>> 8 >>> 8 >>> 8).toUInt8 _ (by rw [UInt32.toNat_toUInt8, shift8, shift8, shift8, shift5]; omega),
    byte (len >>> 5 >>> 8 >>> 8).toUInt8 _ (by rw [UInt32.toNat_toUInt8, shift8, shift8, shift5]; omega),
    byte (len >>> 5 >>> 8).toUInt8 _ (by rw [UInt32.toNat_toUInt8, shift8, shift5]; omega),
    byte (len >>> 5).toUInt8 _ (by rw [UInt32.toNat_toUInt8, shift5]; omega),
    byte (len.toUInt8 <<< 3) _ (by rw [last]; omega)]

/-- The block of the lengths in bits. -/
theorem mkLenInfo_eq (len1 len2 : UInt32) :
    mkLenInfo (List.replicate 16 0) len1 len2 =
      bigBytes 8 (8 * len1.toNat) ++ bigBytes 8 (8 * len2.toNat) := by
  rw [bigBytes_bits, bigBytes_bits]
  rfl

section Hash

variable {ad ciphertext : Bytes} {adlen len : UInt32}

/-- The first loop absorbs the additional data, also when there are none. -/
theorem ghashLoop_first (sizeK : authKey.length = 16) (ad : Bytes) :
    encode (ghashLoop (List.replicate 16 0) authKey ad ad.length 0) =
      polyFrom zero (encodeBytes ad) (encode authKey) := by
  have zeros : encode (List.replicate 16 0) = zero := by decide
  have size : (List.replicate 16 (0 : UInt8)).length = 16 := List.length_replicate
  cases ad with
  | nil =>
    -- Multiplying zero once more changes nothing.
    rw [List.length_nil, ghashLoop_nil size sizeK, zeros, zero_fmul, encodeBytes, Spec.Poly1305.encodeBytes_nil,
      polyFrom_nil]
  | cons x rest =>
    rw [ghashLoop_encode size sizeK (by rw [List.length_cons]; omega), List.drop_zero, zeros]

/-- The hash is that of the accumulator of the second loop and the block of the lengths. -/
theorem ghash_steps (sizeK : authKey.length = 16) (sizeA : adlen.toNat = ad.length)
    (sizeC : len.toNat = ciphertext.length) :
    ghash authKey ad adlen ciphertext len =
      decode (fmul (fadd (encode (bigBytes 8 (8 * ad.length) ++ bigBytes 8 (8 * ciphertext.length)))
        (encode (ghashLoop (ghashLoop (List.replicate 16 0) authKey ad ad.length 0) authKey ciphertext
          ciphertext.length 0))) (encode authKey)) := by
  have block : (mkLenInfo (List.replicate 16 0) adlen len).length = 16 := by rw [mkLenInfo_eq]; simp
  have size : (gf128Add (ghashLoop (ghashLoop (List.replicate 16 0) authKey ad ad.length 0) authKey ciphertext
      ciphertext.length 0) (mkLenInfo (List.replicate 16 0) adlen len)).length = 16 := by
    rw [gf128Add_length, ghashLoop_length]
  simp only [ghash, sizeA, sizeC]
  rw [← decode_encode (gf128Mul_length _ _), encode_gf128Mul size sizeK,
    encode_gf128Add (ghashLoop_length _ _ _ _ _) block, fadd_comm, mkLenInfo_eq, sizeA, sizeC]

/-- With a ciphertext that is not empty, the hash is the one specified. -/
theorem ghash_eq (sizeK : authKey.length = 16) (sizeA : adlen.toNat = ad.length)
    (sizeC : len.toNat = ciphertext.length) (some : ciphertext ≠ []) :
    ghash authKey ad adlen ciphertext len = decode (Spec.GF128.ghash (encode authKey) ad ciphertext) := by
  rw [ghash_steps sizeK sizeA sizeC, ghashLoop_encode (ghashLoop_length _ _ _ _ _) sizeK
    (List.length_pos_of_ne_nil some), List.drop_zero, ghashLoop_first sizeK, Spec.GF128.ghash_eq]

/-- With an empty ciphertext, the additional data are multiplied once more. -/
theorem ghash_nil (sizeK : authKey.length = 16) (sizeA : adlen.toNat = ad.length) :
    ghash authKey ad adlen [] 0 =
      decode (fmul (fadd (encode (bigBytes 8 (8 * ad.length) ++ bigBytes 8 0))
        (fmul (polyFrom zero (encodeBytes ad) (encode authKey)) (encode authKey))) (encode authKey)) := by
  rw [ghash_steps sizeK sizeA (by rfl), List.length_nil, ghashLoop_nil (ghashLoop_length _ _ _ _ _) sizeK,
    ghashLoop_first sizeK]

end Hash

end HaclStar.Impl.GCM
