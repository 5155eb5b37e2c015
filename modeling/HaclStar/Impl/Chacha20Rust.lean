import HaclStar.Lib.Limbs
import HaclStar.Lib.Memory
import HaclStar.Spec.Chacha20

/-! The ChaCha20 implementation in Rust. A slice beyond its bounds and an overflowing addition panic. -/

namespace HaclStar.Impl.Chacha20Rust

open Endianness Keystream Memory Spec

/-- The sixteen words of a cipher state. -/
abbrev ChachaCtx := Vector UInt32 16

def load32Le (k : Bytes) : UInt32 :=
  let k0 := (k.getD 0 0).toUInt32
  let k1 := (k.getD 1 0).toUInt32
  let k2 := (k.getD 2 0).toUInt32
  let k3 := (k.getD 3 0).toUInt32
  k0 ||| (k1 <<< 8) ||| (k2 <<< 16) ||| (k3 <<< 24)

def store32Le (x : UInt32) : Bytes :=
  [x.toUInt8, (x >>> 8).toUInt8, (x >>> 16).toUInt8, (x >>> 24).toUInt8]

/-- The bytes of `m[start..stop]`. -/
def slice (m : Bytes) (start stop : Nat) : Option Bytes :=
  if start ≤ stop ∧ stop ≤ m.length then some ((m.drop start).take (stop - start)) else none

/-- Addition that panics on overflow. -/
def checkedAdd (x y : UInt32) : Option UInt32 :=
  if x.toNat + y.toNat < 2 ^ 32 then some (x + y) else none

/-- Add one word to another, combine a third with the sum, and rotate it. -/
def line (m : ChachaCtx) (a b d : Fin 16) (s : UInt32) : ChachaCtx :=
  let m := m.set a (m.get a + m.get b) (within a)
  let m := m.set d (m.get d ^^^ m.get a) (within d)
  m.set d (rotateLeft (m.get d) s) (within d)

/-- Four lines on four words. -/
def quarterRound (m : ChachaCtx) (a b c d : Fin 16) : ChachaCtx :=
  let m := line m a b d 16
  let m := line m c d b 12
  let m := line m a b d 8
  line m c d b 7

/-- Eight quarter rounds, on the columns and on the diagonals. -/
def doubleRound (x : ChachaCtx) : ChachaCtx :=
  let x := quarterRound x 0 4 8 12
  let x := quarterRound x 1 5 9 13
  let x := quarterRound x 2 6 10 14
  let x := quarterRound x 3 7 11 15
  let x := quarterRound x 0 5 10 15
  let x := quarterRound x 1 6 11 12
  let x := quarterRound x 2 7 8 13
  quarterRound x 3 4 9 14

/-- The context of a key, a nonce and a counter. -/
def setup (k n : Bytes) (ctr : UInt32) : ChachaCtx :=
  let word (b : Bytes) (i : Nat) : UInt32 := load32Le ((b.drop i).take 4)
  #v[0x61707865, 0x3320646e, 0x79622d32, 0x6b206574,
    word k 0, word k 4, word k 8, word k 12, word k 16, word k 20, word k 24, word k 28,
    ctr, word n 0, word n 4, word n 8]

/-- Encrypt the first block of `m` to the first block of `c`. -/
def chachaEncryptBytesCore (ctx : ChachaCtx) (m c : Bytes) : Option Bytes :=
  let x := doubleRound^[10] ctx
  let x := Vector.zipWith (· + ·) x ctx
  if 64 ≤ m.length ∧ 64 ≤ c.length then
    let ms : Vector UInt32 16 := Vector.ofFn fun i => load32Le ((m.drop (4 * i)).take 4)
    let x := Vector.zipWith (· ^^^ ·) x ms
    some (splice c 0 (x.toList.flatMap store32Le))
  else none

/-- Encrypt whole blocks. Every round of the loop takes the first block of the input and of the output. -/
def chachaEncryptBytesLoop (m : Bytes) (len : Nat) (ctx : ChachaCtx) (c : Bytes) (curr : Nat) :
    Option (ChachaCtx × Bytes) :=
  if 64 ≤ len - curr then do
    let m1 ← slice m 0 64
    let c1 ← slice c 0 64
    let c1 ← chachaEncryptBytesCore ctx m1 c1
    let ctr ← checkedAdd (ctx.get 12) 1
    chachaEncryptBytesLoop m len (ctx.set 12 ctr counterPosition) (splice c 0 c1) (curr + 64)
  else some (ctx, c)
termination_by len - curr

/-- Copy the first bytes of a block to the output, from a position on. -/
def copyBytes (c tmp : Bytes) (start : Nat) : Nat → Option Bytes
  | 0 => some c
  | i + 1 => do
    let c ← copyBytes c tmp start i
    if start + i < c.length then some (c.set (start + i) (tmp.getD i 0)) else none

/-- Encrypt whole blocks, and the rest through blocks of zeros. -/
def chachaEncryptBytes (ctx : ChachaCtx) (m c : Bytes) (len : Nat) : Option Bytes := do
  let (ctx, c) ← chachaEncryptBytesLoop m len ctx c 0
  let rem := len &&& 63
  if 0 < rem then
    let last ← slice m (len - rem) len
    let tmpM := splice (List.replicate 64 0) 0 last
    let tmpC ← chachaEncryptBytesCore ctx tmpM (List.replicate 64 0)
    copyBytes c tmpC (len - rem) rem
  else some c

/-- Encrypt a message. The result is the output buffer. -/
def chacha20 (c m : Bytes) (len : Nat) (k n : Bytes) (ctr : UInt32) : Option Bytes :=
  chachaEncryptBytes (setup k n ctr) m c len

/-- Loading decodes four little-endian bytes. -/
theorem load32Le_eq {k : Bytes} (size : k.length = 4) : load32Le k = uint32FromLe k := by
  match k, size with
  | [a, b, c, d], _ =>
    have boundA := a.toNat_lt
    have boundB := b.toNat_lt
    have boundC := c.toNat_lt
    have boundD := d.toNat_lt
    apply UInt32.toNat_inj.mp
    have value : littleEndian [a, b, c, d] =
        d.toNat * 2 ^ 24 + (c.toNat * 2 ^ 16 + (b.toNat * 2 ^ 8 + a.toNat)) := by
      simp only [littleEndian]
      ring
    rw [uint32FromLe, value, UInt32.toNat_ofNat_of_lt' (show _ < 2 ^ 32 by omega)]
    -- The bytes occupy different bits.
    have low : a.toNat ||| b.toNat * 2 ^ 8 = b.toNat * 2 ^ 8 + a.toNat := by
      rw [Nat.or_comm, Limbs.mul_or_eq_add (by omega)]
    have middle : b.toNat * 2 ^ 8 + a.toNat ||| c.toNat * 2 ^ 16 =
        c.toNat * 2 ^ 16 + (b.toNat * 2 ^ 8 + a.toNat) := by
      rw [Nat.or_comm, Limbs.mul_or_eq_add (by omega)]
    have high : c.toNat * 2 ^ 16 + (b.toNat * 2 ^ 8 + a.toNat) ||| d.toNat * 2 ^ 24 =
        d.toNat * 2 ^ 24 + (c.toNat * 2 ^ 16 + (b.toNat * 2 ^ 8 + a.toNat)) := by
      rw [Nat.or_comm, Limbs.mul_or_eq_add (by omega)]
    rw [← high, ← middle, ← low]
    simp only [load32Le, List.getD_cons_zero, List.getD_cons_succ, UInt32.toNat_or,
      UInt32.toNat_shiftLeft, UInt8.toNat_toUInt32, Nat.shiftLeft_eq]
    rw [Nat.mod_eq_of_lt (show b.toNat * 2 ^ _ < 2 ^ 32 by change b.toNat * 2 ^ 8 < _; omega),
      Nat.mod_eq_of_lt (show c.toNat * 2 ^ _ < 2 ^ 32 by change c.toNat * 2 ^ 16 < _; omega),
      Nat.mod_eq_of_lt (show d.toNat * 2 ^ _ < 2 ^ 32 by change d.toNat * 2 ^ 24 < _; omega)]
    rfl

/-- A byte of a word, by division. -/
theorem toUInt8_eq {x y : UInt32} {n : Nat} (value : y.toNat = x.toNat / n) :
    y.toUInt8 = UInt8.ofNat (x.toNat / n % 256) := by
  apply UInt8.toNat_inj.mp
  rw [UInt32.toNat_toUInt8, value, UInt8.toNat_ofNat', Nat.mod_mod]

/-- Storing encodes four little-endian bytes. -/
theorem store32Le_eq (x : UInt32) : store32Le x = uint32ToLe x := by
  have byte0 := toUInt8_eq (x := x) (y := x) (n := 1) (Nat.div_one _).symm
  have byte1 := toUInt8_eq (x := x) (y := x >>> 8) (n := 2 ^ 8) (by
    rw [UInt32.toNat_shiftRight, Nat.shiftRight_eq_div_pow]; rfl)
  have byte2 := toUInt8_eq (x := x) (y := x >>> 16) (n := 2 ^ 16) (by
    rw [UInt32.toNat_shiftRight, Nat.shiftRight_eq_div_pow]; rfl)
  have byte3 := toUInt8_eq (x := x) (y := x >>> 24) (n := 2 ^ 24) (by
    rw [UInt32.toNat_shiftRight, Nat.shiftRight_eq_div_pow]; rfl)
  rw [Nat.div_one] at byte0
  simp only [store32Le, uint32ToLe, littleBytes, Nat.div_div_eq_div_mul, byte0, byte1, byte2, byte3]
  rfl

/-- Combining and rotating in two assignments is one assignment. -/
theorem line_eq (m : ChachaCtx) (a b d : Fin 16) (s : UInt32) :
    line m a b d s = Spec.Chacha20.line a b d s m := by
  simp only [line, Spec.Chacha20.line, Vector.get_eq_getElem, Fin.getElem_fin, Vector.set_set,
    Vector.getElem_set_self]

/-- The quarter round is the specification's. -/
theorem quarterRound_eq (m : ChachaCtx) (a b c d : Fin 16) :
    quarterRound m a b c d = Spec.Chacha20.quarterRound a b c d m := by
  simp only [quarterRound, line_eq, Spec.Chacha20.quarterRound]

/-- The double round is the specification's. -/
theorem doubleRound_eq (x : ChachaCtx) : doubleRound x = Spec.Chacha20.doubleRound x := by
  simp only [doubleRound, quarterRound_eq, Spec.Chacha20.doubleRound, Spec.Chacha20.columnRound,
    Spec.Chacha20.diagonalRound]

/-- The loaded words of a block are its decoded words. -/
theorem loads_eq {n : Nat} {m : Bytes} (size : 4 * n ≤ m.length) :
    (Vector.ofFn fun i : Fin n => load32Le ((m.drop (4 * i)).take 4)) = uint32sFromLe n (m.take (4 * n)) := by
  rw [uint32sFromLe, ← uint32Le.loadAll_eq n _ (by rw [List.length_take, Nat.min_eq_left size]; rfl)]
  apply Vector.ext
  intro i inside
  have taken : 4 ≤ 4 * n - 4 * i := by omega
  have position : uint32Le.width = 4 := rfl
  simp only [Vector.getElem_ofFn, Words.WordCodec.loadAll, position, List.drop_take, List.take_take,
    Nat.min_eq_left taken]
  exact load32Le_eq (by rw [List.length_take, List.length_drop]; omega)

/-- The context is that of the specification. -/
theorem setup_eq {k n : Bytes} (size : k.length = 32) (size' : n.length = 12) (ctr : UInt32) :
    setup k n ctr = Spec.Chacha20.setup k n ctr.toNat := by
  have key := loads_eq (n := 8) (m := k) size.ge
  have nonce := loads_eq (n := 3) (m := n) size'.ge
  rw [List.take_of_length_le (by omega)] at key nonce
  rw [Spec.Chacha20.setup, ← key, ← nonce, UInt32.ofNat_toNat]
  rfl

/-- The core combines the first blocks with the keystream block of its context. -/
theorem chachaEncryptBytesCore_run {k n m c : Bytes} {ctr : Nat} (size : 64 ≤ m.length) (size' : 64 ≤ c.length) :
    chachaEncryptBytesCore (Spec.Chacha20.setup k n ctr) m c =
      some (splice c 0 (xor (m.take 64) (Spec.Chacha20.chacha20Block k n ctr))) := by
  have words := loads_eq (n := 16) (m := m) size
  have rounds : doubleRound^[10] (Spec.Chacha20.setup k n ctr) =
      Spec.Chacha20.rounds (Spec.Chacha20.setup k n ctr) := by
    rw [Spec.Chacha20.rounds, funext doubleRound_eq]
  have stores (x : Vector UInt32 16) : x.toList.flatMap store32Le = uint32sToLe 16 x := by
    rw [uint32sToLe, ← uint32Le.storeAll_eq, Words.WordCodec.storeAll, funext store32Le_eq]
    rfl
  have decoded : uint32sToLe 16 (uint32sFromLe 16 (m.take 64)) = m.take 64 :=
    uint32Le.toBytes_fromBytes 16 _ (by rw [List.length_take, Nat.min_eq_left size]; rfl)
  -- Combining words is combining bytes.
  rw [chachaEncryptBytesCore, if_pos ⟨size, size'⟩, words, rounds]
  simp only [stores, uint32sToLe_xor, Nat.reduceMul, decoded]
  rw [Keystream.xor_comm]
  rfl

/-- A block of the message. -/
def block (k n : Bytes) (m : Bytes) (ctr : Nat) : Bytes :=
  xor (m.take 64) (Spec.Chacha20.chacha20Block k n ctr)

theorem block_length {m : Bytes} (size : 64 ≤ m.length) (k n : Bytes) (ctr : Nat) :
    (block k n m ctr).length = 64 := by
  rw [block, xor_length, List.length_take, Spec.Chacha20.chacha20Block_length]
  omega

variable {k n m c : Bytes} {len : Nat}

/-- One round of the loop writes the first block again, with the next counter. -/
theorem chachaEncryptBytesLoop_step {curr : Nat} {ctr : UInt32} (more : 64 ≤ len - curr) (fits : len ≤ m.length)
    (fits' : len ≤ c.length) (bounded : ctr.toNat + 1 < 2 ^ 32) :
    chachaEncryptBytesLoop m len (Spec.Chacha20.setup k n ctr.toNat) c curr =
      chachaEncryptBytesLoop m len (Spec.Chacha20.setup k n (ctr + 1).toNat)
        (splice c 0 (block k n m ctr.toNat)) (curr + 64) := by
  have first : slice m 0 64 = some (m.take 64) := by
    rw [slice, if_pos ⟨by omega, by omega⟩, List.drop_zero, Nat.sub_zero]
  have first' : slice c 0 64 = some (c.take 64) := by
    rw [slice, if_pos ⟨by omega, by omega⟩, List.drop_zero, Nat.sub_zero]
  have size : (m.take 64).length = 64 := by rw [List.length_take]; omega
  have size' : (c.take 64).length = 64 := by rw [List.length_take]; omega
  have core := @chachaEncryptBytesCore_run k n _ _ ctr.toNat size.ge size'.ge
  rw [List.take_take, Nat.min_self] at core
  -- The output slice is replaced as a whole.
  have whole : splice (c.take 64) 0 (block k n m ctr.toNat) = block k n m ctr.toNat :=
    splice_all (by rw [block_length (by omega), size'])
  rw [← block, whole] at core
  have next : checkedAdd ((Spec.Chacha20.setup k n ctr.toNat).get 12) 1 = some (ctr + 1) := by
    have word : (Spec.Chacha20.setup k n ctr.toNat).get 12 = _ := Spec.Chacha20.setup_counter k n ctr.toNat
    rw [word, UInt32.ofNat_toNat, checkedAdd, if_pos (by exact bounded)]
  rw [chachaEncryptBytesLoop, if_pos more, first, first']
  simp only [Option.bind_eq_bind, Option.bind_some, core, next, Spec.Chacha20.setup_set]

/-- The loop leaves the last block that it wrote, and the counter behind it. -/
theorem chachaEncryptBytesLoop_run (blocks : Nat) {curr : Nat} {ctr : UInt32} (fits : len ≤ m.length)
    (fits' : len ≤ c.length) (rest : (len - curr) / 64 = blocks) (bounded : ctr.toNat + blocks < 2 ^ 32) :
    chachaEncryptBytesLoop m len (Spec.Chacha20.setup k n ctr.toNat) c curr =
      some (Spec.Chacha20.setup k n (ctr.toNat + blocks),
        if blocks = 0 then c else splice c 0 (block k n m (ctr.toNat + blocks - 1))) := by
  -- Induction on the number of blocks: each one hides the block before it.
  induction blocks generalizing c curr ctr with
  | zero =>
    rw [chachaEncryptBytesLoop, if_neg (by omega)]
    rfl
  | succ blocks ih =>
    have size := block_length (show 64 ≤ m.length by omega) k n ctr.toNat
    have counted : (ctr + 1).toNat = ctr.toNat + 1 := by
      rw [UInt32.toNat_add]
      exact Nat.mod_eq_of_lt (show ctr.toNat + 1 < 2 ^ 32 by omega)
    rw [chachaEncryptBytesLoop_step (by omega) fits fits' (by omega), ih
      (by rw [splice_length _ _ _ (by omega)]; exact fits') (by omega) (by omega), counted,
      Nat.add_right_comm, Nat.add_assoc, if_neg (Nat.succ_ne_zero blocks)]
    split
    · next last =>
      rw [last]
      rfl
    · next more =>
      have again : splice (splice c 0 (block k n m ctr.toNat)) 0 (block k n m (ctr.toNat + 1 + blocks - 1)) =
          splice c 0 (block k n m (ctr.toNat + 1 + blocks - 1)) := by
        have size' := block_length (show 64 ≤ m.length by omega) k n (ctr.toNat + 1 + blocks - 1)
        have rest : splice c 0 (block k n m ctr.toNat) = block k n m ctr.toNat ++ c.drop 64 := by
          rw [splice_start, size]
        rw [rest, splice_prefix _ (by rw [size', size]), splice_start, size']
      rw [show ctr.toNat + (blocks + 1) - 1 = ctr.toNat + 1 + blocks - 1 by omega, again]

/-- Copying byte by byte replaces the bytes from the position on. -/
theorem copyBytes_run {tmp : Bytes} {start count : Nat} (fits : start + count ≤ c.length)
    (within : count ≤ tmp.length) : copyBytes c tmp start count = some (splice c start (tmp.take count)) := by
  -- Induction on the number of bytes: the last one is set behind the others.
  induction count with
  | zero => simp [copyBytes, splice]
  | succ i ih =>
    have taken : (tmp.take i).length = i := by rw [List.length_take]; omega
    have taken' : (tmp.take (i + 1)).length = i + 1 := by rw [List.length_take]; omega
    have size : (splice c start (tmp.take i)).length = c.length := splice_length _ _ _ (by omega)
    rw [copyBytes, ih (by omega) (by omega)]
    simp only [Option.bind_eq_bind, Option.bind_some]
    rw [if_pos (by omega)]
    congr 1
    -- Position by position: the one set, those copied before, and the others.
    apply List.ext_getElem?
    intro j
    rw [List.getElem?_set, splice_getElem? _ _ _ (by omega), splice_getElem? _ _ _ (by omega), size, taken, taken',
      List.getElem?_take, List.getElem?_take]
    by_cases here : start + i = j
    · subst here
      rw [if_pos rfl, if_pos (by omega), if_pos (by omega), if_pos (by omega), Nat.add_sub_cancel_left,
        List.getElem?_eq_getElem (by omega), List.getD_eq_getElem _ _ (by omega)]
    · rw [if_neg here]
      by_cases inside : start ≤ j ∧ j < start + i
      · rw [if_pos inside, if_pos (by omega), if_pos (by omega), if_pos (by omega)]
      · rw [if_neg inside, if_neg (by omega)]

/-- The bytes behind the whole blocks are encrypted in their place. -/
def finishRest (k n m : Bytes) (len ctr : Nat) (c : Bytes) : Bytes :=
  if 0 < len % 64 then
    splice c (len - len % 64) (xor ((m.drop (len - len % 64)).take (len % 64)) (Spec.Chacha20.chacha20Block k n ctr))
  else c

/-- A mask keeps the low six bits of a length. -/
theorem and_63 (len : Nat) : len &&& 63 = len % 64 := Nat.and_two_pow_sub_one_eq_mod len 6

/-- A short message behind zeros meets the start of the keystream block. -/
theorem xor_padded (rest mask : Bytes) :
    (xor (splice (List.replicate 64 0) 0 rest) mask).take rest.length = xor rest mask := by
  have covers : splice (List.replicate 64 0) 0 rest = rest ++ List.replicate (64 - rest.length) 0 := by
    rw [splice_start, List.drop_replicate]
  apply List.ext_getElem?
  intro i
  rw [covers, List.getElem?_take, Keystream.xor, Keystream.xor, List.getElem?_zipWith, List.getElem?_zipWith]
  by_cases inside : i < rest.length
  · rw [if_pos inside, List.getElem?_append_left inside]
  · rw [if_neg inside, List.getElem?_eq_none (Nat.le_of_not_lt inside)]

/-- The whole run: the loop, then the bytes behind the whole blocks. -/
theorem chacha20_run {ctr : UInt32} (size : k.length = 32) (size' : n.length = 12) (fits : len ≤ m.length)
    (fits' : len ≤ c.length) (bounded : ctr.toNat + len / 64 < 2 ^ 32) :
    chacha20 c m len k n ctr = some (finishRest k n m len (ctr.toNat + len / 64)
      (if len / 64 = 0 then c else splice c 0 (block k n m (ctr.toNat + len / 64 - 1)))) := by
  have looped := @chachaEncryptBytesLoop_run k n _ _ _ (len / 64) 0 _ fits fits' (by rw [Nat.sub_zero]) bounded
  set c1 := if len / 64 = 0 then c else splice c 0 (block k n m (ctr.toNat + len / 64 - 1)) with c1_def
  have c1Size : c1.length = c.length := by
    rw [c1_def]
    split
    · rfl
    · have width := block_length (show 64 ≤ m.length by omega) k n (ctr.toNat + len / 64 - 1)
      exact splice_length _ _ _ (by omega)
  rw [chacha20, setup_eq size size', chachaEncryptBytes, looped, and_63]
  simp only [Option.bind_eq_bind, Option.bind_some]
  rw [finishRest]
  split
  · next some =>
    have before := Nat.mod_le len 64
    have below := Nat.mod_lt len (show 0 < 64 by decide)
    have restSize : ((m.drop (len - len % 64)).take (len % 64)).length = len % 64 := by
      rw [List.length_take, List.length_drop]; omega
    have last : slice m (len - len % 64) len = Option.some ((m.drop (len - len % 64)).take (len % 64)) := by
      rw [slice, if_pos ⟨by omega, fits⟩, Nat.sub_sub_self before]
    set rest := (m.drop (len - len % 64)).take (len % 64) with rest_def
    have zeros : (List.replicate 64 (0 : UInt8)).length = 64 := List.length_replicate
    have tmpSize : (splice (List.replicate 64 0) 0 rest).length = 64 := by
      rw [splice_length _ _ _ (by omega), zeros]
    have core := @chachaEncryptBytesCore_run k n _ _ (ctr.toNat + len / 64) tmpSize.ge zeros.ge
    set mask := Spec.Chacha20.chacha20Block k n (ctr.toNat + len / 64) with mask_def
    have maskSize : mask.length = 64 := Spec.Chacha20.chacha20Block_length k n _
    have whole : splice (List.replicate 64 0) 0 (xor (splice (List.replicate 64 0) 0 rest) mask) =
        xor (splice (List.replicate 64 0) 0 rest) mask :=
      splice_all (by rw [xor_length, tmpSize, maskSize, zeros, Nat.min_self])
    rw [List.take_of_length_le tmpSize.le, whole] at core
    have masked := xor_padded rest mask
    rw [restSize] at masked
    rw [last]
    simp only [Option.bind_some, core]
    rw [copyBytes_run (by omega) (by rw [xor_length, tmpSize, maskSize]; omega), masked]
  · rfl

end HaclStar.Impl.Chacha20Rust
