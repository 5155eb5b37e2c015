import HaclStar.Impl.Policies

/-! The AES block cipher, with a key schedule of any size, and the two ways it reads its table. -/

namespace HaclStar.Impl.AES

open Endianness Policies

/-- Multiply by the indeterminate in the field of 256 elements. -/
def xtime (b : UInt8) : UInt8 := (b <<< 1) ^^^ (((b >>> 7) &&& (1 : UInt8)) * 0x1b)

/-- Multiply in the field of 256 elements. -/
def multiply (a b : UInt8) : UInt8 :=
  let bit (i : UInt8) : UInt8 := (b >>> i) &&& 1
  (a * bit 0)
  ^^^ (xtime a * bit 1)
  ^^^ (xtime (xtime a) * bit 2)
  ^^^ (xtime (xtime (xtime a)) * bit 3)
  ^^^ (xtime (xtime (xtime (xtime a))) * bit 4)
  ^^^ (xtime (xtime (xtime (xtime (xtime a)))) * bit 5)
  ^^^ (xtime (xtime (xtime (xtime (xtime (xtime a))))) * bit 6)
  ^^^ (xtime (xtime (xtime (xtime (xtime (xtime (xtime a)))))) * bit 7)

/-- The substitution table. -/
def mkSbox : Bytes := [
  0x63, 0x7c, 0x77, 0x7b, 0xf2, 0x6b, 0x6f, 0xc5, 0x30, 0x01, 0x67, 0x2b, 0xfe, 0xd7, 0xab, 0x76,
  0xca, 0x82, 0xc9, 0x7d, 0xfa, 0x59, 0x47, 0xf0, 0xad, 0xd4, 0xa2, 0xaf, 0x9c, 0xa4, 0x72, 0xc0,
  0xb7, 0xfd, 0x93, 0x26, 0x36, 0x3f, 0xf7, 0xcc, 0x34, 0xa5, 0xe5, 0xf1, 0x71, 0xd8, 0x31, 0x15,
  0x04, 0xc7, 0x23, 0xc3, 0x18, 0x96, 0x05, 0x9a, 0x07, 0x12, 0x80, 0xe2, 0xeb, 0x27, 0xb2, 0x75,
  0x09, 0x83, 0x2c, 0x1a, 0x1b, 0x6e, 0x5a, 0xa0, 0x52, 0x3b, 0xd6, 0xb3, 0x29, 0xe3, 0x2f, 0x84,
  0x53, 0xd1, 0x00, 0xed, 0x20, 0xfc, 0xb1, 0x5b, 0x6a, 0xcb, 0xbe, 0x39, 0x4a, 0x4c, 0x58, 0xcf,
  0xd0, 0xef, 0xaa, 0xfb, 0x43, 0x4d, 0x33, 0x85, 0x45, 0xf9, 0x02, 0x7f, 0x50, 0x3c, 0x9f, 0xa8,
  0x51, 0xa3, 0x40, 0x8f, 0x92, 0x9d, 0x38, 0xf5, 0xbc, 0xb6, 0xda, 0x21, 0x10, 0xff, 0xf3, 0xd2,
  0xcd, 0x0c, 0x13, 0xec, 0x5f, 0x97, 0x44, 0x17, 0xc4, 0xa7, 0x7e, 0x3d, 0x64, 0x5d, 0x19, 0x73,
  0x60, 0x81, 0x4f, 0xdc, 0x22, 0x2a, 0x90, 0x88, 0x46, 0xee, 0xb8, 0x14, 0xde, 0x5e, 0x0b, 0xdb,
  0xe0, 0x32, 0x3a, 0x0a, 0x49, 0x06, 0x24, 0x5c, 0xc2, 0xd3, 0xac, 0x62, 0x91, 0x95, 0xe4, 0x79,
  0xe7, 0xc8, 0x37, 0x6d, 0x8d, 0xd5, 0x4e, 0xa9, 0x6c, 0x56, 0xf4, 0xea, 0x65, 0x7a, 0xae, 0x08,
  0xba, 0x78, 0x25, 0x2e, 0x1c, 0xa6, 0xb4, 0xc6, 0xe8, 0xdd, 0x74, 0x1f, 0x4b, 0xbd, 0x8b, 0x8a,
  0x70, 0x3e, 0xb5, 0x66, 0x48, 0x03, 0xf6, 0x0e, 0x61, 0x35, 0x57, 0xb9, 0x86, 0xc1, 0x1d, 0x9e,
  0xe1, 0xf8, 0x98, 0x11, 0x69, 0xd9, 0x8e, 0x94, 0x9b, 0x1e, 0x87, 0xe9, 0xce, 0x55, 0x28, 0xdf,
  0x8c, 0xa1, 0x89, 0x0d, 0xbf, 0xe6, 0x42, 0x68, 0x41, 0x99, 0x2d, 0x0f, 0xb0, 0x54, 0xbb, 0x16]

/-- The table entry at an index, read at that index. -/
def accessDirect (sbox : Bytes) (i : UInt8) : UInt8 := sbox.getD i.toNat 0

/-- The loop over the last `rest` table entries, of which a mask keeps the one at the index. -/
def accessAux (sbox : Bytes) (i : UInt8) : Nat → UInt8 → UInt8
  | 0, tmp => tmp
  | rest + 1, tmp =>
    let ctr := 255 - rest
    let mask := eqMask i (UInt8.ofNat ctr)
    accessAux sbox i rest (tmp ||| (mask &&& sbox.getD ctr 0))

/-- The table entry at an index, found by reading the whole table. -/
def accessScan (sbox : Bytes) (i : UInt8) : UInt8 := accessAux sbox i 256 0

/-- The key length in words, the number of rounds, and the way the table is read. -/
structure Params where
  nk : Nat
  nr : Nat
  access : Bytes → UInt8 → UInt8

/-- The length of the expanded key in words. -/
def Params.words (p : Params) : Nat := 4 * (p.nr + 1)

/-- Replace every byte of the state. -/
def subBytesSbox (p : Params) (state sbox : Bytes) : Bytes := state.map (p.access sbox)

/-- Rotate the rows of the state, whose bytes are four apart. -/
def shiftRows (state : Bytes) : Bytes :=
  let at' (i : Nat) := state.getD i 0
  [at' 0, at' 5, at' 10, at' 15, at' 4, at' 9, at' 14, at' 3,
   at' 8, at' 13, at' 2, at' 7, at' 12, at' 1, at' 6, at' 11]

/-- Mix one column of the state. -/
def mixColumn (state : Bytes) (c : Nat) : Bytes :=
  let s0 := state.getD (4 * c) 0
  let s1 := state.getD (4 * c + 1) 0
  let s2 := state.getD (4 * c + 2) 0
  let s3 := state.getD (4 * c + 3) 0
  let state := state.set (4 * c) (multiply 0x2 s0 ^^^ multiply 0x3 s1 ^^^ s2 ^^^ s3)
  let state := state.set (4 * c + 1) (multiply 0x2 s1 ^^^ multiply 0x3 s2 ^^^ s3 ^^^ s0)
  let state := state.set (4 * c + 2) (multiply 0x2 s2 ^^^ multiply 0x3 s3 ^^^ s0 ^^^ s1)
  state.set (4 * c + 3) (multiply 0x2 s3 ^^^ multiply 0x3 s0 ^^^ s1 ^^^ s2)

def mixColumns (state : Bytes) : Bytes :=
  let state := mixColumn state 0
  let state := mixColumn state 1
  let state := mixColumn state 2
  mixColumn state 3

/-- Add one column of a round key to the state. -/
def addRoundKeyColumn (state w : Bytes) (round c : Nat) : Bytes :=
  let subkey (i : Nat) := w.getD (16 * round + 4 * c + i) 0
  let state := state.set (4 * c) (state.getD (4 * c) 0 ^^^ subkey 0)
  let state := state.set (4 * c + 1) (state.getD (4 * c + 1) 0 ^^^ subkey 1)
  let state := state.set (4 * c + 2) (state.getD (4 * c + 2) 0 ^^^ subkey 2)
  state.set (4 * c + 3) (state.getD (4 * c + 3) 0 ^^^ subkey 3)

def addRoundKey (state w : Bytes) (round : Nat) : Bytes :=
  let state := addRoundKeyColumn state w round 0
  let state := addRoundKeyColumn state w round 1
  let state := addRoundKeyColumn state w round 2
  addRoundKeyColumn state w round 3

/-- The rounds up to the last one, when `rest` of them are left. -/
def cipherLoop (p : Params) (state w sbox : Bytes) : Nat → Bytes
  | 0 => state
  | rest + 1 =>
    let state := subBytesSbox p state sbox
    let state := shiftRows state
    let state := mixColumns state
    let state := addRoundKey state w (p.nr - (rest + 1))
    cipherLoop p state w sbox rest

/-- Encrypt one block. -/
def cipher (p : Params) (input w sbox : Bytes) : Bytes :=
  let state := addRoundKey input w 0
  let state := cipherLoop p state w sbox (p.nr - 1)
  let state := subBytesSbox p state sbox
  let state := shiftRows state
  addRoundKey state w p.nr

def rotWord (word : Bytes) : Bytes :=
  [word.getD 1 0, word.getD 2 0, word.getD 3 0, word.getD 0 0]

def subWord (p : Params) (word sbox : Bytes) : Bytes := word.map (p.access sbox)

/-- Multiply by the indeterminate `i - 1` times. -/
def rcon : Nat → UInt8 → UInt8
  | 0, tmp => tmp
  | 1, tmp => tmp
  | i + 2, tmp => rcon (i + 1) (multiply 0x2 tmp)

/-- What is added to the word `nk` places before word `j`. -/
def keyExpansionAux0 (p : Params) (w sbox : Bytes) (j : Nat) : Bytes :=
  let temp := (w.drop (4 * j - 4)).take 4
  if j % p.nk = 0 then
    let temp := rotWord temp
    let temp := subWord p temp sbox
    temp.set 0 (temp.getD 0 0 ^^^ rcon (j / p.nk) 1)
  else if j % p.nk = 4 then subWord p temp sbox
  else temp

/-- Write word `j`. -/
def keyExpansionAux1 (p : Params) (w temp : Bytes) (j : Nat) : Bytes :=
  let i := 4 * j
  let before (k : Nat) := w.getD (i + k - 4 * p.nk) 0
  let w0 := before 0
  let w1 := before 1
  let w2 := before 2
  let w3 := before 3
  let w := w.set i (temp.getD 0 0 ^^^ w0)
  let w := w.set (i + 1) (temp.getD 1 0 ^^^ w1)
  let w := w.set (i + 2) (temp.getD 2 0 ^^^ w2)
  w.set (i + 3) (temp.getD 3 0 ^^^ w3)

/-- Write the last `rest` words. -/
def keyExpansionAux (p : Params) (w sbox : Bytes) : Nat → Bytes
  | 0 => w
  | rest + 1 =>
    let j := p.words - (rest + 1)
    let temp := keyExpansionAux0 p w sbox j
    let w := keyExpansionAux1 p w temp j
    keyExpansionAux p w sbox rest

/-- The expanded key: the key itself and one word after another. -/
def keyExpansion (p : Params) (key sbox : Bytes) : Bytes :=
  let w := key.take (4 * p.nk) ++ List.replicate (4 * (p.words - p.nk)) 0
  keyExpansionAux p w sbox (p.words - p.nk)

/-- A mask of all ones keeps a byte. -/
theorem allOnes_and (x : UInt8) : 0xff &&& x = x := by
  have kept : 255 &&& x.toNat = x.toNat := by
    rw [Nat.and_comm]
    exact (Nat.and_two_pow_sub_one_eq_mod x.toNat 8).trans (Nat.mod_eq_of_lt x.toNat_lt)
  exact UInt8.toNat_inj.mp (by rw [UInt8.toNat_and]; exact kept)

/-- Reading the whole table finds the entry at the index. -/
theorem accessAux_eq (sbox : Bytes) (i : UInt8) {rest : Nat} (inside : rest ≤ 256) (tmp : UInt8) :
    accessAux sbox i rest tmp =
      if i.toNat < 256 - rest then tmp else tmp ||| sbox.getD i.toNat 0 := by
  have bound := i.toNat_lt
  -- Induction on the number of entries that are left.
  induction rest generalizing tmp with
  | zero => rw [accessAux, if_pos (by omega)]
  | succ rest ih =>
    have position : (UInt8.ofNat (255 - rest)).toNat = 255 - rest := by
      rw [UInt8.toNat_ofNat']
      omega
    rw [accessAux, ih (by omega), eqMask]
    by_cases here : i.toNat = 255 - rest
    · -- The entry of this round is the one that is looked for.
      have same : i = UInt8.ofNat (255 - rest) := by rw [← UInt8.toNat_inj, position, here]
      rw [if_pos same, if_pos (by omega), if_neg (by omega), here, allOnes_and]
    · have other : i ≠ UInt8.ofNat (255 - rest) := by
        intro same
        rw [same, position] at here
        exact here rfl
      have nothing : tmp ||| (0 &&& sbox.getD (255 - rest) 0) = tmp := by simp
      rw [if_neg other, nothing]
      by_cases before : i.toNat < 256 - (rest + 1)
      · rw [if_pos before, if_pos (by omega)]
      · rw [if_neg before, if_neg (by omega)]

/-- Both ways of reading the table find the same entry. -/
theorem accessScan_eq : accessScan = accessDirect := by
  funext sbox i
  rw [accessScan, accessAux_eq sbox i le_rfl, if_neg (by omega), accessDirect]
  simp

@[simp] theorem mkSbox_length : mkSbox.length = 256 := by decide +kernel

@[simp] theorem shiftRows_length (state : Bytes) : (shiftRows state).length = 16 := rfl

@[simp] theorem addRoundKey_length (state w : Bytes) (round : Nat) :
    (addRoundKey state w round).length = state.length := by
  simp [addRoundKey, addRoundKeyColumn]

/-- A block is encrypted to a block. -/
@[simp] theorem cipher_length (p : Params) (input w sbox : Bytes) : (cipher p input w sbox).length = 16 := by
  simp [cipher]

@[simp] theorem keyExpansionAux1_length (p : Params) (w temp : Bytes) (j : Nat) :
    (keyExpansionAux1 p w temp j).length = w.length := by
  simp [keyExpansionAux1]

/-- The words are written over the ones that are there. -/
theorem keyExpansionAux_length (p : Params) (w sbox : Bytes) (rest : Nat) :
    (keyExpansionAux p w sbox rest).length = w.length := by
  induction rest generalizing w with
  | zero => rfl
  | succ rest ih => rw [keyExpansionAux, ih, keyExpansionAux1_length]

/-- The expanded key has four bytes for each word. -/
theorem keyExpansion_length (p : Params) {key : Bytes} (sbox : Bytes) (size : 4 * p.nk ≤ key.length)
    (fits : p.nk ≤ p.words) : (keyExpansion p key sbox).length = 4 * p.words := by
  rw [keyExpansion, keyExpansionAux_length, List.length_append, List.length_take, List.length_replicate]
  omega

end HaclStar.Impl.AES
