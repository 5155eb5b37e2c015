import HaclStar.Spec.HMACGeneric

/-! HKDF over each of the SHA-2 hash functions. -/

namespace HaclStar.Spec.HKDF

open Endianness SHA2Generic HMACGeneric

variable (a : HashAlg)

/-- Extraction is the authenticator of the input under the salt. -/
def hkdfExtract (salt ikm : Bytes) : Bytes := HMACGeneric.hmac a salt ikm

/-- Block after block, each from the one before it, the context and its number in one byte, while the
block before it is shorter than the output. -/
def hkdfExpandCore (prk info : Bytes) (len n : Nat) (t : Bytes) : Bytes :=
  if t.length < len ∧ n + 1 ≤ 255 then
    let t := HMACGeneric.hmac a prk (t ++ info ++ [UInt8.ofNat (n + 1)])
    let ti := hkdfExpandCore prk info len (n + 1) t
    t ++ ti
  else []
termination_by 255 - n

/-- The first bytes of the blocks. -/
def hkdfExpand (prk info : Bytes) (len : Nat) : Bytes :=
  let okmRaw := hkdfExpandCore a prk info len 0 []
  okmRaw.take len

/-! The blocks by their numbers. -/

/-- Block `i`, counted from one; block zero is empty. -/
def block (prk info : Bytes) : Nat → Bytes
  | 0 => []
  | i + 1 => HMACGeneric.hmac a prk (block prk info i ++ info ++ [UInt8.ofNat (i + 1)])

/-- The first `n` blocks. -/
def blocks (prk info : Bytes) : Nat → Bytes
  | 0 => []
  | n + 1 => blocks prk info n ++ block a prk info (n + 1)

/-- The number of blocks that hold `len` bytes. -/
def blockCount (len : Nat) : Nat := (len + sizeHash a - 1) / sizeHash a

section Laws

variable {a} {prk info : Bytes}

theorem sizeHash_pos : 0 < sizeHash a := by cases a <;> decide

@[simp] theorem block_length (i : Nat) : (block a prk info (i + 1)).length = sizeHash a :=
  hmac_length a _ _

@[simp] theorem blocks_length (n : Nat) : (blocks a prk info n).length = n * sizeHash a := by
  induction n with
  | zero => simp [blocks]
  | succ n ih => simp [blocks, ih, Nat.succ_mul]

/-- Later blocks are appended. -/
theorem blocks_prefix {n m : Nat} (fewer : n ≤ m) : blocks a prk info n <+: blocks a prk info m := by
  -- Induction on the number of blocks that are appended.
  induction fewer with
  | refl => exact List.prefix_refl _
  | step _ ih => exact ih.trans (List.prefix_append _ _)

/-- The blocks are enough for the bytes. -/
theorem le_blockCount (len : Nat) : len ≤ blockCount a len * sizeHash a := by
  have positive := sizeHash_pos (a := a)
  have divided := Nat.div_add_mod' (len + sizeHash a - 1) (sizeHash a)
  have small := Nat.mod_lt (len + sizeHash a - 1) positive
  rw [blockCount]
  omega

/-- Bytes that fit in some blocks need no more than these. -/
theorem blockCount_le {len n : Nat} (fits : len ≤ n * sizeHash a) : blockCount a len ≤ n := by
  have positive := sizeHash_pos (a := a)
  rw [blockCount, Nat.div_le_iff_le_mul_add_pred positive, Nat.mul_comm]
  omega

/-- Any number of blocks that is enough has the same first bytes. -/
theorem take_blocks {len n m : Nat} (fits : len ≤ n * sizeHash a) (fits' : len ≤ m * sizeHash a) :
    (blocks a prk info n).take len = (blocks a prk info m).take len := by
  -- The shorter sequence of blocks is where the longer one starts.
  rcases Nat.le_total n m with fewer | fewer
  · obtain ⟨rest, joined⟩ : blocks a prk info n <+: blocks a prk info m := blocks_prefix fewer
    rw [← joined, List.take_append_of_le_length (by rw [blocks_length]; exact fits)]
  · obtain ⟨rest, joined⟩ : blocks a prk info m <+: blocks a prk info n := blocks_prefix fewer
    rw [← joined, List.take_append_of_le_length (by rw [blocks_length]; exact fits')]

/-- From a whole block on, the core goes on to the last block of all when more than one is needed. -/
theorem hkdfExpandCore_blocks {len n : Nat} (more : sizeHash a < len) (within : n + 1 ≤ 255) :
    blocks a prk info (n + 1) ++
        hkdfExpandCore a prk info len (n + 1) (block a prk info (n + 1)) = blocks a prk info 255 := by
  -- Induction on the number of blocks that are missing.
  obtain ⟨missing, count⟩ : ∃ missing, missing = 255 - (n + 1) := ⟨_, rfl⟩
  induction missing generalizing n with
  | zero =>
    have last : n + 1 = 255 := by omega
    rw [hkdfExpandCore, if_neg (by omega), List.append_nil, last]
  | succ missing ih =>
    have next : (block a prk info (n + 1)).length < len ∧ n + 1 + 1 ≤ 255 := by
      rw [block_length]
      omega
    rw [hkdfExpandCore, if_pos next, ← List.append_assoc]
    exact ih (by omega) (by omega)

/-- The expansion is the blocks, truncated. -/
theorem hkdfExpand_blocks {len : Nat} (fits : len ≤ 255 * sizeHash a) :
    hkdfExpand a prk info len = (blocks a prk info (blockCount a len)).take len := by
  have enough := le_blockCount (a := a) len
  have one : blocks a prk info 1 = block a prk info 1 := List.nil_append _
  rcases Nat.eq_zero_or_pos len with none | some
  · rw [none, List.take_zero, hkdfExpand, List.take_zero]
  · have start : hkdfExpandCore a prk info len 0 [] =
        blocks a prk info 1 ++ hkdfExpandCore a prk info len 1 (block a prk info 1) := by
      rw [hkdfExpandCore, if_pos ⟨some, by decide⟩, one]
      rfl
    rcases Nat.lt_or_ge (sizeHash a) len with more | fitsOne
    · -- The core yields all the blocks there are.
      rw [hkdfExpand, start, hkdfExpandCore_blocks more (by decide)]
      exact take_blocks fits enough
    · -- One block is enough, and the core stops behind it.
      have stop : ¬ ((block a prk info 1).length < len ∧ 1 + 1 ≤ 255) := by
        rw [block_length]
        omega
      rw [hkdfExpand, start, hkdfExpandCore, if_neg stop, List.append_nil]
      exact take_blocks (by omega) enough

/-- A truncation has its length. -/
theorem take_blocks_length (len : Nat) :
    ((blocks a prk info (blockCount a len)).take len).length = len := by
  have enough := le_blockCount (a := a) len
  rw [List.length_take, blocks_length, Nat.min_eq_left enough]

/-- Shorter outputs are where the longer ones start. -/
theorem take_blocks_prefix {len len' : Nat} (shorter : len ≤ len') :
    (blocks a prk info (blockCount a len)).take len <+:
      (blocks a prk info (blockCount a len')).take len' := by
  have enough := le_blockCount (a := a) len
  have enough' := le_blockCount (a := a) len'
  -- The blocks of the longer output are enough for the shorter one.
  rw [take_blocks enough (shorter.trans enough'), ← Nat.min_eq_left shorter, ← List.take_take]
  exact List.take_prefix _ _

end Laws

end HaclStar.Spec.HKDF
