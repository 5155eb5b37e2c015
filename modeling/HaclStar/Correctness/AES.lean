import Mathlib.Algebra.Group.End
import Mathlib.Data.Set.Function
import Mathlib.Tactic.Group
import HaclStar.Impl.AESInverse
import HaclStar.SecureApi.Cipher

/-! Every layer of AES is a permutation of the blocks, and the inverse cipher is the inverse of the cipher. -/

namespace HaclStar.Correctness.AES

open Endianness Impl.AES SecureApi SecureApi.Cipher

/-- Sixteen bytes. -/
abbrev Block := {b : Bytes // b.length = 16}

/-- What holds of the 256 bytes one by one holds of every byte. -/
theorem byte_all {P : UInt8 → Prop} (each : ∀ n < 256, P (UInt8.ofNat n)) (x : UInt8) : P x := by
  have here := each x.toNat x.toNat_lt
  rwa [UInt8.ofNat_toNat] at here

/-- A block is the list of its sixteen bytes. -/
theorem sixteen {b : Bytes} (size : b.length = 16) :
    ∃ b0 b1 b2 b3 b4 b5 b6 b7 b8 b9 b10 b11 b12 b13 b14 b15,
      b = [b0, b1, b2, b3, b4, b5, b6, b7, b8, b9, b10, b11, b12, b13, b14, b15] := by
  match b, size with
  | [b0, b1, b2, b3, b4, b5, b6, b7, b8, b9, b10, b11, b12, b13, b14, b15], _ =>
    exact ⟨b0, b1, b2, b3, b4, b5, b6, b7, b8, b9, b10, b11, b12, b13, b14, b15, rfl⟩

/-- Each table reads back what the other one wrote. -/
theorem sboxes_inverse (x : UInt8) :
    accessDirect mkInvSbox (accessDirect mkSbox x) = x ∧ accessDirect mkSbox (accessDirect mkInvSbox x) = x := by
  revert x
  exact byte_all (by decide +kernel)

theorem invSbox_sbox (x : UInt8) : accessDirect mkInvSbox (accessDirect mkSbox x) = x := (sboxes_inverse x).1

theorem sbox_invSbox (x : UInt8) : accessDirect mkSbox (accessDirect mkInvSbox x) = x := (sboxes_inverse x).2

/-- Masking distributes over the exclusive or. -/
theorem and_xor (x y m : UInt8) : (x ^^^ y) &&& m = (x &&& m) ^^^ (y &&& m) := by
  apply UInt8.toBitVec_inj.mp
  ext i bound
  simp only [UInt8.toBitVec_and, UInt8.toBitVec_xor, BitVec.getElem_and, BitVec.getElem_xor]
  exact Bool.and_xor_distrib_right _ _ _

theorem bit_cases (x : UInt8) : x &&& 1 = 0 ∨ x &&& 1 = 1 := by
  have bit : (x &&& 1).toNat = x.toNat % 2 := by
    rw [UInt8.toNat_and]
    exact Nat.and_one_is_mod x.toNat
  rcases Nat.mod_two_eq_zero_or_one x.toNat with even | odd
  · exact .inl (UInt8.toNat_inj.mp (bit.trans even))
  · exact .inr (UInt8.toNat_inj.mp (bit.trans odd))

/-- One summand of a product is additive in the factor whose bit it takes. -/
theorem summand_xor (t x y i : UInt8) :
    t * (((x ^^^ y) >>> i) &&& 1) = t * ((x >>> i) &&& 1) ^^^ t * ((y >>> i) &&& 1) := by
  rw [UInt8.shiftRight_xor, and_xor]
  rcases bit_cases (x >>> i) with hx | hx <;> rcases bit_cases (y >>> i) with hy | hy
  all_goals rw [hx, hy]; simp

/-- The product is additive in its second factor. -/
theorem multiply_xor (a x y : UInt8) : multiply a (x ^^^ y) = multiply a x ^^^ multiply a y := by
  simp only [multiply, summand_xor]
  ac_rfl

/-- One byte of a mixed column. -/
def mix (x0 x1 x2 x3 : UInt8) : UInt8 := multiply 0x2 x0 ^^^ multiply 0x3 x1 ^^^ x2 ^^^ x3

/-- The share of each byte of a column in the first one that is mixed and mixed back. -/
theorem invMix_shares (x : UInt8) :
    (multiply 0xe (multiply 0x2 x) ^^^ multiply 0xb x ^^^ multiply 0xd x ^^^ multiply 0x9 (multiply 0x3 x) = x)
    ∧ (multiply 0xe (multiply 0x3 x) ^^^ multiply 0xb (multiply 0x2 x) ^^^ multiply 0xd x ^^^ multiply 0x9 x = 0)
    ∧ (multiply 0xe x ^^^ multiply 0xb (multiply 0x3 x) ^^^ multiply 0xd (multiply 0x2 x) ^^^ multiply 0x9 x = 0)
    ∧ (multiply 0xe x ^^^ multiply 0xb x ^^^ multiply 0xd (multiply 0x3 x) ^^^ multiply 0x9 (multiply 0x2 x) = 0) := by
  refine ⟨?_, ?_, ?_, ?_⟩
  all_goals revert x; exact byte_all (by decide +kernel)

/-- The share of each byte of a column in the first one that is mixed back and mixed. -/
theorem mix_shares (x : UInt8) :
    (multiply 0x2 (multiply 0xe x) ^^^ multiply 0x3 (multiply 0x9 x) ^^^ multiply 0xd x ^^^ multiply 0xb x = x)
    ∧ (multiply 0x2 (multiply 0xb x) ^^^ multiply 0x3 (multiply 0xe x) ^^^ multiply 0x9 x ^^^ multiply 0xd x = 0)
    ∧ (multiply 0x2 (multiply 0xd x) ^^^ multiply 0x3 (multiply 0xb x) ^^^ multiply 0xe x ^^^ multiply 0x9 x = 0)
    ∧ (multiply 0x2 (multiply 0x9 x) ^^^ multiply 0x3 (multiply 0xd x) ^^^ multiply 0xb x ^^^ multiply 0xe x = 0) := by
  refine ⟨?_, ?_, ?_, ?_⟩
  all_goals revert x; exact byte_all (by decide +kernel)

/-- The first byte of a column is found again after mixing. -/
theorem invMix_mix (x0 x1 x2 x3 : UInt8) :
    invMix (mix x0 x1 x2 x3) (mix x1 x2 x3 x0) (mix x2 x3 x0 x1) (mix x3 x0 x1 x2) = x0 := by
  obtain ⟨own, -, -, -⟩ := invMix_shares x0
  obtain ⟨-, second, -, -⟩ := invMix_shares x1
  obtain ⟨-, -, third, -⟩ := invMix_shares x2
  obtain ⟨-, -, -, fourth⟩ := invMix_shares x3
  calc invMix (mix x0 x1 x2 x3) (mix x1 x2 x3 x0) (mix x2 x3 x0 x1) (mix x3 x0 x1 x2)
      = (multiply 0xe (multiply 0x2 x0) ^^^ multiply 0xb x0 ^^^ multiply 0xd x0 ^^^ multiply 0x9 (multiply 0x3 x0))
        ^^^ (multiply 0xe (multiply 0x3 x1) ^^^ multiply 0xb (multiply 0x2 x1) ^^^ multiply 0xd x1 ^^^ multiply 0x9 x1)
        ^^^ (multiply 0xe x2 ^^^ multiply 0xb (multiply 0x3 x2) ^^^ multiply 0xd (multiply 0x2 x2) ^^^ multiply 0x9 x2)
        ^^^ (multiply 0xe x3 ^^^ multiply 0xb x3 ^^^ multiply 0xd (multiply 0x3 x3)
          ^^^ multiply 0x9 (multiply 0x2 x3)) := by
        simp only [invMix, mix, multiply_xor]
        ac_rfl
    _ = x0 := by rw [own, second, third, fourth]; simp

/-- The first byte of a column is found again after mixing back. -/
theorem mix_invMix (x0 x1 x2 x3 : UInt8) :
    mix (invMix x0 x1 x2 x3) (invMix x1 x2 x3 x0) (invMix x2 x3 x0 x1) (invMix x3 x0 x1 x2) = x0 := by
  obtain ⟨own, -, -, -⟩ := mix_shares x0
  obtain ⟨-, second, -, -⟩ := mix_shares x1
  obtain ⟨-, -, third, -⟩ := mix_shares x2
  obtain ⟨-, -, -, fourth⟩ := mix_shares x3
  calc mix (invMix x0 x1 x2 x3) (invMix x1 x2 x3 x0) (invMix x2 x3 x0 x1) (invMix x3 x0 x1 x2)
      = (multiply 0x2 (multiply 0xe x0) ^^^ multiply 0x3 (multiply 0x9 x0) ^^^ multiply 0xd x0 ^^^ multiply 0xb x0)
        ^^^ (multiply 0x2 (multiply 0xb x1) ^^^ multiply 0x3 (multiply 0xe x1) ^^^ multiply 0x9 x1 ^^^ multiply 0xd x1)
        ^^^ (multiply 0x2 (multiply 0xd x2) ^^^ multiply 0x3 (multiply 0xb x2) ^^^ multiply 0xe x2 ^^^ multiply 0x9 x2)
        ^^^ (multiply 0x2 (multiply 0x9 x3) ^^^ multiply 0x3 (multiply 0xd x3) ^^^ multiply 0xb x3
          ^^^ multiply 0xe x3) := by
        simp only [invMix, mix, multiply_xor]
        ac_rfl
    _ = x0 := by rw [own, second, third, fourth]; simp

section Columns

theorem getD_past (front rest : Bytes) (i : Nat) : (front ++ rest).getD (front.length + i) 0 = rest.getD i 0 := by
  rw [List.getD_append_right _ _ _ _ (by omega), Nat.add_sub_cancel_left]

theorem set_past (front rest : Bytes) (i : Nat) (b : UInt8) :
    (front ++ rest).set (front.length + i) b = front ++ rest.set i b := by
  rw [List.set_append_right _ _ (by omega), Nat.add_sub_cancel_left]

/-- The first byte of a column has nothing added to its place. -/
theorem getD_start (front rest : Bytes) : (front ++ rest).getD front.length 0 = rest.getD 0 0 := getD_past front rest 0

theorem set_start (front rest : Bytes) (b : UInt8) : (front ++ rest).set front.length b = front ++ rest.set 0 b :=
  set_past front rest 0 b

/-- Mixing a column reads and writes the four bytes of that column. -/
theorem mixColumn_at (front : Bytes) (c : Nat) (here : front.length = 4 * c) (s0 s1 s2 s3 : UInt8) (after : Bytes) :
    mixColumn (front ++ s0 :: s1 :: s2 :: s3 :: after) c
      = front ++ mix s0 s1 s2 s3 :: mix s1 s2 s3 s0 :: mix s2 s3 s0 s1 :: mix s3 s0 s1 s2 :: after := by
  simp only [mixColumn, ← here, getD_start, set_start, getD_past, set_past]
  rfl

/-- Mixing a column back reads and writes the four bytes of that column. -/
theorem invMixColumn_at (front : Bytes) (c : Nat) (here : front.length = 4 * c) (s0 s1 s2 s3 : UInt8) (after : Bytes) :
    invMixColumn (front ++ s0 :: s1 :: s2 :: s3 :: after) c
      = front ++ invMix s0 s1 s2 s3 :: invMix s1 s2 s3 s0 :: invMix s2 s3 s0 s1 :: invMix s3 s0 s1 s2 :: after := by
  simp only [invMixColumn, ← here, getD_start, set_start, getD_past, set_past]
  rfl

/-- Adding a column of a round key reads and writes the four bytes of that column. -/
theorem addRoundKeyColumn_at (front : Bytes) (c : Nat) (here : front.length = 4 * c) (s0 s1 s2 s3 : UInt8)
    (after w : Bytes) (round : Nat) :
    let k (i : Nat) := w.getD (16 * round + 4 * c + i) 0
    addRoundKeyColumn (front ++ s0 :: s1 :: s2 :: s3 :: after) w round c
      = front ++ (s0 ^^^ k 0) :: (s1 ^^^ k 1) :: (s2 ^^^ k 2) :: (s3 ^^^ k 3) :: after := by
  intro k
  simp only [addRoundKeyColumn, ← here, getD_start, set_start, getD_past, set_past]
  simp only [k, ← here]
  rfl

variable (a0 a1 a2 a3 b0 b1 b2 b3 c0 c1 c2 c3 d0 d1 d2 d3 : UInt8)

/-- Mixing the columns writes each of them from its own bytes. -/
theorem mixColumns_block :
    mixColumns [a0, a1, a2, a3, b0, b1, b2, b3, c0, c1, c2, c3, d0, d1, d2, d3] =
      [mix a0 a1 a2 a3, mix a1 a2 a3 a0, mix a2 a3 a0 a1, mix a3 a0 a1 a2,
       mix b0 b1 b2 b3, mix b1 b2 b3 b0, mix b2 b3 b0 b1, mix b3 b0 b1 b2,
       mix c0 c1 c2 c3, mix c1 c2 c3 c0, mix c2 c3 c0 c1, mix c3 c0 c1 c2,
       mix d0 d1 d2 d3, mix d1 d2 d3 d0, mix d2 d3 d0 d1, mix d3 d0 d1 d2] := by
  have first :=
    mixColumn_at [] 0 rfl a0 a1 a2 a3 [b0, b1, b2, b3, c0, c1, c2, c3, d0, d1, d2, d3]
  have second (x0 x1 x2 x3) :=
    mixColumn_at [x0, x1, x2, x3] 1 rfl b0 b1 b2 b3 [c0, c1, c2, c3, d0, d1, d2, d3]
  have third (x0 x1 x2 x3 y0 y1 y2 y3) :=
    mixColumn_at [x0, x1, x2, x3, y0, y1, y2, y3] 2 rfl c0 c1 c2 c3 [d0, d1, d2, d3]
  have fourth (x0 x1 x2 x3 y0 y1 y2 y3 z0 z1 z2 z3) :=
    mixColumn_at [x0, x1, x2, x3, y0, y1, y2, y3, z0, z1, z2, z3] 3 rfl d0 d1 d2 d3 []
  simp only [List.cons_append, List.nil_append] at first second third fourth
  simp only [mixColumns, first, second, third, fourth]

/-- Mixing the columns back writes each of them from its own bytes. -/
theorem invMixColumns_block :
    invMixColumns [a0, a1, a2, a3, b0, b1, b2, b3, c0, c1, c2, c3, d0, d1, d2, d3] =
      [invMix a0 a1 a2 a3, invMix a1 a2 a3 a0, invMix a2 a3 a0 a1, invMix a3 a0 a1 a2,
       invMix b0 b1 b2 b3, invMix b1 b2 b3 b0, invMix b2 b3 b0 b1, invMix b3 b0 b1 b2,
       invMix c0 c1 c2 c3, invMix c1 c2 c3 c0, invMix c2 c3 c0 c1, invMix c3 c0 c1 c2,
       invMix d0 d1 d2 d3, invMix d1 d2 d3 d0, invMix d2 d3 d0 d1, invMix d3 d0 d1 d2] := by
  have first :=
    invMixColumn_at [] 0 rfl a0 a1 a2 a3 [b0, b1, b2, b3, c0, c1, c2, c3, d0, d1, d2, d3]
  have second (x0 x1 x2 x3) :=
    invMixColumn_at [x0, x1, x2, x3] 1 rfl b0 b1 b2 b3 [c0, c1, c2, c3, d0, d1, d2, d3]
  have third (x0 x1 x2 x3 y0 y1 y2 y3) :=
    invMixColumn_at [x0, x1, x2, x3, y0, y1, y2, y3] 2 rfl c0 c1 c2 c3 [d0, d1, d2, d3]
  have fourth (x0 x1 x2 x3 y0 y1 y2 y3 z0 z1 z2 z3) :=
    invMixColumn_at [x0, x1, x2, x3, y0, y1, y2, y3, z0, z1, z2, z3] 3 rfl d0 d1 d2 d3 []
  simp only [List.cons_append, List.nil_append] at first second third fourth
  simp only [invMixColumns, first, second, third, fourth]

/-- Adding a round key adds to each byte its own byte of the key. -/
theorem addRoundKey_block (w : Bytes) (round : Nat) :
    let k (c i : Nat) := w.getD (16 * round + 4 * c + i) 0
    addRoundKey [a0, a1, a2, a3, b0, b1, b2, b3, c0, c1, c2, c3, d0, d1, d2, d3] w round =
      [a0 ^^^ k 0 0, a1 ^^^ k 0 1, a2 ^^^ k 0 2, a3 ^^^ k 0 3,
       b0 ^^^ k 1 0, b1 ^^^ k 1 1, b2 ^^^ k 1 2, b3 ^^^ k 1 3,
       c0 ^^^ k 2 0, c1 ^^^ k 2 1, c2 ^^^ k 2 2, c3 ^^^ k 2 3,
       d0 ^^^ k 3 0, d1 ^^^ k 3 1, d2 ^^^ k 3 2, d3 ^^^ k 3 3] := by
  intro k
  have first :=
    addRoundKeyColumn_at [] 0 rfl a0 a1 a2 a3 [b0, b1, b2, b3, c0, c1, c2, c3, d0, d1, d2, d3] w round
  have second (x0 x1 x2 x3) :=
    addRoundKeyColumn_at [x0, x1, x2, x3] 1 rfl b0 b1 b2 b3 [c0, c1, c2, c3, d0, d1, d2, d3] w round
  have third (x0 x1 x2 x3 y0 y1 y2 y3) :=
    addRoundKeyColumn_at [x0, x1, x2, x3, y0, y1, y2, y3] 2 rfl c0 c1 c2 c3 [d0, d1, d2, d3] w round
  have fourth (x0 x1 x2 x3 y0 y1 y2 y3 z0 z1 z2 z3) :=
    addRoundKeyColumn_at [x0, x1, x2, x3, y0, y1, y2, y3, z0, z1, z2, z3] 3 rfl d0 d1 d2 d3 [] w round
  simp only [List.cons_append, List.nil_append] at first second third fourth
  simp only [addRoundKey, first, second, third, fourth, k]

end Columns

/-- Adding a round key twice takes it away. -/
theorem addRoundKey_twice {b : Bytes} (size : b.length = 16) (w : Bytes) (round : Nat) :
    addRoundKey (addRoundKey b w round) w round = b := by
  obtain ⟨b0, b1, b2, b3, b4, b5, b6, b7, b8, b9, b10, b11, b12, b13, b14, b15, rfl⟩ := sixteen size
  have twice (x k : UInt8) : x ^^^ k ^^^ k = x := by rw [UInt8.xor_assoc, UInt8.xor_self, UInt8.xor_zero]
  simp only [addRoundKey_block, twice]

theorem mixColumns_length (state : Bytes) : (mixColumns state).length = state.length := by
  simp only [mixColumns, mixColumn, List.length_set]

theorem invMixColumns_length (state : Bytes) : (invMixColumns state).length = state.length := by
  simp only [invMixColumns, invMixColumn, List.length_set]

section Layers

variable (p : Params)

/-- Replacing the bytes of a block, by tables that undo each other. -/
def subBytesLayer (reads : p.access = accessDirect) : Equiv.Perm Block where
  toFun b := ⟨subBytesSbox p b.val mkSbox, by rw [subBytesSbox, List.length_map, b.property]⟩
  invFun b := ⟨invSubBytesSbox p b.val mkInvSbox, by rw [invSubBytesSbox, List.length_map, b.property]⟩
  left_inv b := by
    apply Subtype.ext
    have undone : accessDirect mkInvSbox ∘ accessDirect mkSbox = id := funext invSbox_sbox
    simp only [invSubBytesSbox, subBytesSbox, reads, List.map_map, undone, List.map_id]
  right_inv b := by
    apply Subtype.ext
    have undone : accessDirect mkSbox ∘ accessDirect mkInvSbox = id := funext sbox_invSbox
    simp only [invSubBytesSbox, subBytesSbox, reads, List.map_map, undone, List.map_id]

/-- Rotating the rows of a block. -/
def shiftRowsLayer : Equiv.Perm Block where
  toFun b := ⟨shiftRows b.val, rfl⟩
  invFun b := ⟨invShiftRows b.val, rfl⟩
  left_inv b := by
    obtain ⟨b, size⟩ := b
    obtain ⟨b0, b1, b2, b3, b4, b5, b6, b7, b8, b9, b10, b11, b12, b13, b14, b15, rfl⟩ := sixteen size
    rfl
  right_inv b := by
    obtain ⟨b, size⟩ := b
    obtain ⟨b0, b1, b2, b3, b4, b5, b6, b7, b8, b9, b10, b11, b12, b13, b14, b15, rfl⟩ := sixteen size
    rfl

/-- Mixing the columns of a block. -/
def mixColumnsLayer : Equiv.Perm Block where
  toFun b := ⟨mixColumns b.val, by rw [mixColumns_length, b.property]⟩
  invFun b := ⟨invMixColumns b.val, by rw [invMixColumns_length, b.property]⟩
  left_inv b := by
    obtain ⟨b, size⟩ := b
    obtain ⟨b0, b1, b2, b3, b4, b5, b6, b7, b8, b9, b10, b11, b12, b13, b14, b15, rfl⟩ := sixteen size
    simp only [mixColumns_block, invMixColumns_block, invMix_mix]
  right_inv b := by
    obtain ⟨b, size⟩ := b
    obtain ⟨b0, b1, b2, b3, b4, b5, b6, b7, b8, b9, b10, b11, b12, b13, b14, b15, rfl⟩ := sixteen size
    simp only [mixColumns_block, invMixColumns_block, mix_invMix]

/-- Adding a round key to a block. -/
def addRoundKeyLayer (w : Bytes) (round : Nat) : Equiv.Perm Block where
  toFun b := ⟨addRoundKey b.val w round, by rw [addRoundKey_length, b.property]⟩
  invFun b := ⟨addRoundKey b.val w round, by rw [addRoundKey_length, b.property]⟩
  left_inv b := by
    apply Subtype.ext
    dsimp only
    exact addRoundKey_twice b.property w round
  right_inv b := by
    apply Subtype.ext
    dsimp only
    exact addRoundKey_twice b.property w round

@[simp] theorem subBytesLayer_val (reads : p.access = accessDirect) (b : Block) :
    (subBytesLayer p reads b).val = subBytesSbox p b.val mkSbox := rfl

@[simp] theorem subBytesLayer_inv_val (reads : p.access = accessDirect) (b : Block) :
    ((subBytesLayer p reads)⁻¹ b).val = invSubBytesSbox p b.val mkInvSbox := rfl

@[simp] theorem shiftRowsLayer_val (b : Block) : (shiftRowsLayer b).val = shiftRows b.val := rfl

@[simp] theorem shiftRowsLayer_inv_val (b : Block) : (shiftRowsLayer⁻¹ b).val = invShiftRows b.val := rfl

@[simp] theorem mixColumnsLayer_val (b : Block) : (mixColumnsLayer b).val = mixColumns b.val := rfl

@[simp] theorem mixColumnsLayer_inv_val (b : Block) : (mixColumnsLayer⁻¹ b).val = invMixColumns b.val := rfl

@[simp] theorem addRoundKeyLayer_val (w : Bytes) (round : Nat) (b : Block) :
    (addRoundKeyLayer w round b).val = addRoundKey b.val w round := rfl

@[simp] theorem addRoundKeyLayer_inv_val (w : Bytes) (round : Nat) (b : Block) :
    ((addRoundKeyLayer w round)⁻¹ b).val = addRoundKey b.val w round := rfl

end Layers

section Rounds

variable (p : Params) (reads : p.access = accessDirect) (w : Bytes)

/-- What the last round does before it adds its key. -/
def lastLayer : Equiv.Perm Block := shiftRowsLayer * subBytesLayer p reads

/-- The first rounds, none of which is the last one. -/
def roundsLayer : Nat → Equiv.Perm Block
  | 0 => 1
  | count + 1 => addRoundKeyLayer w (count + 1) * mixColumnsLayer * lastLayer p reads * roundsLayer count

/-- The whole cipher. -/
def cipherLayer : Equiv.Perm Block :=
  addRoundKeyLayer w p.nr * lastLayer p reads * roundsLayer p reads w (p.nr - 1) * addRoundKeyLayer w 0

/-- The loop of the cipher runs the rounds that are left. -/
theorem cipherLoop_rounds (b : Block) {done rest : Nat} (all : done + rest = p.nr - 1) :
    cipherLoop p (roundsLayer p reads w done b).val w mkSbox rest
      = (roundsLayer p reads w (p.nr - 1) b).val := by
  -- Induction on the number of rounds that are left.
  induction rest generalizing done with
  | zero =>
    have finished : done = p.nr - 1 := by omega
    rw [cipherLoop, finished]
  | succ rest ih =>
    have number : p.nr - (rest + 1) = done + 1 := by omega
    have later := ih (show done + 1 + rest = p.nr - 1 by omega)
    rw [← later, cipherLoop, number]
    simp only [roundsLayer, lastLayer, Equiv.Perm.mul_apply, addRoundKeyLayer_val, mixColumnsLayer_val,
      shiftRowsLayer_val, subBytesLayer_val]

/-- The cipher is its layers, one after another. -/
theorem cipher_layers (b : Block) : cipher p b.val w mkSbox = (cipherLayer p reads w b).val := by
  have loop := cipherLoop_rounds p reads w (addRoundKeyLayer w 0 b) (Nat.zero_add (p.nr - 1))
  simp only [roundsLayer, Equiv.Perm.one_apply, addRoundKeyLayer_val] at loop
  simp only [cipher, loop, cipherLayer, lastLayer, Equiv.Perm.mul_apply, addRoundKeyLayer_val,
    shiftRowsLayer_val, subBytesLayer_val]

/--
The loop of the inverse cipher undoes the rounds.

Its rounds are cut elsewhere: it undoes the last layer of the next round before it undoes a key, so it starts and ends
between the two halves of a round.
-/
theorem invCipherLoop_rounds (b : Block) (count : Nat) :
    invCipherLoop p b.val w mkInvSbox count
      = ((lastLayer p reads * (roundsLayer p reads w count)⁻¹ * (lastLayer p reads)⁻¹) b).val := by
  -- Induction on the number of rounds that are undone, the last of them first.
  induction count generalizing b with
  | zero => simp [invCipherLoop, roundsLayer]
  | succ count ih =>
    have state : invMixColumns (addRoundKey (invSubBytesSbox p (invShiftRows b.val) mkInvSbox) w (count + 1))
        = ((mixColumnsLayer⁻¹ * (addRoundKeyLayer w (count + 1))⁻¹ * (lastLayer p reads)⁻¹) b).val := by
      simp only [lastLayer, mul_inv_rev, Equiv.Perm.mul_apply, mixColumnsLayer_inv_val, addRoundKeyLayer_inv_val,
        subBytesLayer_inv_val, shiftRowsLayer_inv_val]
    have regrouped : lastLayer p reads * (roundsLayer p reads w count)⁻¹ * (lastLayer p reads)⁻¹
          * (mixColumnsLayer⁻¹ * (addRoundKeyLayer w (count + 1))⁻¹ * (lastLayer p reads)⁻¹)
        = lastLayer p reads * (roundsLayer p reads w (count + 1))⁻¹ * (lastLayer p reads)⁻¹ := by
      rw [roundsLayer]
      group
    rw [invCipherLoop, state, ih, ← Equiv.Perm.mul_apply, regrouped]

/-- The inverse cipher is the inverse of the layers of the cipher. -/
theorem invCipher_layers (b : Block) : invCipher p b.val w mkInvSbox = ((cipherLayer p reads w)⁻¹ b).val := by
  have loop := invCipherLoop_rounds p reads w ((addRoundKeyLayer w p.nr)⁻¹ b) (p.nr - 1)
  rw [addRoundKeyLayer_inv_val] at loop
  have regrouped : (cipherLayer p reads w)⁻¹
      = (addRoundKeyLayer w 0)⁻¹ * (lastLayer p reads)⁻¹
        * (lastLayer p reads * (roundsLayer p reads w (p.nr - 1))⁻¹ * (lastLayer p reads)⁻¹)
        * (addRoundKeyLayer w p.nr)⁻¹ := by
    rw [cipherLayer]
    group
  rw [regrouped, Equiv.Perm.mul_apply, Equiv.Perm.mul_apply, Equiv.Perm.mul_apply, addRoundKeyLayer_inv_val]
  rw [invCipher, loop, lastLayer]
  rfl

end Rounds

/-- Under an expanded key, each of the two ciphers undoes the other one, and the blocks are permuted. -/
structure Permutes (p : Params) (w : Bytes) : Prop where
  undone : ∀ b : Bytes, b.length = 16 → invCipher p (cipher p b w mkSbox) w mkInvSbox = b
  redone : ∀ b : Bytes, b.length = 16 → cipher p (invCipher p b w mkInvSbox) w mkSbox = b
  permutation : Set.BijOn (fun b => cipher p b w mkSbox) {b | b.length = 16} {b | b.length = 16}

/-- Whatever the number of rounds and the expanded key are, the blocks are permuted. -/
theorem permutes_of_access (p : Params) (reads : p.access = accessDirect) (w : Bytes) : Permutes p w := by
  have undone (b : Bytes) (size : b.length = 16) :
      invCipher p (cipher p b w mkSbox) w mkInvSbox = b := by
    rw [cipher_layers p reads w ⟨b, size⟩, invCipher_layers p reads w, Equiv.Perm.inv_def, Equiv.symm_apply_apply]
  have redone (b : Bytes) (size : b.length = 16) :
      cipher p (invCipher p b w mkInvSbox) w mkSbox = b := by
    rw [invCipher_layers p reads w ⟨b, size⟩, cipher_layers p reads w, Equiv.Perm.inv_def, Equiv.apply_symm_apply]
  refine ⟨undone, redone, ?_, ?_, ?_⟩
  · intro b _
    exact cipher_length p b w mkSbox
  · intro b sizeB c sizeC same
    calc b = invCipher p (cipher p b w mkSbox) w mkInvSbox := (undone b sizeB).symm
      _ = invCipher p (cipher p c w mkSbox) w mkInvSbox := by rw [show cipher p b w mkSbox = _ from same]
      _ = c := undone c sizeC
  · intro b size
    refine ⟨invCipher p b w mkInvSbox, ?_, redone b size⟩
    rw [invCipher_layers p reads w ⟨b, size⟩]
    exact Subtype.property _

/-- Both flags read the same entries of the table. -/
theorem access_direct (fl : Flags) :
    (if fl.aesCt then accessScan else accessDirect) = accessDirect := by
  rw [accessScan_eq, ite_self]

/-- For every key, AES-256 and AES-128 permute the blocks, and their inverse ciphers undo them. -/
theorem aes_permutes (fl : Flags) :
    (∀ key : Bytes, key.length = 32 → Permutes (aes256 fl) (keyExpansion (aes256 fl) key mkSbox))
    ∧ (∀ key : Bytes, key.length = 16 → Permutes (aes128 fl) (keyExpansion (aes128 fl) key mkSbox)) := by
  constructor
  · intro key _
    exact permutes_of_access (aes256 fl) (access_direct fl) _
  · intro key _
    exact permutes_of_access (aes128 fl) (access_direct fl) _

theorem aes_permutes_zero :
    (List.replicate 32 (0 : UInt8)).length = 32 ∧ (List.replicate 16 (0 : UInt8)).length = 16
    ∧ Permutes (aes256 Flags.real) (keyExpansion (aes256 Flags.real) (List.replicate 32 0) mkSbox)
    ∧ Permutes (aes128 Flags.real) (keyExpansion (aes128 Flags.real) (List.replicate 16 0) mkSbox) :=
  ⟨by decide, by decide, (aes_permutes Flags.real).1 _ (by decide), (aes_permutes Flags.real).2 _ (by decide)⟩

end HaclStar.Correctness.AES
