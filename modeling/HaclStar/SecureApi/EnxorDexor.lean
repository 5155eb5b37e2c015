import HaclStar.SecureApi.Encoding
import HaclStar.SecureApi.PRF

/-! Encryption and decryption block by block, at the counters behind the authenticator's. -/

namespace HaclStar.SecureApi

open Endianness Keystream Memory PRF

/-- The counter of the first block of a text. -/
def otpOffset (i : Id) : UInt32 := ctr0 i + 1

def maxplain : Nat := 2 ^ 14

/-- The number of blocks of a text. -/
def numBlocksForLen (i : Id) (l : Nat) : Nat := (l + blocklen i - 1) / blocklen i

/-- The rest of a plaintext is not too large. -/
def safelen (i : Id) (remainingLen : Nat) (nextBlockIndex : UInt32) : Bool :=
  ctr0 i < nextBlockIndex && nextBlockIndex ≤ maxCtr i &&
  (let lenAllBlocksSoFar := (nextBlockIndex - ctr0 i - 1).toNat * blocklen i
  let maxLenForRemainingBlocks := (maxCtr i - nextBlockIndex).toNat * blocklen i
  remainingLen = 0 ||
    (remainingLen + lenAllBlocksSoFar ≤ maxplain && remainingLen ≤ maxLenForRemainingBlocks))

/-- The lengths that the types of encryption and decryption admit for a plaintext. -/
def nzOkLen (i : Id) (plainlen : Nat) : Bool :=
  plainlen ≤ Encoding.txtmax && safelen i plainlen (otpOffset i) && plainlen ≠ 0

namespace EnxorDexor

section

variable {i : Id}

/-- Process the blocks of one buffer to the other, from a position in both to their end. -/
def counterLoop (step : Domain → Nat → Bytes → World i → Option (Bytes × World i)) (x : Domain)
    (len remainingLen : Nat) (input output : Bytes) (w : World i) : Option (Bytes × World i) :=
  if remainingLen = 0 then some (output, w)
  else do
    let startingPos := len - remainingLen
    let l := min remainingLen (blocklen i)
    let inputHd := (input.drop startingPos).take l
    let (outputHd, w) ← step x l inputHd w
    let output := splice output startingPos outputHd
    let y := incr x
    counterLoop step y len (remainingLen - l) input output w
termination_by remainingLen
decreasing_by have positive := blocklen_pos i; omega

variable (fl : Flags) (coins : Coins) (key : Bytes)

def counterEnxor (x : Domain) (len remainingLen : Nat) (plain cipher : Bytes) (w : World i) :
    Option (Bytes × World i) :=
  counterLoop (prfEnxor fl coins key) x len remainingLen plain cipher w

def counterDexor (x : Domain) (len remainingLen : Nat) (plain cipher : Bytes) (w : World i) :
    Option (Bytes × World i) :=
  counterLoop (prfDexor fl coins key) x len remainingLen cipher plain w

/-- Encrypt a plaintext. -/
def enxor (iv : Cipher.Iv) (plain cipher : Bytes) (w : World i) : Option (Bytes × World i) :=
  let x : Domain := ⟨iv, otpOffset i⟩
  counterEnxor fl coins key x plain.length plain.length plain cipher w

/-- Decrypt a ciphertext. -/
def dexor (iv : Cipher.Iv) (plain cipher : Bytes) (w : World i) : Option (Bytes × World i) :=
  let x1 : Domain := ⟨iv, otpOffset i⟩
  counterDexor fl coins key x1 plain.length plain.length plain cipher w

end

/-- The points of consecutive blocks. -/
def points (n : Cipher.Iv) (start : UInt32) (count : Nat) : List Domain :=
  (List.range count).map fun j => ⟨n, start + UInt32.ofNat j⟩

variable {i : Id} {fl : Flags} {coins : Coins} {key input output : Bytes} {n : Cipher.Iv} {start : UInt32}
  {w : World i} {step : Domain → Nat → Bytes → World i → Option (Bytes × World i)}

theorem points_succ (n : Cipher.Iv) (start : UInt32) (count : Nat) :
    points n start (count + 1) = points n start count ++ [⟨n, start + UInt32.ofNat count⟩] := by
  simp [points, List.range_succ]

/-- Whole blocks are counted by their number. -/
theorem numBlocksForLen_whole (i : Id) (j : Nat) : numBlocksForLen i (j * blocklen i) = j := by
  have positive := blocklen_pos i
  rw [numBlocksForLen, Nat.add_sub_assoc positive, Nat.mul_comm, Nat.mul_add_div positive,
    Nat.div_eq_of_lt (by omega), Nat.add_zero]

/-- A last block, whole or partial, counts as one. -/
theorem numBlocksForLen_last (i : Id) (j : Nat) {l : Nat} (some : 0 < l) (short : l ≤ blocklen i) :
    numBlocksForLen i (j * blocklen i + l) = j + 1 := by
  have positive := blocklen_pos i
  have cut : j * blocklen i + l + blocklen i - 1 = blocklen i * (j + 1) + (l - 1) := by
    rw [Nat.mul_add, Nat.mul_comm]
    omega
  rw [numBlocksForLen, cut, Nat.mul_add_div positive, Nat.div_eq_of_lt (by omega), Nat.add_zero]

/-- What a block can do: it is written behind the blocks before it. -/
def Advances (step : Domain → Nat → Bytes → World i → Option (Bytes × World i)) (n : Cipher.Iv) (start : UInt32)
    (input : Bytes) (P : Bytes → World i → Prop) : Prop :=
  ∀ j written w, written.length = j * blocklen i → written.length < input.length → P written w →
    ∃ bytes w', step ⟨n, start + UInt32.ofNat j⟩ (min (input.length - written.length) (blocklen i))
        ((input.drop written.length).take (min (input.length - written.length) (blocklen i))) w = some (bytes, w') ∧
      bytes.length = min (input.length - written.length) (blocklen i) ∧ P (written ++ bytes) w'

/-- What every block preserves holds of all that is written. -/
theorem counterLoop_run {P : Bytes → World i → Prop} (advances : Advances step n start input P)
    (size : output.length = input.length) (before : P [] w) :
    ∃ result w', counterLoop step ⟨n, start⟩ input.length input.length input output w = some (result, w') ∧
      result.length = input.length ∧ P result w' := by
  -- The blocks written so far are followed by what the output held before.
  have rule : ∀ remaining j written rest w, remaining = rest.length →
      written.length + rest.length = input.length → (rest.length = 0 ∨ written.length = j * blocklen i) →
      P written w → ∃ result w',
        counterLoop step ⟨n, start + UInt32.ofNat j⟩ input.length remaining input (written ++ rest) w =
          some (result, w') ∧ result.length = input.length ∧ P result w' := by
    intro remaining
    induction remaining using Nat.strong_induction_on with
    | _ remaining ih =>
      intro j written rest w rem total whole holds
      by_cases done : remaining = 0
      · have none : rest = [] := List.eq_nil_of_length_eq_zero (by omega)
        subst none
        exact ⟨written, w, by rw [counterLoop, if_pos done, List.append_nil], total, holds⟩
      · have positive := blocklen_pos i
        obtain ⟨bytes, w', ran, width, holds'⟩ := advances j written w (by omega) (by omega) holds
        have left : input.length - written.length = remaining := by omega
        have pos : input.length - remaining = written.length := by omega
        rw [left] at ran width
        -- The new block replaces the first bytes of the rest.
        have spliced : splice (written ++ rest) written.length bytes =
            (written ++ bytes) ++ rest.drop bytes.length := by
          rw [splice, List.take_left, List.drop_append, Nat.add_sub_cancel_left,
            List.drop_eq_nil_of_le (Nat.le_add_right _ _), List.nil_append]
        have next : incr ⟨n, start + UInt32.ofNat j⟩ = ⟨n, start + UInt32.ofNat (j + 1)⟩ := by
          rw [incr, UInt32.ofNat_add, UInt32.add_assoc]
          rfl
        have drop : (rest.drop bytes.length).length = remaining - min remaining (blocklen i) := by
          rw [List.length_drop, width, ← rem]
        obtain ⟨result, w'', ran', size', holds''⟩ := ih (remaining - min remaining (blocklen i)) (by omega) (j + 1)
          (written ++ bytes) (rest.drop bytes.length) w' drop.symm
          (by rw [List.length_append, drop, width]; omega)
          (by rw [List.length_append, drop, width, Nat.succ_mul]; omega) holds'
        refine ⟨result, w'', ?_, size', holds''⟩
        rw [counterLoop, if_neg done]
        simp only [pos, ran, Option.bind_eq_bind, Option.bind_some, spliced, next, ran']
  have whole := rule input.length 0 [] output w size.symm (by rw [List.length_nil, size, Nat.zero_add])
    (Or.inr (by simp)) before
  simpa using whole

/-- With a concrete cipher, a block is combined with the block at its point. -/
theorem prfBlk_real (clear : fl.prf i = false) (size : key.length = statelen i) (x : Domain) {len : Nat}
    (short : len ≤ blocklen i) (w : World i) :
    prfBlk fl coins key x len w = some ((Cipher.block fl i key x.iv x.ctr).take len,
      { w with requested := w.requested ++ [x] }) := by
  simp [prfBlk, clear, getBlock_run fl size x short]

/-- The keystream of an initialization vector. -/
def pad (fl : Flags) (i : Id) (key : Bytes) (n : Cipher.Iv) (start : UInt32) : Nat → UInt8 :=
  keystream (fun c => Cipher.block fl i key n (UInt32.ofNat c)) (blocklen i) start.toNat

/-- A block function combines each block with the concrete block at its point. -/
def Combines (fl : Flags) (key : Bytes) (step : Domain → Nat → Bytes → World i → Option (Bytes × World i)) : Prop :=
  ∀ x chunk w, chunk.length ≤ blocklen i → step x chunk.length chunk w =
    some (xor chunk (Cipher.block fl i key x.iv x.ctr), { w with requested := w.requested ++ [x] })

theorem prfEnxor_combines (clear : fl.prf i = false) (size : key.length = statelen i) :
    Combines fl key (prfEnxor (i := i) fl coins key) := by
  intro x chunk w short
  simp [prfEnxor, Flags.safeId_of_not_prf clear, prfBlk_real clear size x short, xor_comm _ chunk, xor_take]

theorem prfDexor_combines (clear : fl.prf i = false) (size : key.length = statelen i) :
    Combines fl key (prfDexor (i := i) fl coins key) := by
  intro x chunk w short
  simp [prfDexor, Flags.safeId_of_not_prf clear, prfBlk_real clear size x short, xor_comm _ chunk, xor_take]

/-- A text is combined with the keystream, and each of its points is requested once. -/
theorem counterLoop_combines (combines : Combines fl key step) (size : output.length = input.length) :
    counterLoop step ⟨n, start⟩ input.length input.length input output w =
      some (xorStream (pad fl i key n start) input,
        { w with requested := w.requested ++ points n start (numBlocksForLen i input.length) }) := by
  have advances : Advances step n start input fun written w' =>
      written = xorStream (pad fl i key n start) (input.take written.length) ∧
      w' = { w with requested := w.requested ++ points n start (numBlocksForLen i written.length) } := by
    intro j written w' whole inside holds
    obtain ⟨same, rfl⟩ := holds
    have positive := blocklen_pos i
    set l := min (input.length - written.length) (blocklen i) with l_def
    set chunk := (input.drop written.length).take l with chunk_def
    have width : chunk.length = l := by rw [chunk_def, List.length_take, List.length_drop]; omega
    have ran := combines ⟨n, start + UInt32.ofNat j⟩ chunk
      { w with requested := w.requested ++ points n start (numBlocksForLen i written.length) } (by omega)
    have block := Cipher.block_length fl i key n (start + UInt32.ofNat j)
    -- The keystream enters the block at its first byte.
    have shifted : (fun k => pad fl i key n start (written.length + k)) =
        keystream (fun c => Cipher.block fl i key n (UInt32.ofNat c)) (blocklen i) (start.toNat + j) := by
      funext k
      rw [pad, whole, Nat.mul_comm, keystream_shift positive]
    have counter : UInt32.ofNat (start.toNat + j) = start + UInt32.ofNat j := by
      rw [UInt32.ofNat_add, UInt32.ofNat_toNat]
    have here : xorStream (fun k => pad fl i key n start (written.length + k)) chunk =
        xor chunk (Cipher.block fl i key n (start + UInt32.ofNat j)) := by
      rw [shifted, xorStream_block (by rw [counter]; exact block) (by rw [width]; exact Nat.min_le_right _ _), counter]
    have size' : (xor chunk (Cipher.block fl i key n (start + UInt32.ofNat j))).length = l := by
      rw [xor_length, block, width]
      exact Nat.min_eq_left (Nat.min_le_right _ _)
    rw [width] at ran
    refine ⟨_, _, ran, size', ?_, ?_⟩
    · rw [List.length_append, size', List.take_add, xorStream_append, ← same, List.length_take,
        Nat.min_eq_left inside.le, ← chunk_def, here]
    · rw [List.length_append, size', whole, numBlocksForLen_whole, numBlocksForLen_last i j (by omega) (by omega),
        points_succ, List.append_assoc]
  have start : (([] : Bytes) = xorStream (pad fl i key n start) (input.take 0)) ∧
      w = { w with requested := w.requested ++ points n start (numBlocksForLen i 0) } := by
    have none : numBlocksForLen i 0 = 0 := by simpa using numBlocksForLen_whole i 0
    rw [none]
    simp [points]
  obtain ⟨result, w', ran, size', same, rfl⟩ := counterLoop_run advances size start
  rw [ran, size', List.take_length] at *
  rw [← same, size']

end EnxorDexor

end HaclStar.SecureApi
