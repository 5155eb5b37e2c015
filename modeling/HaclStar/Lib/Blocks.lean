import HaclStar.Lib.Endianness

/-! Folding a step over the blocks of a byte string, the same however the string is split. -/

namespace Blocks

open Endianness

variable {σ : Type}

/-- Fold a step over the first `n` blocks of a byte string, from the first block on. -/
def foldBlocks (size : Nat) (step : σ → Bytes → σ) : Nat → σ → Bytes → σ
  | 0, s, _ => s
  | n + 1, s, bytes => foldBlocks size step n (step s (bytes.take size)) (bytes.drop size)

variable {size : Nat} {step : σ → Bytes → σ}

/-- Whole blocks in front are folded first. -/
theorem foldBlocks_append (n m : Nat) (s : σ) (first second : Bytes)
    (whole : first.length = size * n) :
    foldBlocks size step (n + m) s (first ++ second) =
      foldBlocks size step m (foldBlocks size step n s first) second := by
  -- Induction on the number of blocks in front: the first one leaves both strings.
  induction n generalizing s first with
  | zero =>
    have none : first = [] := List.eq_nil_of_length_eq_zero (by rw [whole, Nat.mul_zero])
    rw [none, Nat.zero_add, List.nil_append]
    rfl
  | succ n ih =>
    rw [Nat.mul_succ] at whole
    rw [Nat.succ_add, foldBlocks, foldBlocks, List.take_append_of_le_length (by omega),
      List.drop_append_of_le_length (by omega), ih _ _ (by rw [List.length_drop]; omega)]

/-- The bytes behind the blocks that are folded do not matter. -/
theorem foldBlocks_take (n : Nat) (s : σ) (bytes : Bytes) (enough : size * n ≤ bytes.length) :
    foldBlocks size step n s (bytes.take (size * n)) = foldBlocks size step n s bytes := by
  have split : foldBlocks size step (n + 0) s (bytes.take (size * n) ++ bytes.drop (size * n)) = _ :=
    foldBlocks_append n 0 s _ _ (by rw [List.length_take]; omega)
  rw [List.take_append_drop] at split
  exact split.symm

/-- One block is one step. -/
theorem foldBlocks_one (s : σ) (block : Bytes) (whole : block.length = size) :
    foldBlocks size step 1 s block = step s block := by
  rw [foldBlocks, foldBlocks, List.take_of_length_le whole.le]

/-- One more block is folded last. -/
theorem foldBlocks_succ (n : Nat) (s : σ) (bytes : Bytes) (enough : size * (n + 1) ≤ bytes.length) :
    foldBlocks size step (n + 1) s bytes =
      step (foldBlocks size step n s bytes) ((bytes.drop (size * n)).take size) := by
  rw [Nat.mul_succ] at enough
  have whole : (bytes.take (size * n)).length = size * n := by rw [List.length_take]; omega
  have joined : bytes.take (size * n) ++ (bytes.drop (size * n)).take size =
      bytes.take (size * (n + 1)) := by rw [Nat.mul_succ, List.take_add]
  rw [← foldBlocks_take (n + 1) s bytes (by rw [Nat.mul_succ]; omega), ← joined,
    foldBlocks_append n 1 s _ _ whole, foldBlocks_take n s bytes (by omega),
    foldBlocks_one _ _ (by rw [List.length_take, List.length_drop]; omega)]

/-- Fold a step over all blocks of a byte string. -/
def foldAll (size : Nat) (step : σ → Bytes → σ) (s : σ) (bytes : Bytes) : σ :=
  foldBlocks size step (bytes.length / size) s bytes

@[simp] theorem foldAll_nil (s : σ) : foldAll size step s [] = s := by
  rw [foldAll, List.length_nil, Nat.zero_div, foldBlocks]

/-- Folding over whole blocks and then over the rest folds over their concatenation. -/
theorem foldAll_append (positive : 0 < size) (s : σ) (first second : Bytes)
    (whole : first.length % size = 0) :
    foldAll size step s (first ++ second) = foldAll size step (foldAll size step s first) second := by
  have exact := Nat.mul_div_cancel' (Nat.dvd_of_mod_eq_zero whole)
  have number : (first ++ second).length / size = first.length / size + second.length / size := by
    rw [List.length_append, ← exact, Nat.mul_add_div positive, Nat.mul_div_cancel_left _ positive]
  rw [foldAll, number, foldBlocks_append _ _ _ _ _ exact.symm, foldAll, foldAll]

/-- Folding over one block is one step. -/
theorem foldAll_block (positive : 0 < size) (s : σ) (block : Bytes) (whole : block.length = size) :
    foldAll size step s block = step s block := by
  rw [foldAll, whole, Nat.div_self positive, foldBlocks_one s block whole]

end Blocks
