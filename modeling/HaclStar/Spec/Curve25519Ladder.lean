import HaclStar.Spec.Field25519

/-! The ladder of the specification as a run of steps over two accumulators. -/

namespace HaclStar.Spec.Curve25519

open Endianness

/-- One step of the ladder: the bit says which accumulator is doubled. -/
def ladderStep (init : Int) (bit : Nat) (s : ProjPoint × ProjPoint) : ProjPoint × ProjPoint :=
  if bit = 1 then
    let r := addAndDouble init s.2 s.1
    (r.2, r.1)
  else addAndDouble init s.1 s.2

/-- The steps for the bits below `ctr`, the highest one first. -/
def ladderFrom (init : Int) (k : Bytes) (s : ProjPoint × ProjPoint) : Nat → ProjPoint × ProjPoint
  | 0 => s
  | ctr + 1 => ladderFrom init k (ladderStep init (ithBit k ctr) s) ctr

theorem ithBit_of_byte (k : Bytes) (i : Nat) {r : Nat} (lt : r < 8) :
    ithBit k (8 * i + r) = (k.getD i 0).toNat / 2 ^ r % 2 := by
  have byte : (8 * i + r) / 8 = i := by omega
  have bit : (8 * i + r) % 8 = r := by omega
  simp only [ithBit, byte, bit]

/-- The ladder returns the first accumulator. -/
theorem ladder_returns_first (init : Int) (k : Bytes) (x xp1 : ProjPoint) (ctr : Nat) :
    montgomeryLadder_ init x xp1 k ctr = (ladderFrom init k (x, xp1) ctr).1 := by
  -- Induction on the bits that are left.
  induction ctr generalizing x xp1 with
  | zero => rfl
  | succ ctr ih =>
    by_cases bit : ithBit k ctr = 1
    · simp only [montgomeryLadder_, ladderFrom, ladderStep, if_pos bit]
      exact ih _ _
    · simp only [montgomeryLadder_, ladderFrom, ladderStep, if_neg bit]
      exact ih _ _

theorem montgomeryLadder_eq (init : Int) (k : Bytes) :
    montgomeryLadder init k = (ladderFrom init k (⟨1, 0⟩, ⟨init, 1⟩) 256).1 :=
  ladder_returns_first init k _ _ 256

/-- The bits of a string are those of the number it encodes. -/
theorem ithBit_eq (k : Bytes) (i : Nat) : ithBit k i = littleEndian k / 2 ^ i % 2 := by
  rw [← Nat.toNat_testBit, littleEndian_testBit, Nat.toNat_testBit, ithBit]

/-- The accumulators after some of the highest bits. -/
def ladderTop (init : Int) (k : Bytes) : Nat → ProjPoint × ProjPoint
  | 0 => (⟨1, 0⟩, ⟨init, 1⟩)
  | n + 1 => ladderStep init (ithBit k (255 - n)) (ladderTop init k n)

/-- The steps that are left lead to the same accumulators. -/
theorem ladderFrom_top (init : Int) (k : Bytes) {n : Nat} (within : n ≤ 256) :
    ladderFrom init k (ladderTop init k n) (256 - n) = ladderFrom init k (⟨1, 0⟩, ⟨init, 1⟩) 256 := by
  induction n with
  | zero => rfl
  | succ n ih =>
    have left : 256 - n = 256 - (n + 1) + 1 := by omega
    have position : 256 - (n + 1) = 255 - n := by omega
    rw [← ih (by omega), left, ladderFrom, ladderTop, position]

theorem montgomeryLadder_top (init : Int) (k : Bytes) : montgomeryLadder init k = (ladderTop init k 256).1 := by
  rw [montgomeryLadder_eq, ← ladderFrom_top init k le_rfl, Nat.sub_self, ladderFrom]

/-- The coordinates that a step yields are residues. -/
theorem reduced_ladderStep (init : Int) (bit : Nat) (s : ProjPoint × ProjPoint) :
    (ladderStep init bit s).1.Reduced ∧ (ladderStep init bit s).2.Reduced := by
  by_cases one : bit = 1
  · rw [ladderStep, if_pos one]
    exact (reduced_addAndDouble init s.2 s.1).symm
  · rw [ladderStep, if_neg one]
    exact reduced_addAndDouble init s.1 s.2

theorem reduced_montgomeryLadder (init : Int) (k : Bytes) : (montgomeryLadder init k).Reduced := by
  rw [montgomeryLadder_top, ladderTop]
  exact (reduced_ladderStep init _ _).1

end HaclStar.Spec.Curve25519
