import HaclStar.Impl.Policies
import HaclStar.Lib.Arrays

/-! The comparison of byte strings reads the bytes below the length it is given, and tells whether they agree. -/

namespace HaclStar.Correctness.Policies

open Endianness Memory
open HaclStar.Impl.Policies

/-- The mask as the C library computes it: equal bytes leave ones, which spread to the sign bit unless one is clear. -/
def uint8EqMask (x y : BitVec 8) : BitVec 8 :=
  let x := ~~~(x ^^^ y)
  let x := x &&& x <<< 4
  let x := x &&& x <<< 2
  let x := x &&& x <<< 1
  x.sshiftRight 7

/-- The mask is the one that the comparison relies on. -/
theorem uint8EqMask_eq (a b : UInt8) : uint8EqMask a.toBitVec b.toBitVec = (eqMask a b).toBitVec := by
  -- Only the bits where the bytes differ matter.
  have all (d : BitVec 8) : uint8EqMask d 0#8 = if d = 0 then 255 else 0 := by
    decide +revert
  have sum : uint8EqMask a.toBitVec b.toBitVec = uint8EqMask (a.toBitVec ^^^ b.toBitVec) 0#8 := by
    simp only [uint8EqMask, BitVec.xor_zero]
  have same : a.toBitVec ^^^ b.toBitVec = 0 ↔ a = b :=
    BitVec.xor_eq_zero_iff.trans UInt8.toBitVec_inj
  rw [sum, all, eqMask]
  by_cases equal : a = b
  · rw [if_pos (same.mpr equal), if_pos equal]
    rfl
  · rw [if_neg (mt same.mp equal), if_neg equal]
    rfl

/-- First parts are equal when their bytes are. -/
theorem take_eq_iff {x y : Bytes} {len : Nat} (fits : len ≤ x.length) (fits' : len ≤ y.length) :
    x.take len = y.take len ↔ ∀ i < len, x.getD i 0 = y.getD i 0 := by
  have first {z : Bytes} (fits : len ≤ z.length) {i : Nat} (below : i < len) : (z.take len).getD i 0 = z.getD i 0 := by
    simp only [List.getD_eq_getElem?_getD, List.getElem?_take_of_lt below]
  constructor
  · intro same i below
    rw [← first fits below, same, first fits' below]
  · intro same
    refine List.ext_getElem (by rw [List.length_take, List.length_take]; omega) fun i inside inside' => ?_
    have below : i < len := by
      rw [List.length_take] at inside
      omega
    rw [← List.getD_eq_getElem _ 0 inside, ← List.getD_eq_getElem _ 0 inside', first fits below, first fits' below]
    exact same i below

variable {h : Mem} {b1 b2 : Buffer}

/-- A length beyond one of the strings makes the comparison read outside it. -/
theorem cmpBytes_fault {len : Nat} (beyond : b1.length < len ∨ b2.length < len) : cmpBytes b1 b2 len h = none := by
  -- The step at the end of the shorter string faults, whatever the steps before it have left.
  have faults (i : Nat) (below : i < len) (outside : b1.length ≤ i ∨ b2.length ≤ i) (s : UInt8) :
      cmpBytes_ b1 b2 len s h = none := by
    refine forLoop_fault_of (fun _ => True) below (fun _ _ _ _ _ _ _ => trivial) (fun z m _ => ?_) s trivial
    have index_none {b : Buffer} (outside : b.length ≤ i) (m : Mem) : b.index i m = none :=
      if_neg fun ⟨_, inside⟩ => absurd inside (by omega)
    rcases outside with outside | outside
    · exact Stack.bind_fault (index_none outside m) _
    · exact Stack.bind_fault_of_forall _ fun x m' => Stack.bind_fault (index_none outside m') _
  have loop : cmpBytes_ b1 b2 len 255 h = none := by
    rcases beyond with short | short
    · exact faults b1.length short (.inl le_rfl) 255
    · exact faults b2.length short (.inr le_rfl) 255
  exact Stack.bind_fault loop _

/-- The result is zero when the first bytes are equal, and ones otherwise; the bytes read are those below the length. -/
theorem cmpBytes_decides (live : h.Live b1) (live' : h.Live b2) (len : Nat) :
    (len ≤ b1.length ∧ len ≤ b2.length → ∃ z, cmpBytes b1 b2 len h = some (z, h) ∧
      (z = 0 ↔ ∀ i < len, (h.read b1).getD i 0 = (h.read b2).getD i 0) ∧ (z ≠ 0 → z = 255)) ∧
      ((cmpBytes b1 b2 len h).isSome ↔ len ≤ b1.length ∧ len ≤ b2.length) := by
  have run (fits : len ≤ b1.length ∧ len ≤ b2.length) := cmpBytes_run len live live' fits.1 fits.2
  constructor
  · intro fits
    refine ⟨_, run fits, ?_, ?_⟩
    · rw [← take_eq_iff (by rw [Mem.read_length live]; exact fits.1) (by rw [Mem.read_length live']; exact fits.2)]
      split <;> simp_all
    · split <;> simp_all
  · constructor
    · intro returns
      by_contra outside
      rw [cmpBytes_fault (by omega)] at returns
      exact absurd returns (by decide)
    · intro fits
      rw [run fits]
      rfl

theorem cmpBytes_decides_last : (cmpBytes ⟨0, 0, 2⟩ ⟨0, 2, 2⟩ 2 [[1, 2, 1, 3]]).isSome :=
  (cmpBytes_decides (by decide) (by decide) 2).2.mpr (by decide)

end HaclStar.Correctness.Policies
