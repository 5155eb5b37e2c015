import HaclStar.Lib.Stack

/-! Comparison of byte buffers without branching on their bytes. -/

namespace HaclStar.Impl.Policies

open Endianness Memory

/-- Ones when the bytes are equal. -/
def eqMask (a b : UInt8) : UInt8 := if a = b then 0xff else 0

/-- Keep the mask while the bytes agree.
The mask lives in a byte of its own, which is the state of the loop. -/
def cmpBytes_ (b1 b2 : Buffer) (len : Nat) (tmp : UInt8) : Stack UInt8 :=
  forLoop (fun i z0 => do
    let bi1 ← b1.index i
    let bi2 ← b2.index i
    return eqMask bi1 bi2 &&& z0) len tmp

/-- Zero when the first `len` bytes agree. -/
def cmpBytes (b1 b2 : Buffer) (len : Nat) : Stack UInt8 := do
  let z ← cmpBytes_ b1 b2 len 255
  return ~~~z

/-- One more byte agrees when the bytes before it and the byte itself do. -/
private theorem take_succ_eq {x y : Bytes} {i : Nat} (inside : i < x.length) (inside' : i < y.length) :
    x.take (i + 1) = y.take (i + 1) ↔ x.getD i 0 = y.getD i 0 ∧ x.take i = y.take i := by
  have last : x.getD i 0 = x[i] := List.getD_eq_getElem _ _ inside
  have last' : y.getD i 0 = y[i] := List.getD_eq_getElem _ _ inside'
  rw [last, last', List.take_succ_eq_append_getElem inside, List.take_succ_eq_append_getElem inside']
  constructor
  · intro same
    have sizes : (x.take i).length = (y.take i).length := by
      rw [List.length_take, List.length_take]; omega
    obtain ⟨before, same'⟩ := List.append_inj same sizes
    exact ⟨by simpa using same', before⟩
  · rintro ⟨same, before⟩
    rw [before, same]

/-- The mask is ones as long as the bytes compared so far agree. -/
theorem mask_run {h : Mem} {b1 b2 : Buffer} (len : Nat) (live : h.Live b1) (live' : h.Live b2)
    (fits : len ≤ b1.length) (fits' : len ≤ b2.length) :
    cmpBytes_ b1 b2 len 255 h =
      some (if (h.read b1).take len = (h.read b2).take len then 255 else 0, h) := by
  have size := Mem.read_length live
  have size' := Mem.read_length live'
  -- One more byte keeps the mask when it agrees, and clears it otherwise.
  obtain ⟨z, mask, ran⟩ := forLoop_reads (h := h) (n := len) (s := 255)
    (f := fun i z0 => do
      let bi1 ← b1.index i
      let bi2 ← b2.index i
      return eqMask bi1 bi2 &&& z0)
    (fun i z => z = if (h.read b1).take i = (h.read b2).take i then 255 else 0)
    (by
      rintro i z below rfl
      refine ⟨_, ?_, by rw [Stack.bind_run (Buffer.index_run live (by omega)),
        Stack.bind_run (Buffer.index_run live' (by omega)), Stack.pure_run]⟩
      have more := take_succ_eq (x := h.read b1) (y := h.read b2) (i := i) (by omega) (by omega)
      unfold eqMask
      split_ifs <;> first | rfl | (exfalso; tauto))
    (by simp)
  rw [← mask]
  exact ran

/-- The comparison reads both views, and tells whether their first bytes agree. -/
theorem cmpBytes_run {h : Mem} {b1 b2 : Buffer} (len : Nat) (live : h.Live b1) (live' : h.Live b2)
    (fits : len ≤ b1.length) (fits' : len ≤ b2.length) :
    cmpBytes b1 b2 len h =
      some (if (h.read b1).take len = (h.read b2).take len then 0 else 255, h) := by
  rw [cmpBytes, Stack.bind_run (mask_run len live live' fits fits'), Stack.pure_run]
  split <;> rfl

end HaclStar.Impl.Policies
