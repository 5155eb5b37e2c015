import HaclStar.Impl.StreamCipher
import HaclStar.Lib.Arrays

/-! The pads of HMAC: blocks of one byte repeated, combined in place with a key. -/

namespace HaclStar.Impl.HMAC

open Endianness Keystream Memory

/-- Allocate a block of one byte repeated. -/
def createFilled (init : UInt8) (len : Nat) : Stack Buffer := do
  let b ← create len
  b.store (List.replicate len init)
  return b

/-- Combine a byte buffer with another one in place. -/
def xorBytesInplace (a b : Buffer) (len : Nat) : Stack Unit := map2Xor a a b len

variable {h : Mem}

/-- A filled block is the fresh block with its bytes written. -/
theorem createFilled_run (init : UInt8) (len : Nat) : createFilled init len h =
    some (h.fresh len, (h.alloc len).write (h.fresh len) (List.replicate len init)) := by
  rw [createFilled, Stack.bind_run (create_run len), Stack.bind_run
    (Buffer.store_run (Mem.fresh_live h len) (by rw [List.length_replicate]; exact le_rfl))]
  rfl

/-- Combining in place writes the combined bytes. -/
theorem xorBytesInplace_run {a b : Buffer} (len : Nat) (live : h.Live a) (live' : h.Live b)
    (apart : a.Disjoint b) (size : a.length = len) (size' : b.length = len) :
    xorBytesInplace a b len h = some ((), h.write a (xor (h.read a) (h.read b))) := by
  have bytes := Mem.read_length live
  have bytes' := Mem.read_length live'
  rw [xorBytesInplace, map2Xor_run (Or.inl rfl) apart live live live' size.ge size.ge size'.ge,
    List.take_of_length_le (by omega), List.take_of_length_le (by omega)]

/-- Combining with a buffer that ends outside its block reads beyond the block. -/
theorem xorBytesInplace_fault {a b : Buffer} {len : Nat} (positive : 0 < len) (size : b.length = len)
    (allocated : b.base < h.length) (beyond : ¬ h.Live b) : xorBytesInplace a b len h = none := by
  -- The last byte of the buffer is not there, and no step changes that.
  refine forLoop_fault_of (fun m => ¬ m.Live (b.slice (len - 1) 1)) (i := len - 1) (by omega) ?_ ?_ () ?_
  · intro j s m s' m' missing ran live
    obtain ⟨x, _, ran1, rest1⟩ := Stack.bind_some ran
    obtain ⟨-, rfl⟩ := Buffer.sub_some ran1
    obtain ⟨y, _, ran2, rest2⟩ := Stack.bind_some rest1
    obtain ⟨-, rfl⟩ := Buffer.sub_some ran2
    obtain ⟨xs, _, ran3, rest3⟩ := Stack.bind_some rest2
    obtain ⟨-, rfl⟩ := Buffer.load_some ran3
    obtain ⟨ys, _, ran4, rest4⟩ := Stack.bind_some rest3
    obtain ⟨-, rfl⟩ := Buffer.load_some ran4
    obtain ⟨o, _, ran5, rest5⟩ := Stack.bind_some rest4
    obtain ⟨-, rfl⟩ := Buffer.sub_some ran5
    obtain ⟨stored, fits, rfl⟩ := Buffer.store_some rest5
    exact missing (live.of_write stored fits)
  · intro s m missing
    -- The step would have to load the missing byte.
    refine Option.eq_none_iff_forall_ne_some.mpr ?_
    rintro ⟨s', m'⟩ ran
    obtain ⟨x, _, ran1, rest1⟩ := Stack.bind_some ran
    obtain ⟨-, rfl⟩ := Buffer.sub_some ran1
    obtain ⟨y, _, ran2, rest2⟩ := Stack.bind_some rest1
    obtain ⟨rfl, rfl⟩ := Buffer.sub_some ran2
    obtain ⟨xs, _, ran3, rest3⟩ := Stack.bind_some rest2
    obtain ⟨-, rfl⟩ := Buffer.load_some ran3
    obtain ⟨ys, _, ran4, rest4⟩ := Stack.bind_some rest3
    exact missing (Buffer.load_some ran4).1
  · intro live
    refine beyond ⟨allocated, ?_⟩
    have bound := live.2
    simp only [Buffer.slice_base, Buffer.slice_idx, Buffer.slice_length] at bound
    omega

end HaclStar.Impl.HMAC
