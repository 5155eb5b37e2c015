import HaclStar.Lib.Stack
import HaclStar.Spec.Lib

/-! Loading and storing machine words in byte buffers. -/

namespace HaclStar.Impl

open Endianness Keystream Memory Words

/-- Load `len` little-endian words.
The loop fills a word array that shares no memory with byte buffers, so it is one read. -/
def uint32sFromLeBytes (input : Buffer) (len : Nat) : Stack (Vector UInt32 len) := do
  let input ← input.sub 0 (4 * len)
  let bytes ← input.load
  return Spec.uint32Le.loadAll len bytes

/-- Store words as little-endian bytes, one after another. -/
def uint32sToLeBytes {len : Nat} (output : Buffer) (input : Vector UInt32 len) : Stack Unit := do
  let output ← output.sub 0 (4 * len)
  output.store (Spec.uint32Le.storeAll input)

variable {h : Mem}

/-- Loading decodes the first `4 * len` bytes of the buffer. -/
theorem uint32sFromLeBytes_run {input : Buffer} {len : Nat} (live : h.Live input)
    (within : 4 * len ≤ input.length) :
    uint32sFromLeBytes input len h =
      some (Spec.uint32sFromLe len ((h.read input).take (4 * len)), h) := by
  have part := live.slice (i := 0) (n := 4 * len) (by omega)
  have size := Mem.read_length part
  have bytes := Mem.read_slice h input (i := 0) (n := 4 * len) (by omega)
  rw [List.drop_zero] at bytes
  -- The words loaded from their positions are the words the specification peels off the end.
  rw [uint32sFromLeBytes, Stack.bind_run (Buffer.sub_run _ (by omega)),
    Stack.bind_run (Buffer.load_run part), Stack.pure_run, Spec.uint32Le.loadAll_eq len _ size, bytes]
  rfl

/-- Storing writes the encoded words at the start of the buffer. -/
theorem uint32sToLeBytes_run {output : Buffer} {len : Nat} (input : Vector UInt32 len)
    (live : h.Live output) (within : 4 * len ≤ output.length) :
    uint32sToLeBytes output input h = some ((), h.write output (Spec.uint32sToLe len input)) := by
  have part := live.slice (i := 0) (n := 4 * len) (by omega)
  have bytes : Spec.uint32Le.storeAll input = Spec.uint32sToLe len input :=
    Spec.uint32Le.storeAll_eq input
  -- The encoded words fill the part exactly.
  rw [uint32sToLeBytes, Stack.bind_run (Buffer.sub_run _ (by omega)), bytes,
    Buffer.store_run part (by simp), Mem.write_slice_zero]

end HaclStar.Impl
