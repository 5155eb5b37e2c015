import HaclStar.Lib.Endianness

/-! A memory of byte blocks, bounded views of it, and stateful programs that fault outside them. -/

namespace Memory

open Endianness

/-- Overwrite the bytes of a block from a position on. -/
def splice (block : Bytes) (start : Nat) (bytes : Bytes) : Bytes :=
  block.take start ++ bytes ++ block.drop (start + bytes.length)

/-- Overwriting inside a block keeps its length. -/
theorem splice_length (block : Bytes) (start : Nat) (bytes : Bytes)
    (within : start + bytes.length ≤ block.length) :
    (splice block start bytes).length = block.length := by
  -- The three parts cover the block exactly when the middle one ends inside it.
  simp only [splice, List.length_append, List.length_take, List.length_drop]
  omega

/-- Overwriting from the start puts the new bytes before the rest. -/
theorem splice_start (block bytes : Bytes) : splice block 0 bytes = bytes ++ block.drop bytes.length := by
  rw [splice, List.take_zero, List.nil_append, Nat.zero_add]

/-- Overwriting all of a block leaves the new bytes. -/
theorem splice_all {old bytes : Bytes} (size : bytes.length = old.length) : splice old 0 bytes = bytes := by
  rw [splice_start, size, List.drop_length, List.append_nil]

/-- Overwriting behind a first part leaves that part. -/
theorem splice_append (first rest bytes : Bytes) :
    splice (first ++ rest) first.length bytes = first ++ splice rest 0 bytes := by
  rw [splice, List.take_left, splice_start, List.drop_append, List.append_assoc, Nat.add_sub_cancel_left,
    List.drop_of_length_le (Nat.le_add_right _ _), List.nil_append]

/-- Overwriting the beginning of a block leaves the rest. -/
theorem splice_prefix {old bytes : Bytes} (rest : Bytes) (size : bytes.length = old.length) :
    splice (old ++ rest) 0 bytes = bytes ++ rest := by
  rw [splice, List.take_zero, List.nil_append, Nat.zero_add, size, List.drop_left]

/-- Overwriting the end of a block leaves the beginning. -/
theorem splice_suffix (first : Bytes) {old bytes : Bytes} (size : bytes.length = old.length) :
    splice (first ++ old) first.length bytes = first ++ bytes := by
  rw [splice, List.take_left, size, ← List.length_append, List.drop_length, List.append_nil]

/-- A spliced block reads the new bytes inside the window and the old block outside it. -/
theorem splice_getElem? (block : Bytes) (start : Nat) (bytes : Bytes)
    (within : start + bytes.length ≤ block.length) (i : Nat) :
    (splice block start bytes)[i]? =
      if start ≤ i ∧ i < start + bytes.length then bytes[i - start]? else block[i]? := by
  have prefixLength : (block.take start).length = start := by
    rw [List.length_take]; omega
  -- Position by position: before the window, inside it, or after it.
  rcases Nat.lt_or_ge i start with before | after
  · rw [if_neg (by omega), splice, List.append_assoc, List.getElem?_append_left (by omega),
      List.getElem?_take_of_lt before]
  · rw [splice, List.append_assoc, List.getElem?_append_right (by omega), prefixLength]
    rcases Nat.lt_or_ge i (start + bytes.length) with inside | beyond
    · rw [if_pos ⟨after, inside⟩, List.getElem?_append_left (by omega)]
    · rw [if_neg (by omega), List.getElem?_append_right (by omega), List.getElem?_drop]
      congr 1
      omega

/-- A view of `length` bytes of one block, starting at `idx`. -/
structure Buffer where
  base : Nat
  idx : Nat
  length : Nat
  deriving DecidableEq, Repr

/-- The blocks allocated so far, the most recent one last. -/
abbrev Mem := List Bytes

namespace Buffer

/-- The part of a view that starts at `start` and has `len` bytes. -/
def slice (b : Buffer) (start len : Nat) : Buffer := ⟨b.base, b.idx + start, len⟩

/-- Two views share no byte. -/
def Disjoint (b c : Buffer) : Prop :=
  b.base ≠ c.base ∨ b.idx + b.length ≤ c.idx ∨ c.idx + c.length ≤ b.idx

instance (b c : Buffer) : Decidable (Disjoint b c) :=
  inferInstanceAs (Decidable (_ ∨ _ ∨ _))

@[simp] theorem slice_base (b : Buffer) (start len : Nat) : (b.slice start len).base = b.base := rfl

@[simp] theorem slice_idx (b : Buffer) (start len : Nat) :
    (b.slice start len).idx = b.idx + start := rfl

@[simp] theorem slice_length (b : Buffer) (start len : Nat) : (b.slice start len).length = len := rfl

/-- A part of a part is a part. -/
@[simp] theorem slice_slice (b : Buffer) (start len start' len' : Nat) :
    (b.slice start len).slice start' len' = b.slice (start + start') len' := by
  -- Both views start at the sum of the offsets.
  simp [slice, Nat.add_assoc]

/-- The part that covers everything is the view itself. -/
@[simp] theorem slice_all (b : Buffer) : b.slice 0 b.length = b := rfl

/-- Disjointness does not depend on the order of the views. -/
theorem Disjoint.symm {b c : Buffer} (apart : Disjoint b c) : Disjoint c b := by
  -- The three ways to be apart are permuted.
  unfold Disjoint at *
  omega

/-- A part of a view is disjoint from whatever the view is disjoint from. -/
theorem Disjoint.slice_left {b c : Buffer} (apart : Disjoint b c) {i n : Nat}
    (within : i + n ≤ b.length) : Disjoint (b.slice i n) c := by
  -- The part lies between the ends of the view.
  unfold Disjoint at *
  simp only [slice_base, slice_idx, slice_length]
  omega

/-- A view disjoint from another is disjoint from each part of it. -/
theorem Disjoint.slice_right {b c : Buffer} (apart : Disjoint b c) {i n : Nat}
    (within : i + n ≤ c.length) : Disjoint b (c.slice i n) :=
  (apart.symm.slice_left within).symm

/-- Two parts of one view are disjoint when the first ends before the second starts. -/
theorem disjoint_slices (b : Buffer) {start len start' len' : Nat} (before : start + len ≤ start') :
    Disjoint (b.slice start len) (b.slice start' len') := by
  -- They lie in one block, in this order.
  unfold Disjoint
  simp only [slice_base, slice_idx, slice_length]
  omega

/-- Views of different blocks are disjoint. -/
theorem disjoint_of_base {b c : Buffer} (different : b.base ≠ c.base) : Disjoint b c :=
  Or.inl different

end Buffer

namespace Mem

/-- The block with a given number, empty when there is none. -/
def block (h : Mem) (base : Nat) : Bytes := h.getD base []

/-- A view lies inside an allocated block. -/
def Live (h : Mem) (b : Buffer) : Prop :=
  b.base < h.length ∧ b.idx + b.length ≤ (h.block b.base).length

instance (h : Mem) (b : Buffer) : Decidable (Live h b) :=
  inferInstanceAs (Decidable (_ ∧ _))

/-- The bytes of a view. -/
def read (h : Mem) (b : Buffer) : Bytes := ((h.block b.base).drop b.idx).take b.length

/-- The memory after bytes have been written from the start of a view on. -/
def write (h : Mem) (b : Buffer) (bytes : Bytes) : Mem :=
  h.set b.base (splice (h.block b.base) b.idx bytes)

/-- The memory with one more block, of zero bytes. -/
def alloc (h : Mem) (len : Nat) : Mem := h ++ [List.replicate len 0]

/-- The view of a whole block that is about to be allocated. -/
def fresh (h : Mem) (len : Nat) : Buffer := ⟨h.length, 0, len⟩

variable {h : Mem} {b c : Buffer} {bytes : Bytes}

@[simp] theorem write_length (h : Mem) (b : Buffer) (bytes : Bytes) :
    List.length (h.write b bytes) = List.length h := by
  simp [write]

/-- Writing changes only the block of its view. -/
theorem write_block (live : h.Live b) (base : Nat) :
    (h.write b bytes).block base =
      if base = b.base then splice (h.block b.base) b.idx bytes else h.block base := by
  -- The block list is set at one position.
  have within := live.1
  unfold write block
  by_cases same : base = b.base
  · subst same
    simp [within]
  · simp [same, Ne.symm same]

/-- Writing changes exactly the bytes of its window. -/
theorem write_byte (live : h.Live b) (fits : bytes.length ≤ b.length) (base i : Nat) :
    ((h.write b bytes).block base)[i]? =
      if base = b.base ∧ b.idx ≤ i ∧ i < b.idx + bytes.length then bytes[i - b.idx]?
      else (h.block base)[i]? := by
  -- The other blocks are kept, and the splice describes the written one.
  have within := live.2
  rw [write_block live]
  by_cases same : base = b.base
  · simp only [same, true_and, if_true]
    exact splice_getElem? _ _ _ (by omega) i
  · simp [same]

/-- Two memories are equal when they have the same blocks, byte by byte. -/
theorem ext_byte {h h' : Mem} (size : List.length h = List.length h')
    (same : ∀ base i : Nat, (h.block base)[i]? = (h'.block base)[i]?) : h = h' := by
  apply List.ext_getElem size
  intro base inside inside'
  have block := List.ext_getElem? (same base)
  simpa [Mem.block, inside, inside'] using block

/-- A live view reads as many bytes as it has. -/
theorem read_length (live : h.Live b) : (h.read b).length = b.length := by
  -- The block has the bytes that the view covers.
  have within := live.2
  simp only [read, List.length_take, List.length_drop]
  omega

/-- The bytes of a view are bytes of its block. -/
theorem read_getElem? (h : Mem) (b : Buffer) (i : Nat) :
    (h.read b)[i]? = if i < b.length then (h.block b.base)[b.idx + i]? else none := by
  simp [read, List.getElem?_take, List.getElem?_drop]

/-- A part of a live view is live. -/
theorem Live.slice (live : h.Live b) {i n : Nat} (within : i + n ≤ b.length) :
    h.Live (b.slice i n) := by
  -- The part ends where the view does at the latest.
  obtain ⟨allocated, bounded⟩ := live
  refine ⟨allocated, ?_⟩
  simp only [Buffer.slice_base, Buffer.slice_idx, Buffer.slice_length]
  omega

/-- Reading a part of a view takes the part of its bytes. -/
theorem read_slice (h : Mem) (b : Buffer) {i n : Nat} (within : i + n ≤ b.length) :
    h.read (b.slice i n) = ((h.read b).drop i).take n := by
  -- Both sides read the same positions of the block.
  apply List.ext_getElem?
  intro j
  simp only [read_getElem?, List.getElem?_take, List.getElem?_drop, Buffer.slice_base,
    Buffer.slice_idx, Buffer.slice_length, Nat.add_assoc]
  by_cases inside : j < n
  · simp [inside, show i + j < b.length by omega]
  · simp [inside]

/-- A write keeps every live view live. -/
theorem Live.write (other : h.Live c) (live : h.Live b) (fits : bytes.length ≤ b.length) :
    (h.write b bytes).Live c := by
  -- Blocks keep their lengths.
  refine ⟨by simpa using other.1, ?_⟩
  have within := live.2
  rw [write_block live]
  split
  · next same =>
    rw [splice_length _ _ _ (by omega), ← same]
    exact other.2
  · exact other.2

/-- A write makes no other view live, since blocks keep their lengths. -/
theorem Live.of_write (other : (h.write b bytes).Live c) (live : h.Live b)
    (fits : bytes.length ≤ b.length) : h.Live c := by
  obtain ⟨allocated, bounded⟩ := other
  have within := live.2
  refine ⟨by simpa using allocated, ?_⟩
  rw [write_block live] at bounded
  split at bounded
  · next same =>
    rw [splice_length _ _ _ (by omega), ← same] at bounded
    exact bounded
  · exact bounded

/-- A view of adjacent parts reads the first, then the second. -/
theorem read_slice_append (h : Mem) (b : Buffer) (start first second : Nat) :
    h.read (b.slice start (first + second)) =
      h.read (b.slice start first) ++ h.read (b.slice (start + first) second) := by
  simp only [read, Buffer.slice_base, Buffer.slice_idx, Buffer.slice_length, List.take_add,
    List.drop_drop, Nat.add_assoc]

/-- A view reads back what was written to all of it. -/
theorem read_write_same (live : h.Live b) (fits : bytes.length = b.length) :
    (h.write b bytes).read b = bytes := by
  -- Every position of the view lies in the written window.
  apply List.ext_getElem?
  intro i
  rw [read_getElem?, write_byte live (by omega)]
  by_cases inside : i < b.length
  · rw [if_pos inside, if_pos (by omega)]
    congr 1
    omega
  · rw [if_neg inside, List.getElem?_eq_none (by omega)]

/-- A view reads back what was written at its start, then its old bytes. -/
theorem read_write_prefix (live : h.Live b) (fits : bytes.length ≤ b.length) :
    (h.write b bytes).read b = bytes ++ (h.read b).drop bytes.length := by
  -- The window ends where the old bytes go on.
  apply List.ext_getElem?
  intro i
  rw [read_getElem?, write_byte live fits, List.getElem?_append, List.getElem?_drop, read_getElem?]
  by_cases new : i < bytes.length
  · rw [if_pos (by omega), if_pos (by omega), if_pos new, Nat.add_sub_cancel_left]
  · rw [if_neg (c := b.base = b.base ∧ _) (by omega), if_neg new,
      Nat.add_sub_cancel' (by omega : bytes.length ≤ i)]

/-- A part of the window reads back its part of what was written. -/
theorem read_write_slice (live : h.Live b) {i n : Nat} (within : i + n ≤ bytes.length)
    (fits : bytes.length ≤ b.length) :
    (h.write b bytes).read (b.slice i n) = (bytes.drop i).take n := by
  rw [read_slice _ _ (by omega), read_write_prefix live fits,
    List.drop_append_of_le_length (by omega), List.take_append_of_le_length (by
      rw [List.length_drop]; omega)]

/-- A view disjoint from the written one reads as before. -/
theorem read_write_disjoint (live : h.Live b) (fits : bytes.length ≤ b.length)
    (apart : b.Disjoint c) : (h.write b bytes).read c = h.read c := by
  -- No position of the other view lies in the written window.
  unfold Buffer.Disjoint at apart
  apply List.ext_getElem?
  intro i
  rw [read_getElem?, read_getElem?, write_byte live fits]
  by_cases inside : i < c.length
  · rw [if_pos inside, if_pos inside, if_neg (by omega)]
  · rw [if_neg inside, if_neg inside]

/-- Two writes of adjacent windows are one write. -/
theorem write_append (live : h.Live b) (first second : Bytes) (room : Nat)
    (fits : first.length + second.length ≤ b.length) (fits' : second.length ≤ room)
    (within : first.length + room ≤ b.length) :
    (h.write b first).write (b.slice first.length room) second = h.write b (first ++ second) := by
  have live' : (h.write b first).Live (b.slice first.length room) :=
    (live.write live (by omega)).slice within
  -- The second window starts where the first one ends.
  apply ext_byte (by simp)
  intro base i
  rw [write_byte live' (by simpa using fits'), write_byte live (by omega),
    write_byte live (by simpa using fits), List.getElem?_append, List.length_append]
  simp only [Buffer.slice_base, Buffer.slice_idx]
  grind

/-- Writing part of a view is writing the whole view with that part replaced. -/
theorem write_slice (live : h.Live b) {start len : Nat} (fits : bytes.length = len)
    (within : start + len ≤ b.length) :
    h.write (b.slice start len) bytes = h.write b (splice (h.read b) start bytes) := by
  have size := read_length live
  have spliced : (splice (h.read b) start bytes).length = b.length := by
    rw [splice_length _ _ _ (by omega), size]
  -- Outside the part the view is overwritten with its own bytes.
  apply ext_byte (by simp)
  intro base i
  rw [write_byte (live.slice within) (by simpa using fits.le), write_byte live spliced.le, spliced,
    splice_getElem? _ _ _ (by omega), read_getElem?]
  simp only [Buffer.slice_base, Buffer.slice_idx]
  grind

/-- Writing inside what was just written is one write of the spliced bytes. -/
theorem write_within (live : h.Live b) {first second : Bytes} {start len : Nat}
    (fits : first.length ≤ b.length) (size : second.length = len) (within : start + len ≤ first.length) :
    (h.write b first).write (b.slice start len) second = h.write b (splice first start second) := by
  have spliced : (splice first start second).length = first.length :=
    splice_length _ _ _ (by omega)
  have live' : (h.write b first).Live (b.slice start len) := (live.write live fits).slice (by omega)
  -- Inside the part the second write decides, around it the first.
  apply ext_byte (by simp)
  intro base i
  rw [write_byte live' size.le, write_byte live fits, write_byte live (by omega), spliced,
    splice_getElem? _ _ _ (by omega)]
  simp only [Buffer.slice_base, Buffer.slice_idx]
  grind

/-- A second write of the whole view hides the first. -/
theorem write_write (live : h.Live b) {first second : Bytes} (fits : first.length ≤ b.length)
    (covers : second.length = b.length) : (h.write b first).write b second = h.write b second := by
  -- Inside the window the second write decides, outside it neither write does.
  apply ext_byte (by simp)
  intro base i
  rw [write_byte (live.write live fits) covers.le, write_byte live covers.le, write_byte live fits]
  split_ifs <;> first | rfl | omega

/-- A second write at the same start replaces the beginning of the first. -/
theorem write_prefix (live : h.Live b) {first second : Bytes} (fits : first.length ≤ b.length)
    (shorter : second.length ≤ first.length) :
    (h.write b first).write b second = h.write b (second ++ first.drop second.length) := by
  have size : (second ++ first.drop second.length).length = first.length := by
    rw [List.length_append, List.length_drop]; omega
  -- The second window is the beginning of the first.
  apply ext_byte (by simp)
  intro base i
  rw [write_byte (live.write live fits) (by omega), write_byte live fits, write_byte live (by omega),
    size, List.getElem?_append, List.getElem?_drop]
  grind

/-- Writes of disjoint views commute. -/
theorem write_comm (live : h.Live b) (live' : h.Live c) {first second : Bytes}
    (fits : first.length ≤ b.length) (fits' : second.length ≤ c.length) (apart : b.Disjoint c) :
    (h.write b first).write c second = (h.write c second).write b first := by
  -- No byte lies in both windows.
  unfold Buffer.Disjoint at apart
  apply ext_byte (by simp)
  intro base i
  rw [write_byte (live'.write live fits) fits', write_byte (live.write live' fits') fits,
    write_byte live fits, write_byte live' fits']
  split_ifs <;> first | rfl | omega

/-- A write depends on where its view starts, not on how far it extends. -/
theorem write_slice_zero (h : Mem) (b : Buffer) (len : Nat) (bytes : Bytes) :
    h.write (b.slice 0 len) bytes = h.write b bytes := rfl

/-- Writing no bytes changes nothing. -/
theorem write_nil (live : h.Live b) : h.write b [] = h := by
  -- The window is empty.
  apply ext_byte (by simp)
  intro base i
  rw [write_byte live (by simp), if_neg (by simp only [List.length_nil]; omega)]

/-- Writing back the bytes of a view changes nothing. -/
theorem write_read (live : h.Live b) : h.write b (h.read b) = h := by
  have size := read_length live
  -- Each byte of the window is overwritten with itself.
  apply ext_byte (by simp)
  intro base i
  rw [write_byte live size.le, read_getElem?]
  split_ifs with window inside
  · rw [window.1]
    congr 1
    omega
  · omega
  · rfl

/-! Allocation appends a zero block, and leaving a frame drops the blocks allocated in it. -/

@[simp] theorem alloc_length (h : Mem) (len : Nat) :
    List.length (h.alloc len) = List.length h + 1 := by
  simp [alloc]

/-- Allocation changes no existing block. -/
theorem alloc_block (h : Mem) (len : Nat) {base : Nat} (old : base < List.length h) :
    (h.alloc len).block base = h.block base := by
  simp [alloc, block, List.getElem?_append_left old]

/-- A live view stays live when a block is allocated. -/
theorem Live.alloc (live : h.Live b) (len : Nat) : (h.alloc len).Live b := by
  -- The view lies in an older block.
  refine ⟨by rw [alloc_length]; have := live.1; omega, ?_⟩
  rw [alloc_block h len live.1]
  exact live.2

/-- The allocated block is live. -/
theorem fresh_live (h : Mem) (len : Nat) : (h.alloc len).Live (h.fresh len) := by
  -- The new block is the last one and has the length asked for.
  constructor <;> simp [alloc, block, fresh]

/-- The allocated block holds zero bytes. -/
theorem read_fresh (h : Mem) (len : Nat) :
    (h.alloc len).read (h.fresh len) = List.replicate len 0 := by
  simp [alloc, block, fresh, read]

/-- Allocation changes no byte of a live view. -/
theorem read_alloc (live : h.Live b) (len : Nat) : (h.alloc len).read b = h.read b := by
  rw [read, read, alloc_block h len live.1]

/-- A new block is disjoint from every live view. -/
theorem fresh_disjoint (live : h.Live b) (len : Nat) : (h.fresh len).Disjoint b := by
  -- Live views lie in older blocks.
  have old := live.1
  exact Buffer.disjoint_of_base (by simp only [fresh]; omega)

/-- Dropping blocks keeps a write to a kept block. -/
theorem take_write_old (h : Mem) {count : Nat} (bytes : Bytes) (old : b.base < count) :
    List.take count (h.write b bytes) = Mem.write (List.take count h) b bytes := by
  -- The written block is among the kept ones.
  have same : Mem.block (List.take count h) b.base = h.block b.base := by
    simp [block, List.getElem?_take_of_lt old]
  unfold write
  rw [same, List.take_set]

/-- Dropping blocks drops a write to a dropped block. -/
theorem take_write_new (h : Mem) {count : Nat} (bytes : Bytes) (new : count ≤ b.base) :
    List.take count (h.write b bytes) = List.take count h := by
  -- The written block is among the dropped ones.
  unfold write
  rw [List.take_set_of_le new]

/-- Leaving a frame drops a write to a block allocated in it. -/
theorem take_write_fresh (h m : Mem) (len : Nat) (bytes : Bytes) :
    List.take (List.length h) (Mem.write m (h.fresh len) bytes) = List.take (List.length h) m :=
  take_write_new m bytes (Nat.le_refl h.length)

/-- Dropping a new block undoes its allocation. -/
theorem take_alloc (h : Mem) (len : Nat) : List.take (List.length h) (h.alloc len) = h := by
  simp [alloc]

end Mem

end Memory
