import HaclStar.Lib.Keystream
import HaclStar.Lib.Memory

/-! Stateful programs over the block memory, their loops, and the rules to run them. -/

namespace Memory

open Endianness Keystream

/-- A program that reads and writes memory, and yields nothing when it leaves a view. -/
def Stack (α : Type) : Type := Mem → Option (α × Mem)

namespace Stack

/-- The program that returns a value and does nothing. -/
protected def pure {α : Type} (a : α) : Stack α := fun h => some (a, h)

/-- Sequencing stops at the first fault. -/
protected def bind {α β : Type} (x : Stack α) (f : α → Stack β) : Stack β := fun h =>
  match x h with
  | none => none
  | some (a, h') => f a h'

instance : Monad Stack where
  pure := Stack.pure
  bind := Stack.bind

/-- The program that faults. -/
def fault {α : Type} : Stack α := fun _ => none

variable {α β : Type} {h h' : Mem}

@[simp] theorem pure_run (a : α) (h : Mem) : (pure a : Stack α) h = some (a, h) := rfl

/-- A sequence continues from the result and the memory of its first part. -/
theorem bind_run {x : Stack α} {a : α} (ran : x h = some (a, h')) (f : α → Stack β) :
    (x >>= f) h = f a h' := by
  -- The first part did not fault.
  show Stack.bind x f h = f a h'
  simp [Stack.bind, ran]

/-- A sequence faults when its first part does. -/
theorem bind_fault {x : Stack α} (ran : x h = none) (f : α → Stack β) : (x >>= f) h = none := by
  show Stack.bind x f h = none
  simp [Stack.bind, ran]

/-- A sequence whose second part always faults does. -/
theorem bind_fault_of_forall (x : Stack α) {f : α → Stack β} (faults : ∀ a h', f a h' = none) :
    (x >>= f) h = none := by
  show Stack.bind x f h = none
  cases first : x h with
  | none => simp [Stack.bind, first]
  | some result => simp [Stack.bind, first, faults]

/-- A sequence faults when whatever its first part returns leads to a fault. -/
theorem bind_fault_after {x : Stack α} {f : α → Stack β}
    (faults : ∀ a h', x h = some (a, h') → f a h' = none) : (x >>= f) h = none := by
  show Stack.bind x f h = none
  cases first : x h with
  | none => simp [Stack.bind, first]
  | some result =>
    obtain ⟨a, h'⟩ := result
    simp [Stack.bind, first, faults a h' first]

/-- A sequence that returns has run both of its parts. -/
theorem bind_some {x : Stack α} {f : α → Stack β} {b : β} {last : Mem}
    (ran : (x >>= f) h = some (b, last)) :
    ∃ a h', x h = some (a, h') ∧ f a h' = some (b, last) := by
  -- The first part either faulted or returned.
  change Stack.bind x f h = some (b, last) at ran
  cases first : x h with
  | none => simp [Stack.bind, first] at ran
  | some result => exact ⟨result.1, result.2, rfl, by simpa [Stack.bind, first] using ran⟩

end Stack

/-- Run a program in a frame of its own, and drop what it allocated. -/
def inFrame {α : Type} (x : Stack α) : Stack α := fun h =>
  match x h with
  | none => none
  | some (a, h') => some (a, h'.take h.length)

/-- Allocate a zero block. -/
def create (len : Nat) : Stack Buffer := fun h => some (h.fresh len, h.alloc len)

namespace Buffer

/-- The part of a view given by a start and a length, which must lie inside the view. -/
def sub (b : Buffer) (start len : Nat) : Stack Buffer := fun h =>
  if start + len ≤ b.length then some (b.slice start len, h) else none

/-- The rest of a view from a position on, which must lie inside the view. -/
def offset (b : Buffer) (start : Nat) : Stack Buffer := fun h =>
  if start ≤ b.length then some (b.slice start (b.length - start), h) else none

/-- The bytes of a view. -/
def load (b : Buffer) : Stack Bytes := fun h =>
  if h.Live b then some (h.read b, h) else none

/-- One byte of a view. -/
def index (b : Buffer) (i : Nat) : Stack UInt8 := fun h =>
  if h.Live b ∧ i < b.length then some ((h.read b).getD i 0, h) else none

/-- Write bytes from the start of a view on. -/
def store (b : Buffer) (bytes : Bytes) : Stack Unit := fun h =>
  if h.Live b ∧ bytes.length ≤ b.length then some ((), h.write b bytes) else none

/-- Write one byte of a view. -/
def upd (b : Buffer) (i : Nat) (x : UInt8) : Stack Unit := do
  let c ← b.sub i 1
  c.store [x]

/-- Copy `len` bytes of one view, from `start`, to another view, from `start'` on. -/
def blit (src : Buffer) (start : Nat) (dst : Buffer) (start' len : Nat) : Stack Unit := do
  let src ← src.sub start len
  let dst ← dst.sub start' len
  let bytes ← src.load
  dst.store bytes

variable {h : Mem}

/-- A part inside the view is found. -/
theorem sub_run (b : Buffer) {start len : Nat} (within : start + len ≤ b.length) :
    b.sub start len h = some (b.slice start len, h) := if_pos within

/-- A part that leaves the view faults. -/
theorem sub_fault (b : Buffer) {start len : Nat} (beyond : b.length < start + len) :
    b.sub start len h = none := if_neg (by omega)

/-- The rest from a position inside the view is found. -/
theorem offset_run (b : Buffer) {start : Nat} (within : start ≤ b.length) :
    b.offset start h = some (b.slice start (b.length - start), h) := if_pos within

/-- Loading a live view returns its bytes. -/
theorem load_run {b : Buffer} (live : h.Live b) : b.load h = some (h.read b, h) := if_pos live

/-- Reading a byte inside a live view returns it. -/
theorem index_run {b : Buffer} (live : h.Live b) {i : Nat} (inside : i < b.length) :
    b.index i h = some ((h.read b).getD i 0, h) := if_pos ⟨live, inside⟩

/-- Storing bytes that fit writes them. -/
theorem store_run {b : Buffer} (live : h.Live b) {x : Bytes} (fits : x.length ≤ b.length) :
    b.store x h = some ((), h.write b x) := if_pos ⟨live, fits⟩

/-- Writing a byte inside a live view writes it. -/
theorem upd_run {b : Buffer} (live : h.Live b) {i : Nat} (inside : i < b.length) (x : UInt8) :
    b.upd i x h = some ((), h.write (b.slice i 1) [x]) := by
  -- The byte is a part of one byte.
  rw [upd, Stack.bind_run (sub_run b inside), store_run (live.slice inside) (by simp)]

/-- A part that was found lies inside the view. -/
theorem sub_some {b c : Buffer} {start len : Nat} {h' : Mem} (ran : b.sub start len h = some (c, h')) :
    c = b.slice start len ∧ h' = h := by
  -- Otherwise there is no result.
  unfold sub at ran
  split at ran <;> cases ran
  exact ⟨rfl, rfl⟩

/-- What was loaded was live. -/
theorem load_some {b : Buffer} {bytes : Bytes} {h' : Mem} (ran : b.load h = some (bytes, h')) :
    h.Live b ∧ h' = h := by
  -- Otherwise there is no result.
  unfold load at ran
  split at ran <;> cases ran
  exact ⟨by assumption, rfl⟩

/-- What was stored fitted a live view. -/
theorem store_some {b : Buffer} {bytes : Bytes} {s : Unit} {h' : Mem}
    (ran : b.store bytes h = some (s, h')) :
    h.Live b ∧ bytes.length ≤ b.length ∧ h' = h.write b bytes := by
  -- Otherwise there is no result.
  unfold store at ran
  split at ran <;> cases ran
  exact ⟨by tauto, by tauto, rfl⟩

/-- Copying between parts of live views writes the bytes read. -/
theorem blit_run {src dst : Buffer} (live : h.Live src) (live' : h.Live dst) {start start' len : Nat}
    (within : start + len ≤ src.length) (within' : start' + len ≤ dst.length) :
    blit src start dst start' len h =
      some ((), h.write (dst.slice start' len) (((h.read src).drop start).take len)) := by
  have part := live.slice within
  have fits : (h.read (src.slice start len)).length ≤ (dst.slice start' len).length := by
    rw [Mem.read_length part]
    exact le_rfl
  -- Both parts exist, and the bytes read are exactly as many as the target holds.
  rw [blit, Stack.bind_run (sub_run src within), Stack.bind_run (sub_run dst within'),
    Stack.bind_run (load_run part), store_run (live'.slice within') fits, Mem.read_slice _ _ within]

end Buffer

variable {α σ : Type} {h h' : Mem}

/-- Leaving a frame keeps the result and drops the new blocks. -/
theorem inFrame_run {x : Stack α} {a : α} (ran : x h = some (a, h')) :
    inFrame x h = some (a, h'.take h.length) := by
  simp [inFrame, ran]

/-- A fault inside a frame is a fault. -/
theorem inFrame_fault {x : Stack α} (ran : x h = none) : inFrame x h = none := by
  simp [inFrame, ran]

/-- A frame may be left from any point its program has reached. -/
theorem inFrame_reached {x y : Stack α} {m : Mem} (ran : x h = y m) :
    inFrame x h = inFrame (fun _ => y m) h := by
  simp [inFrame, ran]

/-- Allocation always succeeds. -/
theorem create_run (len : Nat) : create len h = some (h.fresh len, h.alloc len) := rfl

/-! Inside a frame the blocks of the outer memory come first, followed by those of the frame. -/

/-- The outer memory is what remains of the inner one when the frame is left. -/
def Mem.Outer (h m : Mem) : Prop := List.take h.length m = h

namespace Mem.Outer

variable {m : Mem} {b c : Buffer}

/-- A frame that has allocated nothing. -/
theorem refl (h : Mem) : Outer h h := List.take_length

/-- The inner memory has all outer blocks. -/
theorem length_le (outer : Outer h m) : h.length ≤ m.length := by
  have size := congrArg List.length outer
  rw [List.length_take] at size
  omega

/-- Allocation is local. -/
theorem alloc (outer : Outer h m) (len : Nat) : Outer h (m.alloc len) := by
  have size := outer.length_le
  rw [Outer, Mem.alloc, List.take_append_of_le_length size]
  exact outer

/-- Outer blocks are found in the inner memory. -/
theorem block (outer : Outer h m) {base : Nat} (old : base < h.length) :
    m.block base = h.block base := by
  have same := congrArg (fun blocks : Mem => blocks.block base) outer
  rw [← same]
  simp [Mem.block, List.getElem?_take_of_lt old]

/-- Outer views are live inside. -/
theorem live (outer : Outer h m) (live : h.Live b) : m.Live b := by
  refine ⟨Nat.lt_of_lt_of_le live.1 outer.length_le, ?_⟩
  rw [outer.block live.1]
  exact live.2

/-- Outer views read the same inside. -/
theorem read (outer : Outer h m) (live : h.Live b) : m.read b = h.read b := by
  rw [Mem.read, Mem.read, outer.block live.1]

/-- A write to a local view stays local. -/
theorem write_new (outer : Outer h m) (new : h.length ≤ b.base) (bytes : Bytes) :
    Outer h (m.write b bytes) := by
  rw [Outer, Mem.take_write_new m bytes new]
  exact outer

/-- A write to an outer view happens outside too. -/
theorem write_old (outer : Outer h m) (live : h.Live b) (bytes : Bytes) :
    Outer (h.write b bytes) (m.write b bytes) := by
  rw [Outer, Mem.write_length, Mem.take_write_old m bytes live.1, outer]

/-- A local view is disjoint from the outer ones. -/
theorem apart (new : h.length ≤ c.base) (live : h.Live b) : c.Disjoint b :=
  Buffer.disjoint_of_base (Nat.ne_of_gt (Nat.lt_of_lt_of_le live.1 new))

/-- A write to an outer view leaves the local views as they are. -/
theorem read_local (outer : Outer h m) (live : h.Live b) {bytes : Bytes}
    (fits : bytes.length ≤ b.length) (c : Buffer) (new : h.length ≤ c.base) : (m.write b bytes).read c = m.read c :=
  Mem.read_write_disjoint (outer.live live) fits (apart new live).symm

end Mem.Outer

/-- Leaving a frame goes back to the outer memory. -/
theorem inFrame_outer {x : Stack α} {a : α} {m : Mem} (ran : x h = some (a, m))
    (outer : h'.Outer m) (size : h'.length = h.length) : inFrame x h = some (a, h') := by
  rw [inFrame_run ran, ← size, outer]

/-- A frame reached at some point ends with what its program does from there. -/
theorem inFrame_finish {y : Stack α} {a : α} {m m' : Mem} (ran : y m = some (a, m'))
    (outer : h'.Outer m') (size : h'.length = h.length) :
    inFrame (fun _ => y m) h = some (a, h') := inFrame_outer (h := h) ran outer size

/-- A frame reached at some point faults when its program does from there. -/
theorem inFrame_finish_fault {y : Stack α} {m : Mem} (ran : y m = none) :
    inFrame (fun _ => y m) h = none := inFrame_fault (h := h) ran

/-- Run `f 0`, `f 1`, up to `f (n - 1)`, passing a state along. -/
def forLoop (f : Nat → σ → Stack σ) : Nat → σ → Stack σ
  | 0, s => pure s
  | n + 1, s => do
    let s ← forLoop f n s
    f n s

/-- A loop whose steps only read keeps the memory, and what each step keeps holds at its end. -/
theorem forLoop_reads {f : Nat → σ → Stack σ} (inv : Nat → σ → Prop) {n : Nat}
    (step : ∀ i s, i < n → inv i s → ∃ s', inv (i + 1) s' ∧ f i s h = some (s', h)) {s : σ}
    (start : inv 0 s) : ∃ s', inv n s' ∧ forLoop f n s h = some (s', h) := by
  -- Induction on the number of steps.
  induction n with
  | zero => exact ⟨s, start, rfl⟩
  | succ n ih =>
    obtain ⟨s', held, ran⟩ := ih fun i s below => step i s (by omega)
    obtain ⟨s'', held', ran'⟩ := step n s' (by omega) held
    exact ⟨s'', held', by rw [forLoop, Stack.bind_run ran, ran']⟩

/-- An output view that may coincide with the input view but does not overlap it otherwise. -/
def SameOrDisjoint (output input : Buffer) : Prop := output = input ∨ output.Disjoint input

instance (output input : Buffer) : Decidable (SameOrDisjoint output input) :=
  inferInstanceAs (Decidable (_ ∨ _))

/-- Corresponding parts of an output and an input are again the same or disjoint. -/
theorem SameOrDisjoint.slice {output input : Buffer} (views : SameOrDisjoint output input)
    {i n : Nat} (fits : i + n ≤ output.length) (within : i + n ≤ input.length) :
    SameOrDisjoint (output.slice i n) (input.slice i n) := by
  rcases views with rfl | apart
  · exact Or.inl rfl
  · exact Or.inr ((apart.slice_left fits).slice_right within)

/-- Parts that lie after the written part of the output are still to be read in the input. -/
theorem SameOrDisjoint.rest {output input : Buffer} (views : SameOrDisjoint output input)
    {done start len : Nat} (before : done ≤ start) (fits : done ≤ output.length)
    (within : start + len ≤ input.length) :
    (output.slice 0 done).Disjoint (input.slice start len) := by
  -- In place the parts are ordered; otherwise the whole views are apart.
  rcases views with rfl | apart
  · exact Buffer.disjoint_slices _ (by omega)
  · exact (apart.slice_left (by omega)).slice_right within

/-- A loop that reads the next input chunk and writes the next output chunk transforms all chunks.
`inv` describes the state carried along, and `side` what the steps rely on in the rest of memory. -/
theorem forLoop_chunks {f : Nat → σ → Stack σ} (inv : Nat → σ → Prop) (side : Mem → Prop)
    (width : Nat) (g : Nat → Bytes → Bytes) {n : Nat} {output input : Buffer}
    (views : SameOrDisjoint output input)
    (fits : width * n ≤ output.length) (fits' : width * n ≤ input.length)
    (widths : ∀ i chunk, i < n → chunk.length = width → (g i chunk).length = width)
    (keeps : ∀ h bytes, side h → h.Live output → bytes.length ≤ output.length →
      side (h.write output bytes))
    (step : ∀ i s h, i < n → inv i s → side h → h.Live output → h.Live input →
      ∃ s', inv (i + 1) s' ∧ f i s h = some (s', h.write (output.slice (width * i) width)
        (g i (h.read (input.slice (width * i) width))))) :
    ∀ s h, inv 0 s → side h → h.Live output → h.Live input →
      ∃ s', inv n s' ∧
        forLoop f n s h = some (s', h.write output (mapChunks width g n (h.read input))) := by
  intro s h start holds live live'
  have size := Mem.read_length live'
  have chunk (i : Nat) (below : width * (i + 1) ≤ input.length) :
      (((h.read input).drop (width * i)).take width).length = width := by
    simp only [List.length_take, List.length_drop, size]
    rw [Nat.mul_succ] at below
    omega
  -- Induction on the number of steps: the chunks not yet reached are as in the initial memory.
  induction n with
  | zero => exact ⟨s, start, by simp [forLoop, mapChunks, Mem.write_nil live]⟩
  | succ n ih =>
    have less : width * n ≤ width * (n + 1) := Nat.mul_le_mul_left _ (by omega)
    obtain ⟨s', held, ran⟩ := ih (by omega) (by omega)
      (fun i chunk below => widths i chunk (by omega)) fun i s h below => step i s h (by omega)
    have total := mapChunks_length width n g (h.read input)
      fun i below => widths i _ (by omega) (chunk i
        ((Nat.mul_le_mul_left _ (by omega : i + 1 ≤ n + 1)).trans fits'))
    obtain ⟨s'', held', ran'⟩ := step n s' _ (by omega) held
      (keeps h (mapChunks width g n (h.read input)) holds live (by omega))
      (live.write live (by omega)) (live'.write live (by omega))
    refine ⟨s'', held', ?_⟩
    have rest : Mem.read (h.write output (mapChunks width g n (h.read input)))
        (input.slice (width * n) width) = ((h.read input).drop (width * n)).take width := by
      rw [← Mem.write_slice_zero h output (width * n), Mem.read_write_disjoint
        (live.slice (by omega)) (by rw [total]; exact le_rfl)
        (views.rest le_rfl (by omega) (by rw [Nat.mul_succ] at fits'; omega)),
        Mem.read_slice _ _ (by rw [Nat.mul_succ] at fits'; omega)]
    have added := widths n _ (by omega) (chunk n fits')
    rw [Nat.mul_succ] at fits
    have joined := Mem.write_append live (mapChunks width g n (h.read input))
      (g n (((h.read input).drop (width * n)).take width)) width (by omega) (by omega) (by omega)
    rw [total] at joined
    rw [forLoop, Stack.bind_run ran, ran', rest, joined, mapChunks_succ]

/-! A stream cipher encrypts an input to an output part after part. -/

/-- The memory after the first `done` bytes of an input have been encrypted to an output. -/
def streamed (h : Mem) (stream : Nat → UInt8) (output input : Buffer) (done : Nat) : Mem :=
  h.write output (xorStream stream ((h.read input).take done))

section Streamed

variable {stream : Nat → UInt8} {output input : Buffer} {done len : Nat}

/-- Before the first byte nothing has changed. -/
theorem streamed_zero (live : h.Live output) : streamed h stream output input 0 = h := by
  rw [streamed, List.take_zero, xorStream_nil, Mem.write_nil live]

/-- Encrypting a prefix needs only the prefix of the views. -/
theorem streamed_slice {room : Nat} (within : done ≤ room) (fits : room ≤ input.length) :
    streamed h stream (output.slice 0 room) (input.slice 0 room) done =
      streamed h stream output input done := by
  rw [streamed, Mem.read_slice _ _ (by omega), List.drop_zero, List.take_take,
    Nat.min_eq_left within, Mem.write_slice_zero, streamed]

/-- Encryption keeps every live view live. -/
theorem streamed_live (stream : Nat → UInt8) (input : Buffer) (done : Nat) {b : Buffer}
    (other : h.Live b) (live : h.Live output) (fits : done ≤ output.length) : (streamed h stream output input done).Live b :=
  other.write live (by rw [xorStream_length, List.length_take]; omega)

/-- The part of the input after the encrypted bytes is as before, also in place. -/
theorem streamed_read (views : SameOrDisjoint output input) (live : h.Live output)
    (live' : h.Live input) (fits : done + len ≤ output.length) (fits' : done + len ≤ input.length) :
    (streamed h stream output input done).read (input.slice done len) =
      ((h.read input).drop done).take len := by
  have size := Mem.read_length live'
  rw [streamed, ← Mem.write_slice_zero h output done, Mem.read_write_disjoint
    (live.slice (by omega)) (by rw [xorStream_length, List.length_take, Buffer.slice_length]; omega)
    (views.rest le_rfl (by omega) fits'), Mem.read_slice _ _ fits']

/-- Encrypting the next part with the keystream from there on extends the encrypted bytes. -/
theorem streamed_next (views : SameOrDisjoint output input) (live : h.Live output)
    (live' : h.Live input) (fits : done + len ≤ output.length) (fits' : done + len ≤ input.length) :
    (streamed h stream output input done).write (output.slice done len)
        (xorStream (fun i => stream (done + i))
          ((streamed h stream output input done).read (input.slice done len))) =
      streamed h stream output input (done + len) := by
  have size := Mem.read_length live'
  have first : ((h.read input).take done).length = done := by rw [List.length_take]; omega
  have second : (((h.read input).drop done).take len).length = len := by
    rw [List.length_take, List.length_drop]; omega
  have joined := Mem.write_append live (xorStream stream ((h.read input).take done))
    (xorStream (fun i => stream (done + i)) (((h.read input).drop done).take len)) len
    (by rw [xorStream_length, xorStream_length]; omega) (by rw [xorStream_length]; omega)
    (by rw [xorStream_length]; omega)
  -- The two windows are adjacent, and the keystream continues where the first one ends.
  rw [xorStream_length, first] at joined
  rw [streamed_read views live live' fits fits', streamed, joined, streamed, List.take_add,
    xorStream_append, first]

/-- Encryption may go on in the rests of the views, with the keystream from there on. -/
theorem streamed_rest (views : SameOrDisjoint output input) (live : h.Live output) (live' : h.Live input)
    {room room' : Nat} (within : len ≤ room) (within' : len ≤ room')
    (fits : done + room ≤ output.length) (fits' : done + room' ≤ input.length) :
    streamed (streamed h stream output input done) (fun i => stream (done + i))
        (output.slice done room) (input.slice done room') len =
      streamed h stream output input (done + len) := by
  have part : ((streamed h stream output input done).read (input.slice done room')).take len =
      (streamed h stream output input done).read (input.slice done len) := by
    have read := Mem.read_slice (streamed h stream output input done) (input.slice done room')
      (i := 0) (n := len) (by rw [Buffer.slice_length]; omega)
    rw [Buffer.slice_slice, List.drop_zero] at read
    exact read.symm
  -- The next part lies at the start of both rests.
  rw [← streamed_next views live live' (by omega) (by omega), streamed, part]
  rfl

/-- From a block boundary on, encryption goes on with the counter of the next block. -/
theorem streamed_blocks (block : Nat → Bytes) (width start m : Nat) (positive : 0 < width)
    (views : SameOrDisjoint output input) (live : h.Live output) (live' : h.Live input) {room room' : Nat}
    (within : len ≤ room) (within' : len ≤ room')
    (fits : width * m + room ≤ output.length) (fits' : width * m + room' ≤ input.length) :
    streamed (streamed h (keystream block width start) output input (width * m)) (keystream block width (start + m))
        (output.slice (width * m) room) (input.slice (width * m) room') len =
      streamed h (keystream block width start) output input (width * m + len) := by
  have shifted : (fun i => keystream block width start (width * m + i)) =
      keystream block width (start + m) := funext fun i => keystream_shift positive m i
  rw [← shifted, streamed_rest views live live' within within' fits fits']

/-- Combining the next block, or its first part, with its keystream block extends the encrypted bytes. -/
theorem streamed_block (block : Nat → Bytes) {width : Nat} (start m len : Nat)
    (size : (block (start + m)).length = width) (positive : 0 < width) (short : len ≤ width)
    (views : SameOrDisjoint output input) (live : h.Live output) (live' : h.Live input)
    (fits : width * m + len ≤ output.length) (fits' : width * m + len ≤ input.length) :
    (streamed h (keystream block width start) output input (width * m)).write
        (output.slice (width * m) len)
        (xor ((streamed h (keystream block width start) output input (width * m)).read
          (input.slice (width * m) len)) (block (start + m))) =
      streamed h (keystream block width start) output input (width * m + len) := by
  have live'' : (streamed h (keystream block width start) output input (width * m)).Live
      (input.slice (width * m) len) := streamed_live _ _ _ (live'.slice fits') live (by omega)
  have bytes := Mem.read_length live''
  have shifted : (fun i => keystream block width start (width * m + i)) =
      keystream block width (start + m) := funext fun i => keystream_shift positive m i
  -- From a block boundary on, the keystream is that of the block's own counter.
  rw [← streamed_next views live live' fits fits', shifted,
    xorStream_block size (by rw [bytes]; exact short)]

end Streamed

end Memory
