import HaclStar.Impl.Endianness

/-! The block and message loops shared by the Salsa20 and ChaCha20 implementations. -/

namespace HaclStar.Impl

open Endianness Keystream Memory Words

/-- The sixteen words of a cipher state. -/
abbrev State := Vector UInt32 16

/-- Combine two byte buffers by exclusive or, byte by byte. -/
def map2Xor (output plain mask : Buffer) (len : Nat) : Stack Unit :=
  forLoop (fun i _ => do
    let x ← plain.sub i 1
    let y ← mask.sub i 1
    let x ← x.load
    let y ← y.load
    let o ← output.sub i 1
    o.store (xor x y)) len ()

/-- Combine a short message with the start of the `width` bytes of keystream that a program fills in. -/
def maskBundle {σ : Type} (width : Nat) (fill : Buffer → Stack σ) (output plain : Buffer) (len : Nat) :
    Stack σ :=
  inFrame do
    let block ← create width
    let s ← fill block
    let mask ← block.sub 0 len
    map2Xor output plain mask len
    return s

/-- Combine a short message with the start of a keystream block, which a program fills in. -/
def maskLast {σ : Type} (fill : Buffer → Stack σ) (output plain : Buffer) (len : Nat) : Stack σ :=
  inFrame do
    let streamBlock ← create 64
    let s ← fill streamBlock
    let mask ← streamBlock.sub 0 len
    map2Xor output plain mask len
    return s

/-- What the two ciphers differ in: the core function, and the counter of a later block. -/
structure StreamCipher (C : Type) where
  /-- The keystream words of a block, and the state with its counter overwritten. -/
  core : State → C → State × State
  advance : C → Nat → C

namespace StreamCipher

variable {C : Type} (cipher : StreamCipher C)

/-- Write one block of keystream. -/
def block (streamBlock : Buffer) (st : State) (ctr : C) : Stack State := do
  let st' := cipher.core st ctr
  uint32sToLeBytes streamBlock st'.1
  return st'.2

/-- Encrypt one whole block, word by word. -/
def update (output plain : Buffer) (st : State) (ctr : C) : Stack State := do
  let k := cipher.core st ctr
  let ib ← uint32sFromLeBytes plain 16
  let ob := Vector.zipWith (· ^^^ ·) ib k.1
  uint32sToLeBytes output ob
  return k.2

/-- Encrypt a final partial block, byte by byte. -/
def updateLast (output plain : Buffer) (len : Nat) (st : State) (ctr : C) : Stack State :=
  maskLast (fun streamBlock => cipher.block streamBlock st ctr) output plain len

/-- Encrypt whole blocks, the counter advancing by one for each. -/
def counterModeBlocks (output plain : Buffer) (numBlocks : Nat) (st : State) (ctr : C) : Stack State :=
  forLoop (fun i st => do
    let b ← plain.sub (64 * i) 64
    let o ← output.sub (64 * i) 64
    cipher.update o b st (cipher.advance ctr i)) numBlocks st

/-- Encrypt the final partial block when there is one. -/
def finishBlock (output plain : Buffer) (len : Nat) (st : State) (ctr : C) : Stack Unit :=
  if 0 < len then do
    let _ ← cipher.updateLast output plain len st ctr
    return ()
  else return ()

/-- Encrypt a message: its whole blocks, then the rest. -/
def counterMode (output plain : Buffer) (len : UInt32) (st : State) (ctr : C) : Stack Unit := do
  let blocksLen := (len >>> 6).toNat
  let partLen := (len &&& 0x3f).toNat
  let output' ← output.sub 0 (64 * blocksLen)
  let plain' ← plain.sub 0 (64 * blocksLen)
  let output'' ← output.sub (64 * blocksLen) partLen
  let plain'' ← plain.sub (64 * blocksLen) partLen
  let st ← cipher.counterModeBlocks output' plain' blocksLen st ctr
  cipher.finishBlock output'' plain'' partLen st (cipher.advance ctr blocksLen)

/-- The core produces given keystream blocks from every state of a kind, and keeps the kind. -/
structure Refines (inv : State → Prop) (blockOf : C → Bytes) : Prop where
  keystream : ∀ st ctr, inv st → Spec.uint32sToLe 16 (cipher.core st ctr).1 = blockOf ctr
  keeps : ∀ st ctr, inv st → inv (cipher.core st ctr).2

end StreamCipher

/-! Byte-wise exclusive or. -/

section Bytewise

variable {output plain : Buffer} {h : Mem}

/-- Exclusive or on single bytes is exclusive or on the strings they come from. -/
theorem mapChunks_xor (mask : Bytes) (n : Nat) (bytes : Bytes)
    (size : n ≤ bytes.length) (size' : n ≤ mask.length) :
    mapChunks 1 (fun i chunk => xor chunk ((mask.drop i).take 1)) n bytes =
      xor (bytes.take n) (mask.take n) := by
  -- The last byte is combined last.
  induction n with
  | zero => rfl
  | succ n ih =>
    have last : bytes.take (n + 1) = bytes.take n ++ (bytes.drop n).take 1 := by
      rw [List.take_add]
    have last' : mask.take (n + 1) = mask.take n ++ (mask.drop n).take 1 := by
      rw [List.take_add]
    rw [mapChunks_succ, ih (by omega) (by omega), Nat.one_mul, last, last', Keystream.xor,
      Keystream.xor, Keystream.xor, List.zipWith_append (by simp; omega)]

/-- Byte-wise exclusive or writes the combined bytes, also when it works in place. -/
theorem map2Xor_run {mask : Buffer} {len : Nat} (views : SameOrDisjoint output plain)
    (apart : output.Disjoint mask) (live : h.Live output) (live' : h.Live plain)
    (live'' : h.Live mask) (fits : len ≤ output.length) (fits' : len ≤ plain.length)
    (fits'' : len ≤ mask.length) :
    map2Xor output plain mask len h =
      some ((), h.write output (xor ((h.read plain).take len) ((h.read mask).take len))) := by
  have size := Mem.read_length live'
  have size' := Mem.read_length live''
  -- The mask is outside the output, so each step finds its bytes unchanged.
  have step : ∀ i (s : Unit) (m : Mem), i < len → True →
      m.Live mask ∧ m.read mask = h.read mask → m.Live output → m.Live plain →
      ∃ s', True ∧ (do
        let x ← plain.sub i 1
        let y ← mask.sub i 1
        let x ← x.load
        let y ← y.load
        let o ← output.sub i 1
        o.store (xor x y) : Stack Unit) m = some (s', m.write (output.slice (1 * i) 1)
          (xor (m.read (plain.slice (1 * i) 1)) (((h.read mask).drop i).take 1))) := by
    intro i _ m below _ kept live live'
    have width : (m.read (plain.slice i 1)).length = 1 := Mem.read_length (live'.slice (by omega))
    have store := Buffer.store_run (live.slice (i := i) (n := 1) (by omega))
      (x := xor (m.read (plain.slice i 1)) (m.read (mask.slice i 1))) (by simp; omega)
    refine ⟨(), trivial, ?_⟩
    rw [Stack.bind_run (Buffer.sub_run _ (by omega)), Stack.bind_run (Buffer.sub_run _ (by omega)),
      Stack.bind_run (Buffer.load_run (live'.slice (by omega))),
      Stack.bind_run (Buffer.load_run (kept.1.slice (by omega))),
      Stack.bind_run (Buffer.sub_run _ (by omega)), store, Mem.read_slice m mask (by omega), kept.2,
      Nat.one_mul]
  obtain ⟨_, -, ran⟩ := forLoop_chunks (fun _ _ => True)
    (fun m => m.Live mask ∧ m.read mask = h.read mask) 1
    (fun i chunk => xor chunk (((h.read mask).drop i).take 1)) views (by omega) (by omega) (fun i chunk below one => by simp; omega)
    (fun m bytes kept live fits =>
      ⟨kept.1.write live fits, by rw [Mem.read_write_disjoint live fits apart, kept.2]⟩)
    step () h trivial ⟨live'', rfl⟩ live live'
  rw [mapChunks_xor _ _ _ (by omega) (by omega)] at ran
  exact ran

/-- A short message is combined with the start of the keystream that was filled in. -/
theorem maskBundle_run {σ : Type} {fill : Buffer → Stack σ} {s : σ} {block : Bytes} {width len : Nat}
    (views : SameOrDisjoint output plain) (live : h.Live output) (live' : h.Live plain)
    (width_eq : block.length = width) (short : len ≤ width)
    (size : output.length = len) (size' : plain.length = len)
    (filled : fill (h.fresh width) (h.alloc width) =
      some (s, Mem.write (h.alloc width) (h.fresh width) block)) :
    maskBundle width fill output plain len h = some (s, h.write output (xor (h.read plain) block)) := by
  have bytes := Mem.read_length live'
  have fresh := Mem.fresh_live h width
  have covers : (h.fresh width).length = width := rfl
  -- The keystream is written to a buffer of the function's own frame.
  have kept {b : Buffer} (live : Mem.Live (h.alloc width) b) :
      (Mem.write (h.alloc width) (h.fresh width) block).Live b := live.write fresh (by omega)
  have liveMask := (kept fresh).slice (i := 0) (n := len) (by omega)
  have mask : Mem.read (Mem.write (h.alloc width) (h.fresh width) block) ((h.fresh width).slice 0 len) =
      block.take len := by
    rw [Mem.read_slice _ _ (by omega), Mem.read_write_same fresh (by omega), List.drop_zero]
  have input : Mem.read (Mem.write (h.alloc width) (h.fresh width) block) plain = h.read plain := by
    rw [Mem.read_write_disjoint fresh (by omega) (Mem.fresh_disjoint live' width), Mem.read_alloc live']
  have combined := map2Xor_run views
    ((Mem.fresh_disjoint live width).symm.slice_right (i := 0) (n := len) (by omega))
    (kept (live.alloc width)) (kept (live'.alloc width)) liveMask (by omega) (by omega) (le_refl len)
  rw [mask, input, List.take_take, Nat.min_self, List.take_of_length_le (by omega),
    ← size', ← bytes, xor_take] at combined
  have ran : (do
      let block ← create width
      let s ← fill block
      let mask ← block.sub 0 len
      map2Xor output plain mask len
      return s : Stack σ) h = some (s, Mem.write (Mem.write (h.alloc width) (h.fresh width) block) output
        (xor (h.read plain) block)) := by
    rw [Stack.bind_run (create_run width), Stack.bind_run filled,
      Stack.bind_run (Buffer.sub_run _ (by omega)), ← size', ← bytes, Stack.bind_run combined,
      Stack.pure_run]
  rw [maskBundle, inFrame_run ran, Mem.take_write_old _ _ live.1, Mem.take_write_fresh, Mem.take_alloc]

/-- A short message is combined with the start of the block that was filled in. -/
theorem maskLast_run {σ : Type} {fill : Buffer → Stack σ} {s : σ} {block : Bytes} {len : Nat}
    (views : SameOrDisjoint output plain) (live : h.Live output) (live' : h.Live plain)
    (width : block.length = 64) (short : len ≤ 64)
    (size : output.length = len) (size' : plain.length = len)
    (filled : fill (h.fresh 64) (h.alloc 64) =
      some (s, Mem.write (h.alloc 64) (h.fresh 64) block)) :
    maskLast fill output plain len h = some (s, h.write output (xor (h.read plain) block)) :=
  maskBundle_run views live live' width short size size' filled

end Bytewise

/-- The number of whole blocks in a message length. -/
theorem shiftRight_six_toNat (len : UInt32) : (len >>> 6).toNat = len.toNat / 64 := by
  -- Shifting by six divides by sixty-four.
  simp [UInt32.toNat_shiftRight, Nat.shiftRight_eq_div_pow]

/-- The number of bytes after the last whole block. -/
theorem and_mask_toNat (len : UInt32) : (len &&& 0x3f).toNat = len.toNat % 64 := by
  -- Sixty-three masks the low six bits.
  rw [UInt32.toNat_and]
  exact Nat.and_two_pow_sub_one_eq_mod len.toNat 6

namespace StreamCipher

variable {C : Type} {cipher : StreamCipher C} {inv : State → Prop} {blockOf : C → Bytes}
  {st : State} {ctr : C} {output plain : Buffer} {h : Mem}

/-- Keystream blocks have sixty-four bytes. -/
theorem Refines.length (refines : cipher.Refines inv blockOf) (held : inv st) (ctr : C) :
    (blockOf ctr).length = 64 := by
  rw [← refines.keystream st ctr held]
  simp

/-- A keystream block is written at the start of the buffer. -/
theorem block_run (refines : cipher.Refines inv blockOf) (held : inv st) (ctr : C)
    (live : h.Live output) (within : 64 ≤ output.length) :
    ∃ st', inv st' ∧ cipher.block output st ctr h = some (st', h.write output (blockOf ctr)) := by
  refine ⟨(cipher.core st ctr).2, refines.keeps st ctr held, ?_⟩
  rw [block, Stack.bind_run (uint32sToLeBytes_run _ live within), refines.keystream st ctr held,
    Stack.pure_run]

/-- A whole block is combined with its keystream block. -/
theorem update_run (refines : cipher.Refines inv blockOf) (held : inv st) (ctr : C)
    (live : h.Live output) (live' : h.Live plain)
    (size : output.length = 64) (size' : plain.length = 64) :
    ∃ st', inv st' ∧ cipher.update output plain st ctr h =
      some (st', h.write output (xor (h.read plain) (blockOf ctr))) := by
  have bytes := Mem.read_length live'
  have decoded : Spec.uint32sToLe 16 (Spec.uint32sFromLe 16 (h.read plain)) = h.read plain :=
    Spec.uint32Le.toBytes_fromBytes 16 _ (by rw [bytes, size']; rfl)
  refine ⟨(cipher.core st ctr).2, refines.keeps st ctr held, ?_⟩
  -- Combining words is combining their bytes, and the input words encode to the input bytes.
  rw [update, Stack.bind_run (uint32sFromLeBytes_run live' (by omega)),
    List.take_of_length_le (by omega),
    Stack.bind_run (uint32sToLeBytes_run _ live (by omega)), Stack.pure_run, Spec.uint32sToLe_xor,
    decoded, refines.keystream st ctr held]

/-- A final partial block is combined with the start of its keystream block. -/
theorem updateLast_run (len : Nat) (refines : cipher.Refines inv blockOf) (held : inv st) (ctr : C)
    (views : SameOrDisjoint output plain) (live : h.Live output) (live' : h.Live plain)
    (short : len ≤ 64) (size : output.length = len) (size' : plain.length = len) :
    ∃ st', inv st' ∧ cipher.updateLast output plain len st ctr h =
      some (st', h.write output (xor (h.read plain) (blockOf ctr))) := by
  obtain ⟨st', held', ran⟩ := block_run refines held ctr (Mem.fresh_live h 64) (le_refl 64)
  exact ⟨st', held',
    maskLast_run views live live' (refines.length held ctr) short size size' ran⟩

/-- Whole blocks are combined with the keystream blocks of successive counters. -/
theorem counterModeBlocks_run (numBlocks : Nat) (refines : cipher.Refines inv blockOf) (held : inv st)
    (ctr : C)
    (views : SameOrDisjoint output plain) (live : h.Live output) (live' : h.Live plain)
    (fits : 64 * numBlocks ≤ output.length) (fits' : 64 * numBlocks ≤ plain.length) :
    ∃ st', inv st' ∧ cipher.counterModeBlocks output plain numBlocks st ctr h =
      some (st', h.write output (mapChunks 64
        (fun i chunk => xor chunk (blockOf (cipher.advance ctr i))) numBlocks (h.read plain))) := by
  have widths (i : Nat) := refines.length held (cipher.advance ctr i)
  -- Each step encrypts the next block, and leaves a state of the same kind.
  have step : ∀ i st (m : Mem), i < numBlocks → inv st → True → m.Live output → m.Live plain →
      ∃ st', inv st' ∧ (do
        let b ← plain.sub (64 * i) 64
        let o ← output.sub (64 * i) 64
        cipher.update o b st (cipher.advance ctr i) : Stack State) m =
          some (st', m.write (output.slice (64 * i) 64)
            (xor (m.read (plain.slice (64 * i) 64)) (blockOf (cipher.advance ctr i)))) := by
    intro i st m below held _ live live'
    obtain ⟨st', held', ran⟩ := update_run refines held (cipher.advance ctr i)
      (live.slice (i := 64 * i) (n := 64) (by omega))
      (live'.slice (i := 64 * i) (n := 64) (by omega)) rfl rfl
    refine ⟨st', held', ?_⟩
    rw [Stack.bind_run (Buffer.sub_run _ (by omega)), Stack.bind_run (Buffer.sub_run _ (by omega)), ran]
  exact forLoop_chunks (fun _ => inv) (fun _ => True) 64 _ views fits fits'
    (fun i chunk _ width => by rw [xor_length, widths, width, Nat.min_self])
    (fun _ _ _ _ _ => trivial) step st h held trivial live live'

/-- A partial block is combined with the start of its keystream block, and an empty one is skipped. -/
theorem finishBlock_run (len : Nat) (refines : cipher.Refines inv blockOf) (held : inv st) (ctr : C)
    (views : SameOrDisjoint output plain) (live : h.Live output) (live' : h.Live plain)
    (short : len ≤ 64) (size : output.length = len) (size' : plain.length = len) :
    cipher.finishBlock output plain len st ctr h =
      some ((), h.write output (xor (h.read plain) (blockOf ctr))) := by
  unfold finishBlock
  split
  · obtain ⟨st', -, ran⟩ := updateLast_run len refines held ctr views live live' short size size'
    rw [Stack.bind_run ran, Stack.pure_run]
  · -- An empty buffer reads no bytes, and writing none changes nothing.
    have empty : h.read plain = [] :=
      List.eq_nil_of_length_eq_zero (by rw [Mem.read_length live']; omega)
    rw [Stack.pure_run, empty, show xor [] (blockOf ctr) = [] from rfl, Mem.write_nil live]

/-- A message is combined with the keystream of the counters from `ctr` on. -/
theorem counterMode_run {len : UInt32} (refines : cipher.Refines inv blockOf) (held : inv st)
    (views : SameOrDisjoint output plain) (live : h.Live output) (live' : h.Live plain)
    (fits : len.toNat ≤ output.length) (fits' : len.toNat ≤ plain.length) :
    cipher.counterMode output plain len st ctr h =
      some ((), h.write output (xorStream
        (keystream (fun i => blockOf (cipher.advance ctr i)) 64 0) ((h.read plain).take len.toNat))) := by
  have widths (i : Nat) := refines.length held (cipher.advance ctr i)
  have divided := Nat.div_add_mod len.toNat 64
  have bounded := Nat.mod_lt len.toNat (show 0 < 64 by decide)
  have bytes := Mem.read_length live'
  set blocks := len.toNat / 64 with blocks_def
  set rest := len.toNat % 64 with rest_def
  set blockAt := fun i => blockOf (cipher.advance ctr i) with blockAt_def
  -- The whole blocks come first.
  obtain ⟨st', held', ran⟩ := counterModeBlocks_run blocks refines held ctr
    (views.slice (i := 0) (n := 64 * blocks) (by omega) (by omega))
    (live.slice (by omega)) (live'.slice (by omega)) le_rfl le_rfl
  have whole : mapChunks 64 (fun i chunk => xor chunk (blockAt i)) blocks
      ((h.read plain).take (64 * blocks)) =
        xorStream (keystream blockAt 64 0) ((h.read plain).take (64 * blocks)) := by
    rw [xorStream_chunks (by decide) blocks (fun i _ => widths _) (by rw [List.length_take]; omega)]
    simp only [Nat.zero_add, blockAt_def]
  rw [Mem.read_slice _ _ (by omega), List.drop_zero, whole, Mem.write_slice_zero] at ran
  -- The part after them is still as in the initial memory, and gets the next keystream block.
  have done := finishBlock_run rest refines held' (cipher.advance ctr blocks)
    (views.slice (i := 64 * blocks) (n := rest) (by omega) (by omega))
    (streamed_live (keystream blockAt 64 0) plain (64 * blocks) (live.slice (by omega)) live
      (by omega))
    (streamed_live _ _ _ (live'.slice (by omega)) live (by omega)) (by omega) rfl rfl
  have joined := streamed_block blockAt 0 blocks rest (widths _) (by decide) (by omega) views live live' (by omega) (by omega)
  rw [Nat.zero_add] at joined
  rw [joined, divided] at done
  rw [counterMode, shiftRight_six_toNat, and_mask_toNat, ← blocks_def, ← rest_def,
    Stack.bind_run (Buffer.sub_run _ (by omega)), Stack.bind_run (Buffer.sub_run _ (by omega)),
    Stack.bind_run (Buffer.sub_run _ (by omega)), Stack.bind_run (Buffer.sub_run _ (by omega)),
    Stack.bind_run ran]
  exact done

/-- A length that exceeds one of the buffers faults before any byte is written. -/
theorem counterMode_fault {len : UInt32}
    (beyond : output.length < len.toNat ∨ plain.length < len.toNat) :
    cipher.counterMode output plain len st ctr h = none := by
  have divided := Nat.div_add_mod len.toNat 64
  -- One of the four parts does not fit its buffer.
  rw [counterMode, shiftRight_six_toNat, and_mask_toNat]
  by_cases output' : 0 + 64 * (len.toNat / 64) ≤ output.length
  · rw [Stack.bind_run (Buffer.sub_run _ output')]
    by_cases plain' : 0 + 64 * (len.toNat / 64) ≤ plain.length
    · rw [Stack.bind_run (Buffer.sub_run _ plain')]
      by_cases output'' : 64 * (len.toNat / 64) + len.toNat % 64 ≤ output.length
      · rw [Stack.bind_run (Buffer.sub_run _ output'')]
        exact Stack.bind_fault (Buffer.sub_fault _ (by omega)) _
      · exact Stack.bind_fault (Buffer.sub_fault _ (by omega)) _
    · exact Stack.bind_fault (Buffer.sub_fault _ (by omega)) _
  · exact Stack.bind_fault (Buffer.sub_fault _ (by omega)) _

end StreamCipher

end HaclStar.Impl
