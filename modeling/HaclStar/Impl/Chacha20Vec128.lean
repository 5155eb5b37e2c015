import HaclStar.Impl.Chacha20
import HaclStar.Impl.Chacha20Vec128State

/-! The vectorised ChaCha20 implementation: three blocks at a time, single blocks, a partial block. -/

namespace HaclStar.Impl.Chacha20Vec128

open Endianness Keystream Memory Words

/-- Store four rows one after another. -/
def store4Vec (output : Buffer) (v0 v1 v2 v3 : Vec) : Stack Unit := do
  let o0 ← output.sub 0 16
  let o1 ← output.sub 16 16
  let o2 ← output.sub 32 16
  let o3 ← output.sub 48 16
  Vec.storeLe o0 v0
  Vec.storeLe o1 v1
  Vec.storeLe o2 v2
  Vec.storeLe o3 v3

/-- Store the rows of a state. -/
def stateToKeyBlock (streamBlock : Buffer) (k : State) : Stack Unit :=
  store4Vec streamBlock (k.get 0) (k.get 1) (k.get 2) (k.get 3)

/-- Write the keystream block of the counter in the state. -/
def chacha20Block (streamBlock : Buffer) (st : State) : Stack Unit := do
  let k := chacha20Core st
  stateToKeyBlock streamBlock k

/-- The state starts with the counter it is given. -/
def init (k n : Buffer) (ctr : UInt32) : Stack State := stateSetup k n ctr

/-- Encrypt a final partial block, byte by byte. -/
def updateLast (output plain : Buffer) (len : Nat) (st : State) : Stack Unit :=
  maskLast (fun streamBlock => chacha20Block streamBlock st) output plain len

/-- Combine a block with four rows of keystream. -/
def xorBlock (output plain : Buffer) (st : State) : Stack Unit := do
  let b0 ← plain.sub 0 16
  let p0 ← Vec.loadLe b0
  let b1 ← plain.sub 16 16
  let p1 ← Vec.loadLe b1
  let b2 ← plain.sub 32 16
  let p2 ← Vec.loadLe b2
  let b3 ← plain.sub 48 16
  let p3 ← Vec.loadLe b3
  let o0 := p0.xor (st.get 0)
  let o1 := p1.xor (st.get 1)
  let o2 := p2.xor (st.get 2)
  let o3 := p3.xor (st.get 3)
  store4Vec output o0 o1 o2 o3

/-- Encrypt one block with the counter in the state. -/
def update (output plain : Buffer) (st : State) : Stack Unit := do
  let k := chacha20Core st
  xorBlock output plain k

/-- Encrypt three blocks with the counter in the state and the next two. -/
def update3 (output plain : Buffer) (st : State) : Stack State := do
  let (k, st) := chacha20Core3 st
  let p0 ← plain.sub 0 64
  let p1 ← plain.sub 64 64
  let p2 ← plain.sub 128 64
  let o0 ← output.sub 0 64
  let o1 ← output.sub 64 64
  let o2 ← output.sub 128 64
  xorBlock o0 p0 k.1
  xorBlock o1 p1 k.2.1
  xorBlock o2 p2 k.2.2
  return st

/-- Encrypt the three blocks numbered `i`, and move the counter past them. -/
def update3' (output plain : Buffer) (i : Nat) (st : State) : Stack State := do
  let outBlock ← output.sub (192 * i) 192
  let plainBlock ← plain.sub (192 * i) 192
  let st ← update3 outBlock plainBlock st
  return stateIncr st

/-- Encrypt blocks three at a time. -/
def chacha20CounterModeBlocks3 (output plain : Buffer) (len : Nat) (st : State) : Stack State :=
  forLoop (fun i st => update3' output plain i st) len st

/-- Encrypt whole blocks: three at a time, then the one or two that remain. -/
def chacha20CounterModeBlocks (output plain : Buffer) (len : Nat) (st : State) : Stack State := do
  let len3 := len / 3
  let rest3 := len % 3
  let plain' ← plain.sub 0 (192 * len3)
  let blocks ← plain.sub (192 * len3) (64 * rest3)
  let output' ← output.sub 0 (192 * len3)
  let outs ← output.sub (192 * len3) (64 * rest3)
  let st ← chacha20CounterModeBlocks3 output' plain' len3 st
  if rest3 = 2 then do
    let block0 ← blocks.sub 0 64
    let block1 ← blocks.sub 64 64
    let out0 ← outs.sub 0 64
    let out1 ← outs.sub 64 64
    update out0 block0 st
    let st := stateIncr st
    update out1 block1 st
    return stateIncr st
  else if rest3 = 1 then do
    update outs blocks st
    return stateIncr st
  else return st

/-- Encrypt a message: its whole blocks, then the rest. -/
def chacha20CounterMode (output plain : Buffer) (len : UInt32) (st : State) : Stack Unit := do
  let blocksLen := (len >>> 6).toNat
  let partLen := (len &&& 0x3f).toNat
  let output' ← output.sub 0 (64 * blocksLen)
  let plain' ← plain.sub 0 (64 * blocksLen)
  let output'' ← output.sub (64 * blocksLen) partLen
  let plain'' ← plain.sub (64 * blocksLen) partLen
  let st ← chacha20CounterModeBlocks output' plain' blocksLen st
  if 0 < partLen then updateLast output'' plain'' partLen st else return ()

/-- Encrypt a message with the vectorised cipher. -/
def chacha20 (output plain : Buffer) (len : UInt32) (k n : Buffer) (ctr : UInt32) : Stack Unit := do
  let st ← init k n ctr
  chacha20CounterMode output plain len st

/-- The state that belongs to a key, a nonce and a counter. -/
def Keyed (k n : Bytes) (c : Nat) (st : State) : Prop := words st = Spec.Chacha20.setup k n c

variable {h : Mem} {output plain kb nb : Buffer} {k n : Bytes} {c : Nat} {st : State}

/-- Adding one to the last row moves the state to the next counter. -/
theorem Keyed.incr (keyed : Keyed k n c st) : Keyed k n (c + 1) (stateIncr st) := by
  have word : UInt32.ofNat c + 1 = UInt32.ofNat (c + 1) := by
    rw [UInt32.ofNat_add]
    rfl
  -- Only the counter word changes.
  rw [Keyed, stateIncr_words, keyed, Spec.Chacha20.setup_counter, Spec.Chacha20.setup_set, word]
  simp only [Spec.Chacha20.setup, UInt32.ofNat_toNat]

/-- The core on a keyed state yields the keystream block of its counter. -/
theorem Keyed.block (keyed : Keyed k n c st) :
    Spec.uint32sToLe 16 (words (chacha20Core st)) = Spec.Chacha20.chacha20Block k n c := by
  rw [chacha20Core_words, keyed, Spec.Chacha20.chacha20Block]

/-- The bytes of a state are the bytes of its rows. -/
theorem words_bytes (st : State) :
    Spec.uint32sToLe 16 (words st) = Spec.uint32sToLe 4 (st.get 0) ++ (Spec.uint32sToLe 4 (st.get 1) ++
      (Spec.uint32sToLe 4 (st.get 2) ++ Spec.uint32sToLe 4 (st.get 3))) := by
  rw [Spec.uint32sToLe, Spec.uint32sToLe, Spec.uint32sToLe, Spec.uint32sToLe, Spec.uint32sToLe,
    ← Spec.uint32Le.toBytes_append, ← Spec.uint32Le.toBytes_append, ← Spec.uint32Le.toBytes_append]
  rfl

/-- Four stored rows are the bytes of the state they form. -/
theorem store4Vec_run (st : State) (live : h.Live output) (fits : 64 ≤ output.length) :
    store4Vec output (st.get 0) (st.get 1) (st.get 2) (st.get 3) h =
      some ((), h.write output (Spec.uint32sToLe 16 (words st))) := by
  have part (m : Mem) (start : Nat) (v : Vec) (live : m.Live output) (within : start + 16 ≤ 64) :
      Vec.storeLe (output.slice start 16) v m =
        some ((), m.write (output.slice start 16) (Spec.uint32sToLe 4 v)) :=
    uint32sToLeBytes_run v (live.slice (by omega)) (le_refl 16)
  have joined (first : Bytes) (v : Vec) (within : first.length + 16 ≤ 64) :
      (h.write output first).write (output.slice first.length 16) (Spec.uint32sToLe 4 v) =
        h.write output (first ++ Spec.uint32sToLe 4 v) :=
    Mem.write_append live first _ 16 (by rw [Spec.uint32sToLe_length]; omega)
      (by rw [Spec.uint32sToLe_length]) (by omega)
  have join1 := joined (Spec.uint32sToLe 4 (st.get 0)) (st.get 1) (by simp)
  have join2 := joined (Spec.uint32sToLe 4 (st.get 0) ++ Spec.uint32sToLe 4 (st.get 1)) (st.get 2) (by simp)
  have join3 := joined (Spec.uint32sToLe 4 (st.get 0) ++ Spec.uint32sToLe 4 (st.get 1) ++
    Spec.uint32sToLe 4 (st.get 2)) (st.get 3) (by simp)
  simp only [List.length_append, Spec.uint32sToLe_length, Nat.reduceMul, Nat.reduceAdd]
    at join1 join2 join3
  have kept (bytes : Bytes) (short : bytes.length ≤ 64) : (h.write output bytes).Live output :=
    live.write live (by omega)
  -- Each row is stored right after the ones before it.
  rw [store4Vec, Stack.bind_run (Buffer.sub_run _ (by omega)),
    Stack.bind_run (Buffer.sub_run _ (by omega)), Stack.bind_run (Buffer.sub_run _ (by omega)),
    Stack.bind_run (Buffer.sub_run _ (by omega)), Stack.bind_run (part h 0 (st.get 0) live (by omega)),
    Mem.write_slice_zero, Stack.bind_run (part _ 16 (st.get 1) (kept _ (by simp)) (by omega)), join1,
    Stack.bind_run (part _ 32 (st.get 2) (kept _ (by simp)) (by omega)), join2,
    part _ 48 (st.get 3) (kept _ (by simp)) (by omega), join3, words_bytes, List.append_assoc,
    List.append_assoc]

/-- Sixteen bytes of a block are loaded as a row. -/
theorem loadLe_run {start : Nat} (live : h.Live plain) (within : start + 16 ≤ plain.length) :
    Vec.loadLe (plain.slice start 16) h =
      some (Spec.uint32sFromLe 4 (((h.read plain).drop start).take 16), h) := by
  rw [Vec.loadLe, uint32sFromLeBytes_run (live.slice within) (le_refl 16), Mem.read_slice _ _ within,
    List.take_take, show min (4 * 4) 16 = 16 from rfl]

/-- Four loaded rows form the state of the block they are loaded from. -/
theorem words_fromLe {bytes : Bytes} (size : bytes.length = 64) :
    Spec.uint32sToLe 16 (words #v[Spec.uint32sFromLe 4 ((bytes.drop 0).take 16),
      Spec.uint32sFromLe 4 ((bytes.drop 16).take 16), Spec.uint32sFromLe 4 ((bytes.drop 32).take 16),
      Spec.uint32sFromLe 4 ((bytes.drop 48).take 16)]) = bytes := by
  have part (start : Nat) (within : start + 16 ≤ 64) :
      Spec.uint32sToLe 4 (Spec.uint32sFromLe 4 ((bytes.drop start).take 16)) =
        (bytes.drop start).take 16 :=
    Spec.uint32Le.toBytes_fromBytes 4 _
      (by rw [List.length_take, List.length_drop, size]; show min 16 _ = 4 * 4; omega)
  have rest : (bytes.drop 48).take 16 = bytes.drop 48 :=
    List.take_of_length_le (by rw [List.length_drop]; omega)
  have cut (start : Nat) :
      (bytes.drop start).take 16 ++ bytes.drop (start + 16) = bytes.drop start := by
    rw [← List.drop_drop, List.take_append_drop]
  -- The four parts follow one another.
  rw [words_bytes]
  show Spec.uint32sToLe 4 (Spec.uint32sFromLe 4 _) ++ (Spec.uint32sToLe 4 (Spec.uint32sFromLe 4 _) ++
    (Spec.uint32sToLe 4 (Spec.uint32sFromLe 4 _) ++ Spec.uint32sToLe 4 (Spec.uint32sFromLe 4 _))) = _
  rw [part 0 (by omega), part 16 (by omega), part 32 (by omega), part 48 (by omega), rest,
    cut 32, cut 16, cut 0, List.drop_zero]

/-- Exclusive or of rows is exclusive or of words. -/
theorem words_xor (st st' : State) :
    words (Vector.zipWith Vec.xor st st') = Vector.zipWith (· ^^^ ·) (words st) (words st') := by
  apply Vector.ext
  intro i inside
  simp [words_get, Vec.xor]

/-- Rows are combined one by one. -/
theorem zipWith_row (f : Vec → Vec → Vec) (st st' : State) (i : Fin 4) :
    (Vector.zipWith f st st').get i = f (st.get i) (st'.get i) := by
  exact Vector.getElem_zipWith i.isLt

/-- A block is combined with the bytes of a state. -/
theorem xorBlock_run (st : State) (live : h.Live output) (live' : h.Live plain)
    (size : output.length = 64) (size' : plain.length = 64) :
    xorBlock output plain st h =
      some ((), h.write output (xor (h.read plain) (Spec.uint32sToLe 16 (words st)))) := by
  have bytes := Mem.read_length live'
  set p : State := #v[Spec.uint32sFromLe 4 (((h.read plain).drop 0).take 16),
    Spec.uint32sFromLe 4 (((h.read plain).drop 16).take 16),
    Spec.uint32sFromLe 4 (((h.read plain).drop 32).take 16),
    Spec.uint32sFromLe 4 (((h.read plain).drop 48).take 16)] with p_def
  have combined := store4Vec_run (Vector.zipWith Vec.xor p st) live (by omega)
  rw [words_xor, Spec.uint32sToLe_xor, p_def, words_fromLe (by omega)] at combined
  rw [xorBlock, Stack.bind_run (Buffer.sub_run _ (by omega)),
    Stack.bind_run (loadLe_run live' (by omega)), Stack.bind_run (Buffer.sub_run _ (by omega)),
    Stack.bind_run (loadLe_run live' (by omega)), Stack.bind_run (Buffer.sub_run _ (by omega)),
    Stack.bind_run (loadLe_run live' (by omega)), Stack.bind_run (Buffer.sub_run _ (by omega)),
    Stack.bind_run (loadLe_run live' (by omega)), ← combined]
  simp only [zipWith_row]
  rfl

/-- One block is combined with the keystream block of the counter. -/
theorem update_run (keyed : Keyed k n c st) (live : h.Live output) (live' : h.Live plain)
    (size : output.length = 64) (size' : plain.length = 64) :
    update output plain st h =
      some ((), h.write output (xor (h.read plain) (Spec.Chacha20.chacha20Block k n c))) := by
  rw [← keyed.block]
  exact xorBlock_run _ live live' size size'

/-- A final partial block is combined with the start of the keystream block of the counter. -/
theorem updateLast_run (len : Nat) (keyed : Keyed k n c st) (views : SameOrDisjoint output plain)
    (live : h.Live output) (live' : h.Live plain) (short : len ≤ 64)
    (size : output.length = len) (size' : plain.length = len) :
    updateLast output plain len st h =
      some ((), h.write output (xor (h.read plain) (Spec.Chacha20.chacha20Block k n c))) := by
  apply maskLast_run views live live' (Spec.Chacha20.chacha20Block_length k n c) short size size'
  rw [← keyed.block]
  exact store4Vec_run _ (Mem.fresh_live h 64) (le_refl 64)

/-- Encrypting the next block extends the encrypted bytes by a block. -/
theorem update_next {m : Nat} (keyed : Keyed k n (c + m) st) (views : SameOrDisjoint output plain)
    (live : h.Live output) (live' : h.Live plain)
    (fits : 64 * (m + 1) ≤ output.length) (fits' : 64 * (m + 1) ≤ plain.length) :
    update (output.slice (64 * m) 64) (plain.slice (64 * m) 64) st
        (streamed h (keystream (Spec.Chacha20.chacha20Block k n) 64 c) output plain (64 * m)) =
      some ((), streamed h (keystream (Spec.Chacha20.chacha20Block k n) 64 c) output plain
        (64 * (m + 1))) := by
  rw [update_run keyed (streamed_live _ _ _ (live.slice (by omega)) live (by omega))
    (streamed_live _ _ _ (live'.slice (by omega)) live (by omega)) rfl rfl,
    streamed_block _ _ _ _ (Spec.Chacha20.chacha20Block_length k n _) (by omega) le_rfl views live live'
      (by omega) (by omega), Nat.mul_succ]

/-- Three blocks at once are three successive blocks, and the state keeps the last counter. -/
theorem update3_run (keyed : Keyed k n c st) (views : SameOrDisjoint output plain)
    (live : h.Live output) (live' : h.Live plain)
    (size : output.length = 192) (size' : plain.length = 192) :
    ∃ st', Keyed k n (c + 2) st' ∧ update3 output plain st h =
      some (st', h.write output
        (xorStream (keystream (Spec.Chacha20.chacha20Block k n) 64 c) (h.read plain))) := by
  have bytes := Mem.read_length live'
  have next1 : Keyed k n (c + 1) (stateIncr st) := keyed.incr
  have next2 : Keyed k n (c + 2) (stateIncr (stateIncr st)) := next1.incr
  have first := update_next (m := 0) (c := c) keyed views live live' (by omega) (by omega)
  have second := update_next (m := 1) (c := c) next1 views live live' (by omega) (by omega)
  have third := update_next (m := 2) (c := c) next2 views live live' (by omega) (by omega)
  rw [Nat.mul_zero, streamed_zero live] at first
  simp only [update, Nat.reduceMul, Nat.reduceAdd] at first second third
  refine ⟨stateIncr (stateIncr st), next2, ?_⟩
  -- The three states hold the keystream rows of the three counters.
  rw [update3, chacha20Core3_eq]
  simp only []
  rw [Stack.bind_run (Buffer.sub_run _ (by omega)), Stack.bind_run (Buffer.sub_run _ (by omega)),
    Stack.bind_run (Buffer.sub_run _ (by omega)), Stack.bind_run (Buffer.sub_run _ (by omega)),
    Stack.bind_run (Buffer.sub_run _ (by omega)), Stack.bind_run (Buffer.sub_run _ (by omega)),
    Stack.bind_run first, Stack.bind_run second, Stack.bind_run third, Stack.pure_run, streamed,
    List.take_of_length_le (by omega)]

/-- Blocks three at a time are encrypted with the keystream, and the counter moves past them. -/
theorem chacha20CounterModeBlocks3_run (len : Nat) (keyed : Keyed k n c st)
    (views : SameOrDisjoint output plain) (live : h.Live output) (live' : h.Live plain)
    (fits : 192 * len ≤ output.length) (fits' : 192 * len ≤ plain.length) :
    ∃ st', Keyed k n (c + 3 * len) st' ∧ chacha20CounterModeBlocks3 output plain len st h =
      some (st', streamed h (keystream (Spec.Chacha20.chacha20Block k n) 64 c) output plain
        (192 * len)) := by
  have step : ∀ i st (m : Mem), i < len → Keyed k n (c + 3 * i) st → True → m.Live output →
      m.Live plain → ∃ st', Keyed k n (c + 3 * (i + 1)) st' ∧ update3' output plain i st m =
        some (st', m.write (output.slice (192 * i) 192)
          (xorStream (fun j => keystream (Spec.Chacha20.chacha20Block k n) 64 c (192 * i + j))
            (m.read (plain.slice (192 * i) 192)))) := by
    intro i st m below keyed _ live live'
    have shifted : (fun j => keystream (Spec.Chacha20.chacha20Block k n) 64 c (192 * i + j)) =
        keystream (Spec.Chacha20.chacha20Block k n) 64 (c + 3 * i) := by
      funext j
      rw [show 192 * i = 64 * (3 * i) by omega]
      exact keystream_shift (by omega) (3 * i) j
    obtain ⟨st', keyed', ran⟩ := update3_run keyed
      (views.slice (i := 192 * i) (n := 192) (by omega) (by omega))
      (live.slice (by omega)) (live'.slice (by omega)) rfl rfl
    refine ⟨stateIncr st', keyed'.incr, ?_⟩
    rw [update3', Stack.bind_run (Buffer.sub_run _ (by omega)),
      Stack.bind_run (Buffer.sub_run _ (by omega)), Stack.bind_run ran, Stack.pure_run, shifted]
  obtain ⟨st', keyed', ran⟩ := forLoop_chunks (fun i => Keyed k n (c + 3 * i))
    (fun _ => True) 192 _ views fits fits'
    (fun i chunk _ width => by rw [xorStream_length, width]) (fun _ _ _ _ _ => trivial) step st h
    keyed trivial live live'
  refine ⟨st', keyed', ?_⟩
  rw [chacha20CounterModeBlocks3, ran, mapChunks_xorStream (by rw [Mem.read_length live']; omega),
    streamed]

/-- Whole blocks are encrypted with the keystream, and the counter moves past them. -/
theorem chacha20CounterModeBlocks_run (len : Nat) (keyed : Keyed k n c st)
    (views : SameOrDisjoint output plain) (live : h.Live output) (live' : h.Live plain)
    (fits : 64 * len ≤ output.length) (fits' : 64 * len ≤ plain.length) :
    ∃ st', Keyed k n (c + len) st' ∧ chacha20CounterModeBlocks output plain len st h =
      some (st', streamed h (keystream (Spec.Chacha20.chacha20Block k n) 64 c) output plain
        (64 * len)) := by
  have divided := Nat.div_add_mod len 3
  have bounded := Nat.mod_lt len (show 0 < 3 by decide)
  set len3 := len / 3
  set rest3 := len % 3
  obtain ⟨st', keyed', ran⟩ := chacha20CounterModeBlocks3_run len3 keyed
    (views.slice (i := 0) (n := 192 * len3) (by omega) (by omega))
    (live.slice (by omega)) (live'.slice (by omega)) le_rfl le_rfl
  rw [streamed_slice le_rfl (by omega), show 192 * len3 = 64 * (3 * len3) by omega] at ran
  rw [chacha20CounterModeBlocks, show 192 * (len / 3) = 64 * (3 * len3) by omega,
    Stack.bind_run (Buffer.sub_run _ (by omega)), Stack.bind_run (Buffer.sub_run _ (by omega)),
    Stack.bind_run (Buffer.sub_run _ (by omega)), Stack.bind_run (Buffer.sub_run _ (by omega)),
    Stack.bind_run ran]
  by_cases two : rest3 = 2
  · -- Two more blocks, the counter moving after each.
    have first := update_next keyed' views live live' (by omega) (by omega)
    have next : Keyed k n (c + (3 * len3 + 1)) (stateIncr st') := keyed'.incr
    have second := update_next next views live live' (by omega) (by omega)
    refine ⟨stateIncr (stateIncr st'), ?_, ?_⟩
    · have last := next.incr
      rwa [show c + (3 * len3 + 1) + 1 = c + len by omega] at last
    · rw [if_pos two, Stack.bind_run (Buffer.sub_run _ (by rw [Buffer.slice_length]; omega)),
        Stack.bind_run (Buffer.sub_run _ (by rw [Buffer.slice_length]; omega)),
        Stack.bind_run (Buffer.sub_run _ (by rw [Buffer.slice_length]; omega)),
        Stack.bind_run (Buffer.sub_run _ (by rw [Buffer.slice_length]; omega))]
      simp only [Buffer.slice_slice, Nat.add_zero, show 64 * (3 * len3) + 64 = 64 * (3 * len3 + 1) by omega]
      rw [Stack.bind_run first, Stack.bind_run second, Stack.pure_run,
        show 3 * len3 + 1 + 1 = len by omega]
  by_cases one : rest3 = 1
  · refine ⟨stateIncr st', ?_, ?_⟩
    · have last := keyed'.incr
      rwa [show c + 3 * len3 + 1 = c + len by omega] at last
    · have last := update_next keyed' views live live' (by omega) (by omega)
      rw [if_neg two, if_pos one, show len % 3 = 1 from one, Nat.mul_one, Stack.bind_run last, Stack.pure_run,
        show 3 * len3 + 1 = len by omega]
  · refine ⟨st', ?_, ?_⟩
    · rwa [show c + 3 * len3 = c + len by omega] at keyed'
    · rw [if_neg two, if_neg one, Stack.pure_run, show 3 * len3 = len by omega]

/-- A message is combined with the keystream of the counters from that of the state on. -/
theorem chacha20CounterMode_run {len : UInt32} (keyed : Keyed k n c st)
    (views : SameOrDisjoint output plain) (live : h.Live output) (live' : h.Live plain)
    (fits : len.toNat ≤ output.length) (fits' : len.toNat ≤ plain.length) :
    chacha20CounterMode output plain len st h =
      some ((), streamed h (keystream (Spec.Chacha20.chacha20Block k n) 64 c) output plain
        len.toNat) := by
  have divided := Nat.div_add_mod len.toNat 64
  have bounded := Nat.mod_lt len.toNat (show 0 < 64 by decide)
  set blocks := len.toNat / 64 with blocks_def
  set rest := len.toNat % 64 with rest_def
  -- The whole blocks come first.
  obtain ⟨st', keyed', ran⟩ := chacha20CounterModeBlocks_run blocks keyed
    (views.slice (i := 0) (n := 64 * blocks) (by omega) (by omega))
    (live.slice (by omega)) (live'.slice (by omega)) le_rfl le_rfl
  rw [streamed_slice le_rfl (by omega)] at ran
  rw [chacha20CounterMode, shiftRight_six_toNat, and_mask_toNat, ← blocks_def, ← rest_def,
    Stack.bind_run (Buffer.sub_run _ (by omega)), Stack.bind_run (Buffer.sub_run _ (by omega)),
    Stack.bind_run (Buffer.sub_run _ (by omega)), Stack.bind_run (Buffer.sub_run _ (by omega)),
    Stack.bind_run ran]
  split
  · -- The part after them gets the next keystream block.
    rw [updateLast_run rest keyed'
      (views.slice (i := 64 * blocks) (n := rest) (by omega) (by omega))
      (streamed_live _ _ _ (live.slice (by omega)) live (by omega))
      (streamed_live _ _ _ (live'.slice (by omega)) live (by omega)) (by omega) rfl rfl,
      streamed_block _ _ _ _ (Spec.Chacha20.chacha20Block_length k n _) (by decide) (by omega) views live
        live' (by omega) (by omega), divided]
  · rw [Stack.pure_run, show 64 * blocks = len.toNat by omega]

/-- The rows of a state may be joined from either end. -/
theorem rows_assoc (a b c : Vec) (d : Vector UInt32 1) (e : Vector UInt32 3) :
    (a ++ (b ++ (c ++ (d ++ e)))).toArray = (a ++ (b ++ c) ++ d ++ e).toArray := by
  simp only [Vector.toArray_append, Array.append_assoc]

/-- The constants, the halves of the key, and the counter with the nonce are the specification's state. -/
theorem words_setup (n : Bytes) (ctr : UInt32) (size : k.length = 32) :
    words #v[constantSetup, Spec.uint32sFromLe 4 ((k.drop 0).take 16), Spec.uint32sFromLe 4 ((k.drop 16).take 16),
      #v[ctr] ++ Spec.uint32sFromLe 3 n] = Spec.Chacha20.setup k n ctr.toNat := by
  have joined : Spec.uint32sFromLe 8 k =
      Spec.uint32sFromLe 4 ((k.drop 0).take 16) ++ Spec.uint32sFromLe 4 ((k.drop 16).take 16) := by
    have cut := Spec.uint32Le.fromBytes_append 4 4 (k.take 16) (k.drop 16)
      (by rw [List.length_take, size]; rfl) (by rw [List.length_drop, size]; rfl)
    rw [List.take_append_drop] at cut
    rw [List.drop_zero, List.take_of_length_le (l := k.drop 16) (by rw [List.length_drop]; omega)]
    exact cut
  -- The two halves of the key are joined in the specification.
  rw [Spec.Chacha20.setup, joined, UInt32.ofNat_toNat]
  exact Vector.toArray_inj.mp (rows_assoc constantSetup _ _ #v[ctr] _)

/-- The rows set up are those of the specification's state. -/
theorem init_run (ctr : UInt32) (live : h.Live kb) (live' : h.Live nb)
    (size : kb.length = 32) (size' : nb.length = 12) :
    ∃ st, Keyed (h.read kb) (h.read nb) ctr.toNat st ∧ init kb nb ctr h = some (st, h) := by
  have key := Mem.read_length live
  have nonce := Mem.read_length live'
  refine ⟨#v[constantSetup, Spec.uint32sFromLe 4 (((h.read kb).drop 0).take 16),
    Spec.uint32sFromLe 4 (((h.read kb).drop 16).take 16),
    #v[ctr] ++ Spec.uint32sFromLe 3 (h.read nb)], words_setup _ ctr (by rw [key, size]), ?_⟩
  have loaded : keysetup kb h = some ((Spec.uint32sFromLe 4 (((h.read kb).drop 0).take 16),
      Spec.uint32sFromLe 4 (((h.read kb).drop 16).take 16)), h) := by
    rw [keysetup, Stack.bind_run (Buffer.sub_run _ (by omega)),
      Stack.bind_run (loadLe_run live (by omega)), Stack.bind_run (Buffer.sub_run _ (by omega)),
      Stack.bind_run (loadLe_run live (by omega)), Stack.pure_run]
  have loaded' : ctrIvsetup ctr nb h = some (#v[ctr] ++ Spec.uint32sFromLe 3 (h.read nb), h) := by
    rw [ctrIvsetup, Stack.bind_run (uint32sFromLeBytes_run live' (by omega)),
      List.take_of_length_le (by omega), Stack.pure_run]
    rfl
  rw [init, stateSetup, Stack.bind_run loaded, Stack.bind_run loaded', Stack.pure_run]

/-- Encryption writes the message combined with the specification's keystream. -/
theorem chacha20_run {len ctr : UInt32} (views : SameOrDisjoint output plain) (live : h.Live output)
    (live' : h.Live plain) (liveKey : h.Live kb) (liveNonce : h.Live nb)
    (size : kb.length = 32) (size' : nb.length = 12)
    (fits : len.toNat ≤ output.length) (fits' : len.toNat ≤ plain.length) :
    chacha20 output plain len kb nb ctr h = some ((), h.write output
      (Spec.Chacha20.chacha20EncryptBytes (h.read kb) (h.read nb) ctr.toNat
        ((h.read plain).take len.toNat))) := by
  obtain ⟨st, keyed, ran⟩ := init_run ctr liveKey liveNonce size size'
  rw [chacha20, Stack.bind_run ran, chacha20CounterMode_run keyed views live live' fits fits',
    streamed, Spec.Chacha20.chacha20EncryptBytes_keystream]

end HaclStar.Impl.Chacha20Vec128
