import HaclStar.Lib.Arrays
import HaclStar.Spec.SHA2

/-! The SHA-2 implementations: a state of words with a block counter, fed block after block.
Their bit functions on secret words are those of the specification. -/

namespace HaclStar.Impl.SHA2

open Endianness Memory Words Spec.SHA2

/-- What the implementations differ in. -/
structure Algorithm (n sizeK : Nat) where
  bigSigma0 : BitVec (8 * n) → BitVec (8 * n)
  bigSigma1 : BitVec (8 * n) → BitVec (8 * n)
  smallSigma0 : BitVec (8 * n) → BitVec (8 * n)
  smallSigma1 : BitVec (8 * n) → BitVec (8 * n)
  k : Vector (BitVec (8 * n)) sizeK
  h0 : Vector (BitVec (8 * n)) 8
  sizeBlock : UInt32
  sizeLen : UInt32
  sizeHashFinal : Nat
  /-- Shorter rests leave room for the padding in one block. -/
  oneBlock : UInt32
  pad0Length : UInt32 → UInt32
  /-- The bytes stored for the bit length of a number of blocks and a rest. -/
  encodeLength : BitVec (8 * n) → UInt32 → Bytes

/-- The state: round constants, scheduled words, hash value, and the number of blocks. -/
structure State (n sizeK : Nat) where
  k : Vector (BitVec (8 * n)) sizeK
  ws : Vector (BitVec (8 * n)) sizeK
  whash : Vector (BitVec (8 * n)) 8
  count : BitVec (8 * n)

variable {n sizeK : Nat}

/-- A state of zeros. -/
def alloc : State n sizeK := ⟨Vector.replicate sizeK 0, Vector.replicate sizeK 0, Vector.replicate 8 0, 0⟩

/-- Add the words of two hash values. -/
def sumHash (hash0 hash1 : Vector (BitVec (8 * n)) 8) : Vector (BitVec (8 * n)) 8 :=
  Vector.zipWith (fun x y => x + y) hash0 hash1

/-- Count one more block. -/
def counterIncrement (counter : BitVec (8 * n)) : BitVec (8 * n) := counter + 1

variable (alg : Algorithm n sizeK)

namespace Algorithm

/-- Copy a word of the block to the schedule. -/
def wsPart1Core (ws : Vector (BitVec (8 * n)) sizeK) (block : Vector (BitVec (8 * n)) 16) (t : Nat) :
    Stack (Vector (BitVec (8 * n)) sizeK) := do
  let b ← readWord block t
  writeWord ws t b

/-- Schedule the words of the block. -/
def wsPart1 (ws : Vector (BitVec (8 * n)) sizeK) (block : Vector (BitVec (8 * n)) 16) :
    Stack (Vector (BitVec (8 * n)) sizeK) :=
  forLoop (fun t ws => wsPart1Core ws block t) 16 ws

/-- Schedule a later word. -/
def wsPart2Core (ws : Vector (BitVec (8 * n)) sizeK) (t : Nat) :
    Stack (Vector (BitVec (8 * n)) sizeK) := do
  let t16 ← readWord ws (t - 16)
  let t15 ← readWord ws (t - 15)
  let t7 ← readWord ws (t - 7)
  let t2 ← readWord ws (t - 2)
  writeWord ws t (alg.smallSigma1 t2 + (t7 + (alg.smallSigma0 t15 + t16)))

/-- Schedule the words from the sixteenth on. -/
def wsPart2 (ws : Vector (BitVec (8 * n)) sizeK) : Stack (Vector (BitVec (8 * n)) sizeK) :=
  forLoop (fun i ws => alg.wsPart2Core ws (16 + i)) (sizeK - 16) ws

/-- Schedule all words for a block. -/
def ws (ws : Vector (BitVec (8 * n)) sizeK) (block : Vector (BitVec (8 * n)) 16) :
    Stack (Vector (BitVec (8 * n)) sizeK) := do
  let ws ← wsPart1 ws block
  alg.wsPart2 ws

/-- One round. -/
def shuffleCore (hash : Vector (BitVec (8 * n)) 8) (ws k : Vector (BitVec (8 * n)) sizeK) (t : Nat) :
    Stack (Vector (BitVec (8 * n)) 8) := do
  let a := hash.get 0
  let b := hash.get 1
  let c := hash.get 2
  let d := hash.get 3
  let e := hash.get 4
  let f := hash.get 5
  let g := hash.get 6
  let h := hash.get 7
  let kt ← readWord k t
  let wst ← readWord ws t
  let t1 := h + alg.bigSigma1 e + ch e f g + kt + wst
  let t2 := alg.bigSigma0 a + maj a b c
  return create8 (t1 + t2) a b c (d + t1) e f g

/-- All rounds. -/
def shuffle (hash : Vector (BitVec (8 * n)) 8) (ws k : Vector (BitVec (8 * n)) sizeK) :
    Stack (Vector (BitVec (8 * n)) 8) :=
  forLoop (fun t hash => alg.shuffleCore hash ws k t) sizeK hash

/-- Compress a scheduled block into the hash value. -/
def updateCore (hashW : Vector (BitVec (8 * n)) 8) (ws k : Vector (BitVec (8 * n)) sizeK) :
    Stack (Vector (BitVec (8 * n)) 8) := do
  let hash0 ← alg.shuffle hashW ws k
  return sumHash hashW hash0

/-- Set the constants and the initial hash value, and start counting. -/
def init (st : State n sizeK) : State n sizeK :=
  { st with k := alg.k, whash := alg.h0, count := 0 }

/-- Process one block. -/
def update (st : State n sizeK) (data : Buffer) : Stack (State n sizeK) := do
  let dataW ← wordsFromBytes (wordBe n) (Vector.replicate 16 0) data 16
  let ws ← alg.ws st.ws dataW
  let whash ← alg.updateCore st.whash ws st.k
  return ⟨st.k, ws, whash, counterIncrement st.count⟩

/-- Process block after block. -/
def updateMulti (st : State n sizeK) (data : Buffer) (blocks : UInt32) : Stack (State n sizeK) :=
  forLoop (fun i st => do
    let b ← data.sub (i * alg.sizeBlock.toNat) alg.sizeBlock.toNat
    alg.update st b) blocks.toNat st

/-- Pad a rest: a marker, zeros that are there, and the bit length. -/
def pad (padding : Buffer) (count : BitVec (8 * n)) (len : UInt32) : Stack Unit := do
  let pad0len := alg.pad0Length len
  let buf1 ← padding.sub 0 1
  let _zeros ← padding.sub 1 pad0len.toNat
  let buf2 ← padding.sub (1 + pad0len.toNat) alg.sizeLen.toNat
  let encodedlen := alg.encodeLength count len
  buf1.store [0x80]
  buf2.store encodedlen

/-- The second of two zero blocks, or both of them when the rest and its padding need both. -/
def finalBlocks (blocks : Buffer) (len : UInt32) : Stack Buffer :=
  if len < alg.oneBlock then blocks.offset alg.sizeBlock.toNat else pure blocks

/-- Copy the rest in front of zeros and pad it. -/
def fill (finalBlocks data : Buffer) (count : BitVec (8 * n)) (len : UInt32) : Stack Unit := do
  Buffer.blit data 0 finalBlocks 0 len.toNat
  let padding ← finalBlocks.offset len.toNat
  alg.pad padding count len

/-- Process the rest with its padding. -/
def updateLast (st : State n sizeK) (data : Buffer) (len : UInt32) : Stack (State n sizeK) := inFrame do
  let blocks ← create (2 * alg.sizeBlock.toNat)
  let nb : UInt32 := if len < alg.oneBlock then 1 else 2
  let finalBlocks ← alg.finalBlocks blocks len
  alg.fill finalBlocks data st.count len
  alg.updateMulti st finalBlocks nb

/-- Store the final words. -/
def finish (st : State n sizeK) (hash : Buffer) : Stack Unit :=
  wordsToBytes (wordBe n) hash st.whash alg.sizeHashFinal

/-- Hash a buffer at once. -/
def hash (hash input : Buffer) (len : UInt32) : Stack Unit := inFrame do
  let st := alloc
  let blocks := len / alg.sizeBlock
  let r := len % alg.sizeBlock
  let inputBlocks ← input.sub 0 (blocks * alg.sizeBlock).toNat
  let inputLast ← input.sub (blocks * alg.sizeBlock).toNat r.toNat
  let st := alg.init st
  let st ← alg.updateMulti st inputBlocks blocks
  let st ← alg.updateLast st inputLast r
  alg.finish st hash

end Algorithm

section Runs

variable {alg : Algorithm n sizeK} {spec : Spec.SHA2.Algorithm n sizeK} {h : Mem}

/-- The rests that an implementation accepts. -/
def Algorithm.Accepts (alg : Algorithm n sizeK) (len : UInt32) : Prop :=
  len.toNat + alg.sizeLen.toNat + 1 < 2 * alg.sizeBlock.toNat

/-- An implementation has the functions, the constants and the padding of a specification. -/
structure Implements (alg : Algorithm n sizeK) (spec : Spec.SHA2.Algorithm n sizeK) : Prop where
  bigSigma0 : alg.bigSigma0 = spec.bigSigma0
  bigSigma1 : alg.bigSigma1 = spec.bigSigma1
  smallSigma0 : alg.smallSigma0 = spec.smallSigma0
  smallSigma1 : alg.smallSigma1 = spec.smallSigma1
  k : alg.k = spec.k
  h0 : alg.h0 = spec.h0
  sizeBlock : alg.sizeBlock.toNat = sizeBlock n
  sizeLen : alg.sizeLen.toNat = spec.sizeLen
  sizeHashFinal : alg.sizeHashFinal = spec.sizeHashFinal
  final_le : spec.sizeHashFinal ≤ 8
  rounds : 16 ≤ sizeK
  roomy : spec.sizeLen < Spec.SHA2.sizeBlock n
  pad0Length : ∀ len, alg.Accepts len → (alg.pad0Length len).toNat = spec.pad0Length len.toNat
  encodeLength : ∀ count len, alg.encodeLength count len =
    bigBytes spec.sizeLen ((count.toNat * Spec.SHA2.sizeBlock n + len.toNat) * 8)
  oneBlock : ∀ len, alg.Accepts len → len.toNat + 1 + spec.pad0Length len.toNat + spec.sizeLen =
    if len < alg.oneBlock then Spec.SHA2.sizeBlock n else 2 * Spec.SHA2.sizeBlock n

/-- The state after whole blocks: the chaining value belongs to them, and the counter counts them. -/
structure Digests (spec : Spec.SHA2.Algorithm n sizeK) (done : Bytes) (st : State n sizeK) : Prop where
  k : st.k = spec.k
  whash : st.whash = spec.updateMulti spec.h0 done
  count : st.count.toNat * Spec.SHA2.sizeBlock n = done.length

/-- The words scheduled are those of the specification. -/
theorem ws_run (imp : Implements alg spec) (ws : Vector (BitVec (8 * n)) sizeK)
    (block : Vector (BitVec (8 * n)) 16) :
    ∃ ws', (∀ t : Fin sizeK, ws'.get t = spec.ws block t) ∧ alg.ws ws block h = some (ws', h) := by
  have rounds := imp.rounds
  -- The first sixteen words are copied one after another.
  obtain ⟨ws1, copied, ran1⟩ := forLoop_reads (h := h)
    (f := fun t ws => Algorithm.wsPart1Core ws block t)
    (fun i (ws : Vector (BitVec (8 * n)) sizeK) => ∀ t : Fin sizeK, t.val < i → ws.get t = spec.ws block t)
    (n := 16) (fun i ws inside before => ⟨ws.setIfInBounds i (block.get ⟨i, inside⟩), by
      intro t below
      rw [get_setIfInBounds]
      split
      · next same => subst same; rw [Spec.SHA2.Algorithm.ws, dif_pos inside]
      · next other => exact before t (by omega), by
      rw [Algorithm.wsPart1Core, Stack.bind_run (readWord_run _ inside), writeWord_run _ _ (by omega)]⟩)
    (s := ws) (fun t below => absurd below (Nat.not_lt_zero _))
  -- Every later word is computed from words that are there.
  obtain ⟨ws2, scheduled, ran2⟩ := forLoop_reads (h := h)
    (f := fun i ws => alg.wsPart2Core ws (16 + i))
    (fun i (ws : Vector (BitVec (8 * n)) sizeK) =>
      ∀ t : Fin sizeK, t.val < 16 + i → ws.get t = spec.ws block t)
    (n := sizeK - 16) (fun i ws inside before => by
      have get (t : Nat) (below : t < 16 + i) : readWord ws t h = some (spec.ws block t, h) := by
        rw [readWord_run ws (show t < sizeK by omega), before ⟨t, by omega⟩ below]
      refine ⟨ws.setIfInBounds (16 + i) (spec.ws block (16 + i)), fun t below => ?_, ?_⟩
      · rw [get_setIfInBounds]
        split
        · next same => rw [same]
        · next other => exact before t (by omega)
      · have late : ¬ 16 + i < 16 := by omega
        rw [Algorithm.wsPart2Core, Stack.bind_run (get _ (by omega)), Stack.bind_run (get _ (by omega)),
          Stack.bind_run (get _ (by omega)), Stack.bind_run (get _ (by omega)),
          writeWord_run _ _ (by omega), imp.smallSigma0, imp.smallSigma1,
          Spec.SHA2.Algorithm.ws.eq_1 spec block (16 + i), dif_neg late])
    (s := ws1) copied
  exact ⟨ws2, fun t => scheduled t (by omega), by rw [Algorithm.ws, Algorithm.wsPart1, Stack.bind_run ran1]; exact ran2⟩

/-- The rounds are those of the specification. -/
theorem updateCore_run (imp : Implements alg spec) (hash : Vector (BitVec (8 * n)) 8)
    {ws : Vector (BitVec (8 * n)) sizeK} {block : Bytes}
    (scheduled : ∀ t : Fin sizeK, ws.get t = spec.ws ((wordBe n).fromBytes 16 block) t) :
    alg.updateCore hash ws spec.k h = some (spec.update hash block, h) := by
  have shuffled : alg.shuffle hash ws spec.k h =
      some (spec.shuffle hash ((wordBe n).fromBytes 16 block), h) :=
    forLoop_foldl (fun t hash => by
      rw [Algorithm.shuffleCore, Stack.bind_run (readWord_run _ t.isLt),
        Stack.bind_run (readWord_run _ t.isLt), scheduled t, imp.bigSigma0, imp.bigSigma1]
      rfl) hash
  rw [Algorithm.updateCore, Stack.bind_run shuffled]
  rfl

/-- Processing a block adds it to the bytes that the state digests. -/
theorem update_run [NeZero n] (imp : Implements alg spec) {done : Bytes} {st : State n sizeK}
    (digests : Digests spec done st) (whole : done.length % sizeBlock n = 0) {data : Buffer}
    (live : h.Live data) (size : data.length = sizeBlock n) (room : st.count.toNat + 1 < 2 ^ (8 * n)) :
    ∃ st', Digests spec (done ++ h.read data) st' ∧ st'.count.toNat = st.count.toNat + 1 ∧
      alg.update st data h = some (st', h) := by
  have bytes := Mem.read_length live
  obtain ⟨ws, scheduled, ran⟩ := ws_run (h := h) imp st.ws ((wordBe n).fromBytes 16 (h.read data))
  have counted : (counterIncrement st.count).toNat = st.count.toNat + 1 := by
    rw [counterIncrement, BitVec.toNat_add]
    show (st.count.toNat + 1 % 2 ^ (8 * n)) % 2 ^ (8 * n) = _
    rw [Nat.mod_eq_of_lt (show 1 < 2 ^ (8 * n) by omega), Nat.mod_eq_of_lt room]
  refine ⟨⟨st.k, ws, spec.update st.whash (h.read data), counterIncrement st.count⟩,
    ⟨digests.k, ?_, ?_⟩, counted, ?_⟩
  · show spec.update st.whash (h.read data) = _
    rw [Spec.SHA2.Algorithm.updateMulti_append _ _ _ whole,
      Spec.SHA2.Algorithm.updateMulti_block _ _ (bytes.trans size), digests.whash]
  · show (counterIncrement st.count).toNat * _ = _
    rw [counted, Nat.succ_mul, digests.count, List.length_append, bytes, size]
  · rw [Algorithm.update, Stack.bind_run (wordsFromBytes_run (wordBe n) _ live size),
      Stack.bind_run ran, digests.k, Stack.bind_run (updateCore_run imp st.whash scheduled)]
    rfl

/-- Processing many blocks adds them all. -/
theorem updateMulti_run [NeZero n] (imp : Implements alg spec) {done : Bytes} {st : State n sizeK}
    (digests : Digests spec done st) (whole : done.length % sizeBlock n = 0) {data : Buffer}
    (live : h.Live data) (blocks : UInt32) (size : data.length = blocks.toNat * sizeBlock n)
    (room : st.count.toNat + blocks.toNat < 2 ^ (8 * n)) :
    ∃ st', Digests spec (done ++ h.read data) st' ∧ st'.count.toNat = st.count.toNat + blocks.toNat ∧
      alg.updateMulti st data blocks h = some (st', h) := by
  have bytes := Mem.read_length live
  -- Induction on the number of blocks: so many bytes have been added.
  obtain ⟨st', ⟨digested, counted⟩, ran⟩ := forLoop_reads (h := h)
    (f := fun i st => do
      let b ← data.sub (i * alg.sizeBlock.toNat) alg.sizeBlock.toNat
      alg.update st b)
    (fun i st' => Digests spec (done ++ (h.read data).take (i * sizeBlock n)) st' ∧
      st'.count.toNat = st.count.toNat + i) (n := blocks.toNat)
    (fun i st' inside ⟨before, counted⟩ => by
      have within : (i + 1) * sizeBlock n ≤ blocks.toNat * sizeBlock n := Nat.mul_le_mul_right _ inside
      rw [Nat.succ_mul] at within
      have taken : ((h.read data).take (i * sizeBlock n)).length = i * sizeBlock n := by
        rw [List.length_take]; omega
      obtain ⟨st'', after, counted', ran⟩ := update_run imp before
        (by rw [List.length_append, taken, Nat.add_mul_mod_self_right, whole])
        (live.slice (i := i * sizeBlock n) (n := sizeBlock n) (by omega)) rfl (by omega)
      rw [Mem.read_slice _ _ (by omega), List.append_assoc, ← List.take_add, ← Nat.succ_mul] at after
      exact ⟨st'', ⟨after, by omega⟩, by
        rw [imp.sizeBlock, Stack.bind_run (Buffer.sub_run _ (by omega)), ran]⟩)
    (s := st) ⟨by rwa [Nat.zero_mul, List.take_zero, List.append_nil], rfl⟩
  rw [List.take_of_length_le (by omega)] at digested
  exact ⟨st', digested, counted, ran⟩

/-- A fresh state digests nothing. -/
theorem init_digests (imp : Implements alg spec) (st : State n sizeK) :
    Digests spec [] (alg.init st) where
  k := imp.k
  whash := by
    rw [Spec.SHA2.Algorithm.updateMulti, Blocks.foldAll_nil]
    exact imp.h0
  count := by
    show (0#(8 * n)).toNat * _ = 0
    rw [BitVec.toNat_ofNat, Nat.zero_mod, Nat.zero_mul]

/-- Padding zeros writes the padding of the specification. -/
theorem pad_run (imp : Implements alg spec) {padding : Buffer} (live : h.Live padding)
    (count : BitVec (8 * n)) {len : UInt32} (accepts : alg.Accepts len)
    (zeros : h.read padding = List.replicate padding.length 0)
    (size : padding.length = 1 + spec.pad0Length len.toNat + spec.sizeLen) :
    alg.pad padding count len h =
      some ((), h.write padding (spec.pad (count.toNat * sizeBlock n) len.toNat)) := by
  set z := spec.pad0Length len.toNat with z_def
  set code := bigBytes spec.sizeLen ((count.toNat * sizeBlock n + len.toNat) * 8) with code_def
  have codeSize : code.length = spec.sizeLen := bigBytes_length _ _
  have live1 : h.Live (padding.slice 0 1) := live.slice (by omega)
  have live2 : h.Live (padding.slice (1 + z) spec.sizeLen) := live.slice (by omega)
  -- The marker replaces the first zero and the length the last ones; the zeros between them remain.
  have marked : splice (List.replicate padding.length 0) 0 [0x80] =
      ([0x80] ++ List.replicate z 0) ++ List.replicate spec.sizeLen 0 := by
    have parts : List.replicate padding.length (0 : UInt8) =
        [0] ++ (List.replicate z 0 ++ List.replicate spec.sizeLen 0) := by
      rw [List.replicate_append_replicate, List.singleton_append, ← List.replicate_succ, size]
      congr 1
      omega
    rw [parts, splice_prefix _ (show ([0x80] : Bytes).length = ([0] : Bytes).length from rfl),
      List.append_assoc]
  have front : ([0x80] ++ List.replicate z 0 : Bytes).length = 1 + z := by
    rw [List.length_append, List.length_replicate]
    rfl
  have spliced := splice_suffix ([0x80] ++ List.replicate z 0)
    (show code.length = (List.replicate spec.sizeLen (0 : UInt8)).length by
      rw [codeSize, List.length_replicate])
  rw [front] at spliced
  have written : h.write (padding.slice 0 1) [0x80] = _ := Mem.write_slice live rfl (by omega)
  rw [zeros, marked] at written
  have total : (([0x80] ++ List.replicate z 0) ++ List.replicate spec.sizeLen 0 : Bytes).length =
      padding.length := by
    rw [List.length_append, front, List.length_replicate, size]
  rw [Algorithm.pad, imp.pad0Length len accepts, imp.sizeLen, imp.encodeLength,
    Stack.bind_run (Buffer.sub_run _ (by omega)), Stack.bind_run (Buffer.sub_run _ (by omega)),
    Stack.bind_run (Buffer.sub_run _ (by omega)), Stack.bind_run (Buffer.store_run live1 le_rfl),
    Buffer.store_run (live2.write live1 le_rfl) codeSize.le, written,
    Mem.write_within live total.le codeSize (by omega), spliced]
  rfl

/-- Copying a rest in front of zeros and padding it writes the rest and its padding. -/
theorem fill_run (imp : Implements alg spec) {blocks data : Buffer} (live : h.Live blocks)
    (live' : h.Live data) (count : BitVec (8 * n)) {len : UInt32} (accepts : alg.Accepts len)
    (size' : data.length = len.toNat) (zeros : h.read blocks = List.replicate blocks.length 0)
    (size : blocks.length = len.toNat + 1 + spec.pad0Length len.toNat + spec.sizeLen) :
    alg.fill blocks data count len h = some ((), h.write blocks
      (h.read data ++ spec.pad (count.toNat * sizeBlock n) (h.read data).length)) := by
  have bytes := Mem.read_length live'
  have fits : (h.read data).length ≤ blocks.length := by omega
  have copied := Buffer.blit_run live' live (show 0 + len.toNat ≤ data.length by omega)
    (show 0 + len.toNat ≤ blocks.length by omega)
  rw [List.drop_zero, List.take_of_length_le (by omega), Mem.write_slice_zero] at copied
  set padding := blocks.slice len.toNat (blocks.length - len.toNat) with padding_def
  have room : padding.length = 1 + spec.pad0Length len.toNat + spec.sizeLen := by
    rw [padding_def, Buffer.slice_length]
    omega
  -- Behind the rest the zeros are as before.
  have zeros' : (h.write blocks (h.read data)).read padding = List.replicate padding.length 0 := by
    rw [padding_def, Mem.read_slice _ _ (by omega), Mem.read_write_prefix live fits, zeros, bytes, size',
      List.drop_left' (by omega), List.drop_replicate, List.take_replicate, Buffer.slice_length,
      Nat.min_self]
  have padded := pad_run imp ((live.write live fits).slice (by omega)) count accepts zeros' room
  have padSize : (spec.pad (count.toNat * sizeBlock n) len.toNat).length = padding.length := by
    rw [room, Spec.SHA2.Algorithm.pad, List.length_append, List.length_append, bigBytes_length,
      List.length_replicate]
    rfl
  have joined := Mem.write_append live (h.read data) (spec.pad (count.toNat * sizeBlock n) len.toNat)
    (blocks.length - len.toNat) (by omega) (by rw [padSize]; exact le_rfl) (by omega)
  rw [bytes, size'] at joined
  rw [Algorithm.fill, Stack.bind_run copied, Stack.bind_run (Buffer.offset_run _ (by omega)), padded,
    joined, bytes, size']

/-- The zeros that the rest and its padding fill, in one block or two. -/
theorem finalBlocks_run (imp : Implements alg spec) {blocks : Buffer} (live : h.Live blocks)
    (size : blocks.length = 2 * sizeBlock n) (zeros : h.read blocks = List.replicate blocks.length 0)
    {len : UInt32} (accepts : alg.Accepts len) :
    ∃ final, alg.finalBlocks blocks len h = some (final, h) ∧ h.Live final ∧ final.base = blocks.base ∧
      h.read final = List.replicate final.length 0 ∧
      final.length = (if len < alg.oneBlock then 1 else 2 : UInt32).toNat * sizeBlock n ∧
      final.length = len.toNat + 1 + spec.pad0Length len.toNat + spec.sizeLen := by
  have total := imp.oneBlock len accepts
  by_cases short : len < alg.oneBlock
  · -- One block is enough, and the first one is left out.
    have within : sizeBlock n ≤ blocks.length := by omega
    have half : (1 : UInt32).toNat = 1 := rfl
    rw [if_pos short] at total
    rw [if_pos short, half, Nat.one_mul]
    refine ⟨blocks.slice (sizeBlock n) (blocks.length - sizeBlock n), ?_, live.slice (by omega), rfl, ?_,
      ?_, ?_⟩
    · rw [Algorithm.finalBlocks, if_pos short, imp.sizeBlock, Buffer.offset_run _ within]
    · rw [Mem.read_slice _ _ (by omega), zeros, List.drop_replicate, List.take_replicate,
        Buffer.slice_length, Nat.min_self]
    · rw [Buffer.slice_length]
      omega
    · rw [Buffer.slice_length]
      omega
  · have both : (2 : UInt32).toNat = 2 := rfl
    rw [if_neg short] at total
    rw [if_neg short, both]
    exact ⟨blocks, by rw [Algorithm.finalBlocks, if_neg short, Stack.pure_run], live, rfl, zeros, size,
      size.trans total.symm⟩

/-- The last call compresses the rest with the padding for all bytes. -/
theorem updateLast_run [NeZero n] (imp : Implements alg spec) {done : Bytes} {st : State n sizeK}
    (digests : Digests spec done st) (whole : done.length % sizeBlock n = 0) {data : Buffer}
    (live : h.Live data) (len : UInt32) (size : data.length = len.toNat) (accepts : alg.Accepts len)
    (room : st.count.toNat + 2 < 2 ^ (8 * n)) :
    ∃ st', st'.whash = spec.updateLast (spec.updateMulti spec.h0 done) done.length (h.read data) ∧
      alg.updateLast st data len h = some (st', h) := by
  have outer : h.Outer (h.alloc (2 * sizeBlock n)) := (Mem.Outer.refl h).alloc _
  have bytes := Mem.read_length live
  obtain ⟨final, chosen, live', base, zeros, size', total⟩ := finalBlocks_run imp
    (Mem.fresh_live h (2 * sizeBlock n)) rfl (Mem.read_fresh h _) accepts
  have filled := fill_run imp live' (outer.live live) st.count accepts size zeros total
  rw [outer.read live, digests.count] at filled
  set text := h.read data ++ spec.pad done.length (h.read data).length with text_def
  have textSize : text.length = final.length := by
    rw [text_def, total, List.length_append, bytes, size, Spec.SHA2.Algorithm.pad, List.length_append,
      List.length_append, bigBytes_length, List.length_replicate]
    simp only [List.length_singleton]
    omega
  have few : (if len < alg.oneBlock then 1 else 2 : UInt32).toNat ≤ 2 := by
    split <;> decide
  obtain ⟨st', digests', -, ran⟩ := updateMulti_run imp digests whole (live'.write live' textSize.le)
    _ size' (by omega)
  rw [Mem.read_write_same live' textSize] at digests'
  refine ⟨st', ?_, ?_⟩
  · rw [digests'.whash, Spec.SHA2.Algorithm.updateMulti_append _ _ _ whole,
      Spec.SHA2.Algorithm.updateLast]
  · refine inFrame_outer ?_ (outer.write_new base.ge text) rfl
    rw [imp.sizeBlock, Stack.bind_run (create_run _), Stack.bind_run chosen, Stack.bind_run filled, ran]

/-- The final words are stored as bytes. -/
theorem finish_run (imp : Implements alg spec) (st : State n sizeK) {hash : Buffer} (live : h.Live hash)
    (size : hash.length = n * spec.sizeHashFinal) :
    alg.finish st hash h = some ((), h.write hash (spec.finish st.whash)) := by
  have width : (wordBe n).width = n := rfl
  rw [Algorithm.finish, imp.sizeHashFinal,
    wordsToBytes_run (wordBe n) _ imp.final_le live (by rw [width, size]), Spec.SHA2.Algorithm.finish]

/-- The implementation at once writes the hash of the specification. -/
theorem hash_run [NeZero n] (imp : Implements alg spec) {hash input : Buffer} {len : UInt32}
    (live : h.Live hash) (live' : h.Live input) (size : hash.length = n * spec.sizeHashFinal)
    (size' : input.length = len.toNat) (room : len.toNat / sizeBlock n + 2 < 2 ^ (8 * n)) :
    alg.hash hash input len h = some ((), h.write hash (spec.hash (h.read input))) := by
  have bytes := Mem.read_length live'
  have positive := sizeBlock_pos (n := n)
  set count := len.toNat / sizeBlock n with count_def
  have divided := Nat.div_add_mod len.toNat (sizeBlock n)
  have short := Nat.mod_lt len.toNat positive
  rw [← count_def, Nat.mul_comm] at divided
  have number : (len / alg.sizeBlock).toNat = count := by rw [UInt32.toNat_div, imp.sizeBlock]
  have rest : (len % alg.sizeBlock).toNat = len.toNat % sizeBlock n := by
    rw [UInt32.toNat_mod, imp.sizeBlock]
  have start : (len / alg.sizeBlock * alg.sizeBlock).toNat = count * sizeBlock n := by
    rw [UInt32.toNat_mul, number, imp.sizeBlock, Nat.mod_eq_of_lt (by have := len.toNat_lt; omega)]
  have accepts : alg.Accepts (len % alg.sizeBlock) := by
    rw [Algorithm.Accepts, rest, imp.sizeLen, imp.sizeBlock]
    have := imp.roomy
    omega
  have first := Mem.read_slice h input (i := 0) (n := count * sizeBlock n) (by omega)
  have second := Mem.read_slice h input (i := count * sizeBlock n) (n := len.toNat % sizeBlock n)
    (by omega)
  rw [List.drop_zero] at first
  rw [List.take_of_length_le (by rw [List.length_drop]; omega)] at second
  have taken : ((h.read input).take (count * sizeBlock n)).length = count * sizeBlock n := by
    rw [List.length_take]; omega
  -- The whole blocks, then the rest, through the state.
  obtain ⟨st', digests, counted, ran⟩ := updateMulti_run imp
    (init_digests imp alloc) (Nat.zero_mod _) (live'.slice (i := 0) (n := count * sizeBlock n) (by omega))
    (len / alg.sizeBlock) (by rw [number, Buffer.slice_length]) (by
      rw [number]
      show (0#(8 * n)).toNat + _ < _
      rw [BitVec.toNat_ofNat, Nat.zero_mod]
      omega)
  rw [List.nil_append, first] at digests
  have counted' : st'.count.toNat = count := by
    rw [counted, number]
    show (0#(8 * n)).toNat + _ = _
    rw [BitVec.toNat_ofNat, Nat.zero_mod, Nat.zero_add]
  obtain ⟨st'', hashed, ran'⟩ := updateLast_run imp digests (by rw [taken, Nat.mul_mod_left])
    (live'.slice (i := count * sizeBlock n) (n := len.toNat % sizeBlock n) (by omega)) _ rest.symm accepts
    (by omega)
  rw [second] at hashed
  have result : spec.finish st''.whash = spec.hash (h.read input) := by
    rw [hashed, Spec.SHA2.Algorithm.finish_updateLast _ _ (by rw [taken, Nat.mul_mod_left]),
      List.take_append_drop]
  refine inFrame_outer ?_ ((Mem.Outer.refl h).write_old live _) (by simp)
  rw [start, rest, Stack.bind_run (Buffer.sub_run _ (by omega)), Stack.bind_run (Buffer.sub_run _ (by omega)),
    Stack.bind_run ran, Stack.bind_run ran', finish_run imp st'' live size, result]

end Runs

section Instances

/-- The round constants of the SHA-256 implementation. -/
def constantsSetK256 : Array (BitVec (8 * 4)) := #[
  0x428a2f98, 0x71374491, 0xb5c0fbcf, 0xe9b5dba5, 0x3956c25b, 0x59f111f1, 0x923f82a4, 0xab1c5ed5,
  0xd807aa98, 0x12835b01, 0x243185be, 0x550c7dc3, 0x72be5d74, 0x80deb1fe, 0x9bdc06a7, 0xc19bf174,
  0xe49b69c1, 0xefbe4786, 0x0fc19dc6, 0x240ca1cc, 0x2de92c6f, 0x4a7484aa, 0x5cb0a9dc, 0x76f988da,
  0x983e5152, 0xa831c66d, 0xb00327c8, 0xbf597fc7, 0xc6e00bf3, 0xd5a79147, 0x06ca6351, 0x14292967,
  0x27b70a85, 0x2e1b2138, 0x4d2c6dfc, 0x53380d13, 0x650a7354, 0x766a0abb, 0x81c2c92e, 0x92722c85,
  0xa2bfe8a1, 0xa81a664b, 0xc24b8b70, 0xc76c51a3, 0xd192e819, 0xd6990624, 0xf40e3585, 0x106aa070,
  0x19a4c116, 0x1e376c08, 0x2748774c, 0x34b0bcb5, 0x391c0cb3, 0x4ed8aa4a, 0x5b9cca4f, 0x682e6ff3,
  0x748f82ee, 0x78a5636f, 0x84c87814, 0x8cc70208, 0x90befffa, 0xa4506ceb, 0xbef9a3f7, 0xc67178f2]

theorem constantsSetK256_size : constantsSetK256.size = 64 := rfl

/-- The round constants of the SHA-384 and SHA-512 implementations. -/
def constantsSetK512 : Array (BitVec (8 * 8)) := #[
  0x428a2f98d728ae22, 0x7137449123ef65cd, 0xb5c0fbcfec4d3b2f, 0xe9b5dba58189dbbc,
  0x3956c25bf348b538, 0x59f111f1b605d019, 0x923f82a4af194f9b, 0xab1c5ed5da6d8118,
  0xd807aa98a3030242, 0x12835b0145706fbe, 0x243185be4ee4b28c, 0x550c7dc3d5ffb4e2,
  0x72be5d74f27b896f, 0x80deb1fe3b1696b1, 0x9bdc06a725c71235, 0xc19bf174cf692694,
  0xe49b69c19ef14ad2, 0xefbe4786384f25e3, 0x0fc19dc68b8cd5b5, 0x240ca1cc77ac9c65,
  0x2de92c6f592b0275, 0x4a7484aa6ea6e483, 0x5cb0a9dcbd41fbd4, 0x76f988da831153b5,
  0x983e5152ee66dfab, 0xa831c66d2db43210, 0xb00327c898fb213f, 0xbf597fc7beef0ee4,
  0xc6e00bf33da88fc2, 0xd5a79147930aa725, 0x06ca6351e003826f, 0x142929670a0e6e70,
  0x27b70a8546d22ffc, 0x2e1b21385c26c926, 0x4d2c6dfc5ac42aed, 0x53380d139d95b3df,
  0x650a73548baf63de, 0x766a0abb3c77b2a8, 0x81c2c92e47edaee6, 0x92722c851482353b,
  0xa2bfe8a14cf10364, 0xa81a664bbc423001, 0xc24b8b70d0f89791, 0xc76c51a30654be30,
  0xd192e819d6ef5218, 0xd69906245565a910, 0xf40e35855771202a, 0x106aa07032bbd1b8,
  0x19a4c116b8d2d0c8, 0x1e376c085141ab53, 0x2748774cdf8eeb99, 0x34b0bcb5e19b48a8,
  0x391c0cb3c5c95a63, 0x4ed8aa4ae3418acb, 0x5b9cca4f7763e373, 0x682e6ff3d6b2b8a3,
  0x748f82ee5defb2fc, 0x78a5636f43172f60, 0x84c87814a1f0ab72, 0x8cc702081a6439ec,
  0x90befffa23631e28, 0xa4506cebde82bde9, 0xbef9a3f7b2c67915, 0xc67178f2e372532b,
  0xca273eceea26619c, 0xd186b8c721c0c207, 0xeada7dd6cde0eb1e, 0xf57d4f7fee6ed178,
  0x06f067aa72176fba, 0x0a637dc5a2c898a6, 0x113f9804bef90dae, 0x1b710b35131c471b,
  0x28db77f523047d84, 0x32caab7b40c72493, 0x3c9ebe0a15c9bebc, 0x431d67c49c100d4c,
  0x4cc5d4becb3e42b6, 0x597f299cfc657e2a, 0x5fcb6fab3ad6faec, 0x6c44198c4a475817]

theorem constantsSetK512_size : constantsSetK512.size = 80 := rfl

/-- The bit length in 64-bit arithmetic, from a 32-bit block counter. -/
def encodeLength256 (count : BitVec (8 * 4)) (len : UInt32) : Bytes :=
  let l0 := count.setWidth (8 * 8) * 64
  let l1 := len.toBitVec.setWidth (8 * 8)
  (wordBe 8).encode ((l0 + l1) * 8)

/-- The bit length in 128-bit arithmetic, from a 64-bit block counter. -/
def encodeLength512 (count : BitVec (8 * 8)) (len : UInt32) : Bytes :=
  let l0 := count.setWidth (8 * 16) * 128
  let l1 := len.toBitVec.setWidth (8 * 16)
  (wordBe 16).encode ((l0 + l1) <<< 3)

/-- The SHA-256 implementation. -/
def sha256 : Algorithm 4 64 where
  bigSigma0 := fun x => rotateRight x 2 ^^^ (rotateRight x 13 ^^^ rotateRight x 22)
  bigSigma1 := fun x => rotateRight x 6 ^^^ (rotateRight x 11 ^^^ rotateRight x 25)
  smallSigma0 := fun x => rotateRight x 7 ^^^ (rotateRight x 18 ^^^ (x >>> 3))
  smallSigma1 := fun x => rotateRight x 17 ^^^ (rotateRight x 19 ^^^ (x >>> 10))
  k := ⟨constantsSetK256, constantsSetK256_size⟩
  h0 := create8
    0x6a09e667 0xbb67ae85 0x3c6ef372 0xa54ff53a
    0x510e527f 0x9b05688c 0x1f83d9ab 0x5be0cd19
  sizeBlock := 4 * 16
  sizeLen := 2 * 4
  sizeHashFinal := 8
  oneBlock := 56
  pad0Length := fun len => (4 * 16 - (len + 2 * 4 + 1) % (4 * 16)) % (4 * 16)
  encodeLength := encodeLength256

/-- The SHA-384 implementation. -/
def sha384 : Algorithm 8 80 where
  bigSigma0 := fun x => rotateRight x 28 ^^^ (rotateRight x 34 ^^^ rotateRight x 39)
  bigSigma1 := fun x => rotateRight x 14 ^^^ (rotateRight x 18 ^^^ rotateRight x 41)
  smallSigma0 := fun x => rotateRight x 1 ^^^ (rotateRight x 8 ^^^ (x >>> 7))
  smallSigma1 := fun x => rotateRight x 19 ^^^ (rotateRight x 61 ^^^ (x >>> 6))
  k := ⟨constantsSetK512, constantsSetK512_size⟩
  h0 := create8
    0xcbbb9d5dc1059ed8 0x629a292a367cd507 0x9159015a3070dd17 0x152fecd8f70e5939
    0x67332667ffc00b31 0x8eb44a8768581511 0xdb0c2e0d64f98fa7 0x47b5481dbefa4fa4
  sizeBlock := 8 * 16
  sizeLen := 2 * 8
  sizeHashFinal := 6
  oneBlock := 112
  pad0Length := fun len => (8 * 16 - (len + 2 * 8 + 1) % (8 * 16)) % (8 * 16)
  encodeLength := encodeLength512

/-- The SHA-512 implementation. -/
def sha512 : Algorithm 8 80 where
  bigSigma0 := fun x => rotateRight x 28 ^^^ (rotateRight x 34 ^^^ rotateRight x 39)
  bigSigma1 := fun x => rotateRight x 14 ^^^ (rotateRight x 18 ^^^ rotateRight x 41)
  smallSigma0 := fun x => rotateRight x 1 ^^^ (rotateRight x 8 ^^^ (x >>> 7))
  smallSigma1 := fun x => rotateRight x 19 ^^^ (rotateRight x 61 ^^^ (x >>> 6))
  k := ⟨constantsSetK512, constantsSetK512_size⟩
  h0 := create8
    0x6a09e667f3bcc908 0xbb67ae8584caa73b 0x3c6ef372fe94f82b 0xa54ff53a5f1d36f1
    0x510e527fade682d1 0x9b05688c2b3e6c1f 0x1f83d9abfb41bd6b 0x5be0cd19137e2179
  sizeBlock := 8 * 16
  sizeLen := 2 * 8
  sizeHashFinal := 8
  oneBlock := 112
  pad0Length := fun len => (8 * 16 + 8 * 16 - (len + 2 * 8 + 1)) % (8 * 16)
  encodeLength := encodeLength512

/-- The stored bit length is that of the bytes counted, without overflow. -/
theorem encodeLength256_eq (count : BitVec (8 * 4)) (len : UInt32) :
    encodeLength256 count len = bigBytes 8 ((count.toNat * sizeBlock 4 + len.toNat) * 8) := by
  have low := count.isLt
  have low' := len.toNat_lt
  have value : ((count.setWidth (8 * 8) * 64 + len.toBitVec.setWidth (8 * 8)) * 8).toNat =
      (count.toNat * sizeBlock 4 + len.toNat) * 8 := by
    simp only [BitVec.toNat_mul, BitVec.toNat_add, BitVec.toNat_setWidth, UInt32.toNat_toBitVec,
      sizeBlock]
    show ((count.toNat % 2 ^ 64 * 64 % 2 ^ 64 + len.toNat % 2 ^ 64) % 2 ^ 64 * 8) % 2 ^ 64 = _
    omega
  rw [← value]
  rfl

/-- The stored bit length is that of the bytes counted, without overflow. -/
theorem encodeLength512_eq (count : BitVec (8 * 8)) (len : UInt32) :
    encodeLength512 count len = bigBytes 16 ((count.toNat * sizeBlock 8 + len.toNat) * 8) := by
  have low := count.isLt
  have low' := len.toNat_lt
  have value : ((count.setWidth (8 * 16) * 128 + len.toBitVec.setWidth (8 * 16)) <<< 3).toNat =
      (count.toNat * sizeBlock 8 + len.toNat) * 8 := by
    simp only [BitVec.toNat_shiftLeft, BitVec.toNat_mul, BitVec.toNat_add, BitVec.toNat_setWidth,
      UInt32.toNat_toBitVec, sizeBlock, Nat.shiftLeft_eq]
    show ((count.toNat % 2 ^ 128 * 128 % 2 ^ 128 + len.toNat % 2 ^ 128) % 2 ^ 128 * 2 ^ 3) % 2 ^ 128 = _
    omega
  rw [← value]
  rfl

/-- The zeros counted from the next block boundary. -/
theorem pad0Length_toNat (block sizeLen len : UInt32) (positive : 0 < block.toNat)
    (bounded : len.toNat + sizeLen.toNat + 1 < 2 * block.toNat) (small : block.toNat < 2 ^ 16) :
    ((block - (len + sizeLen + 1) % block) % block).toNat =
      (block.toNat - (len.toNat + sizeLen.toNat + 1) % block.toNat) % block.toNat := by
  have short := Nat.mod_lt (len.toNat + sizeLen.toNat + 1) positive
  have total : (len + sizeLen + 1).toNat = len.toNat + sizeLen.toNat + 1 := by
    rw [UInt32.toNat_add, UInt32.toNat_add]
    show ((len.toNat + sizeLen.toNat) % 2 ^ 32 + 1) % 2 ^ 32 = _
    omega
  rw [UInt32.toNat_mod, UInt32.toNat_sub_of_le _ _ (by
    rw [UInt32.le_iff_toNat_le, UInt32.toNat_mod, total]
    exact short.le), UInt32.toNat_mod, total]

/-- The zeros counted from the end of the second block. -/
theorem pad0Length_toNat_two (block sizeLen len : UInt32)
    (bounded : len.toNat + sizeLen.toNat + 1 < 2 * block.toNat) (small : block.toNat < 2 ^ 16) :
    ((block + block - (len + sizeLen + 1)) % block).toNat =
      (block.toNat + block.toNat - (len.toNat + sizeLen.toNat + 1)) % block.toNat := by
  have total : (len + sizeLen + 1).toNat = len.toNat + sizeLen.toNat + 1 := by
    rw [UInt32.toNat_add, UInt32.toNat_add]
    show ((len.toNat + sizeLen.toNat) % 2 ^ 32 + 1) % 2 ^ 32 = _
    omega
  have both : (block + block).toNat = block.toNat + block.toNat := by
    rw [UInt32.toNat_add]
    omega
  rw [UInt32.toNat_mod, UInt32.toNat_sub_of_le _ _ (by
    rw [UInt32.le_iff_toNat_le, total, both]
    omega), total, both]

/-- The rest and its padding take one block when the marker and the length fit behind the rest. -/
theorem oneBlock_of_pad0 [NeZero n] {alg : Algorithm n sizeK} {spec : Spec.SHA2.Algorithm n sizeK}
    (size : alg.sizeBlock.toNat = sizeBlock n) (sizeLen : alg.sizeLen.toNat = spec.sizeLen)
    (bound : alg.oneBlock.toNat + spec.sizeLen = sizeBlock n) (len : UInt32) (accepts : alg.Accepts len) :
    len.toNat + 1 + spec.pad0Length len.toNat + spec.sizeLen =
      if len < alg.oneBlock then sizeBlock n else 2 * sizeBlock n := by
  obtain ⟨few, complete⟩ := spec.pad0Length_spec len.toNat
  obtain ⟨blocks, total⟩ := Nat.dvd_of_mod_eq_zero complete
  rw [Algorithm.Accepts, size, sizeLen] at accepts
  -- The total is a number of whole blocks, and between the rest and the bound only one fits.
  have few' : blocks < 3 := by
    by_contra many
    have := Nat.mul_le_mul_left (sizeBlock n) (Nat.le_of_not_lt many)
    omega
  split
  · next short =>
    rw [UInt32.lt_iff_toNat_lt] at short
    interval_cases blocks <;> omega
  · next long =>
    rw [UInt32.lt_iff_toNat_lt] at long
    interval_cases blocks <;> omega

/-- The SHA-256 implementation has the parameters of its specification. -/
theorem sha256_implements : Implements sha256 Spec.SHA2.sha256 where
  bigSigma0 := rfl
  bigSigma1 := rfl
  smallSigma0 := rfl
  smallSigma1 := rfl
  k := rfl
  h0 := rfl
  sizeBlock := rfl
  sizeLen := rfl
  sizeHashFinal := rfl
  final_le := by decide
  rounds := by decide
  roomy := by decide
  pad0Length := fun len accepts => by
    have bounded : len.toNat + 8 + 1 < 2 * 64 := accepts
    have size : sizeBlock 4 = 64 := rfl
    have code : Spec.SHA2.sha256.sizeLen = 8 := rfl
    have value : (sha256.pad0Length len).toNat = (64 - (len.toNat + 8 + 1) % 64) % 64 :=
      pad0Length_toNat 64 8 len (by decide) bounded (by decide)
    exact Spec.SHA2.Algorithm.pad0Length_unique (by omega) (by rw [size, code]; omega)
  encodeLength := encodeLength256_eq
  oneBlock := oneBlock_of_pad0 rfl rfl rfl

/-- The SHA-384 implementation has the parameters of its specification. -/
theorem sha384_implements : Implements sha384 Spec.SHA2.sha384 where
  bigSigma0 := rfl
  bigSigma1 := rfl
  smallSigma0 := rfl
  smallSigma1 := rfl
  k := rfl
  h0 := rfl
  sizeBlock := rfl
  sizeLen := rfl
  sizeHashFinal := rfl
  final_le := by decide
  rounds := by decide
  roomy := by decide
  pad0Length := fun len accepts => by
    have bounded : len.toNat + 16 + 1 < 2 * 128 := accepts
    have size : sizeBlock 8 = 128 := rfl
    have code : Spec.SHA2.sha384.sizeLen = 16 := rfl
    have value : (sha384.pad0Length len).toNat = (128 - (len.toNat + 16 + 1) % 128) % 128 :=
      pad0Length_toNat 128 16 len (by decide) bounded (by decide)
    exact Spec.SHA2.Algorithm.pad0Length_unique (by omega) (by rw [size, code]; omega)
  encodeLength := encodeLength512_eq
  oneBlock := oneBlock_of_pad0 rfl rfl rfl

/-- The SHA-512 implementation has the parameters of its specification. -/
theorem sha512_implements : Implements sha512 Spec.SHA2.sha512 where
  bigSigma0 := rfl
  bigSigma1 := rfl
  smallSigma0 := rfl
  smallSigma1 := rfl
  k := rfl
  h0 := rfl
  sizeBlock := rfl
  sizeLen := rfl
  sizeHashFinal := rfl
  final_le := by decide
  rounds := by decide
  roomy := by decide
  pad0Length := fun len accepts => by
    have bounded : len.toNat + 16 + 1 < 2 * 128 := accepts
    have size : sizeBlock 8 = 128 := rfl
    have code : Spec.SHA2.sha512.sizeLen = 16 := rfl
    have value : (sha512.pad0Length len).toNat = (128 + 128 - (len.toNat + 16 + 1)) % 128 :=
      pad0Length_toNat_two 128 16 len bounded (by decide)
    exact Spec.SHA2.Algorithm.pad0Length_unique (by omega) (by rw [size, code]; omega)
  encodeLength := encodeLength512_eq
  oneBlock := oneBlock_of_pad0 rfl rfl rfl

end Instances

end HaclStar.Impl.SHA2
