import HaclStar.Impl.HMACPads
import HaclStar.Impl.SHA2
import HaclStar.Spec.HMACGeneric
import HaclStar.Correctness.SHA2Padding

/-! The agile HMAC: one code path for SHA-256, SHA-384 and SHA-512. -/

namespace HaclStar.SecureApi.HMAC

open Endianness Keystream Memory Words Impl.HMAC Impl.SHA2
open Spec.SHA2Generic (HashAlg)

/-- The hash functions. -/
inductive Alg where
  | sha256
  | sha384
  | sha512
  deriving DecidableEq

/-- The bytes of a word, and the number of rounds. -/
def sizeWord : Alg → Nat
  | .sha256 => 4
  | .sha384 => 8
  | .sha512 => 8

def sizeKW : Alg → Nat
  | .sha256 => 64
  | .sha384 => 80
  | .sha512 => 80

/-- The implementation of a hash function. -/
def hashModule : (a : Alg) → Algorithm (sizeWord a) (sizeKW a)
  | .sha256 => Impl.SHA2.sha256
  | .sha384 => Impl.SHA2.sha384
  | .sha512 => Impl.SHA2.sha512

/-- The bytes of a block. -/
def blockSize (a : Alg) : UInt32 := (hashModule a).sizeBlock

/-- The bytes of a hash: for SHA-384 those of its final words, not of its state. -/
def hashSize : Alg → UInt32
  | .sha256 => 4 * 8
  | .sha384 => 8 * 6
  | .sha512 => 8 * 8

/-- The 32-bit words allocated for a state. The states of SHA-384 and SHA-512 have words of 64 bits. -/
def stateSize : Alg → UInt32
  | .sha256 => 64 + 64 + 8 + 1
  | .sha384 => 2 * (80 + 80 + 8 + 1)
  | .sha512 => 2 * (80 + 80 + 8 + 1)

/-- The state of a hash function. -/
abbrev State (a : Alg) := Impl.SHA2.State (sizeWord a) (sizeKW a)

def agileHash (a : Alg) (output input : Buffer) (len : UInt32) : Stack Unit := (hashModule a).hash output input len

def agileInit (a : Alg) (st : State a) : State a := (hashModule a).init st

def agileUpdate (a : Alg) (st : State a) (input : Buffer) : Stack (State a) := (hashModule a).update st input

def agileUpdateMulti (a : Alg) (st : State a) (input : Buffer) (nblocks : UInt32) : Stack (State a) :=
  (hashModule a).updateMulti st input nblocks

def agileUpdateLast (a : Alg) (st : State a) (input : Buffer) (len : UInt32) : Stack (State a) :=
  (hashModule a).updateLast st input len

def agileFinish (a : Alg) (st : State a) (hash : Buffer) : Stack Unit := (hashModule a).finish st hash

/-- Bring a key to one block. -/
def wrapKey (a : Alg) (output key : Buffer) (len : UInt32) : Stack Unit :=
  if len ≤ blockSize a then Buffer.blit key 0 output 0 len.toNat
  else do
    let nkey ← output.sub 0 (hashSize a).toNat
    agileHash a nkey key len

/-- Hash a block and the data, and store the hash over the block. -/
def hmacPart1 (a : Alg) (s2 data : Buffer) (len : UInt32) : Stack Unit := inFrame do
  let state0 : State a := alloc
  let n0 := len / blockSize a
  let r0 := len % blockSize a
  let blocks0 ← data.sub 0 (n0.toNat * (blockSize a).toNat)
  let last0 ← data.offset (n0.toNat * (blockSize a).toNat)
  let state0 := agileInit a state0
  let state0 ← agileUpdate a state0 s2
  let state0 ← agileUpdateMulti a state0 blocks0 n0
  let state0 ← agileUpdateLast a state0 last0 r0
  let hash0 ← s2.sub 0 (hashSize a).toNat
  agileFinish a state0 hash0

/-- Hash a block and a hash. -/
def hmacPart2 (a : Alg) (mac s5 s4 : Buffer) : Stack Unit := inFrame do
  let state1 : State a := alloc
  let state1 := agileInit a state1
  let state1 ← agileUpdate a state1 s5
  let state1 ← agileUpdateLast a state1 s4 (hashSize a)
  agileFinish a state1 mac

/-- The authenticator under a key of one block. -/
def hmacCore (a : Alg) (mac key data : Buffer) (len : UInt32) : Stack Unit := inFrame do
  let ipad ← createFilled 0x36 (blockSize a).toNat
  let opad ← createFilled 0x5c (blockSize a).toNat
  xorBytesInplace ipad key (blockSize a).toNat
  hmacPart1 a ipad data len
  let s4 ← ipad.sub 0 (hashSize a).toNat
  xorBytesInplace opad key (blockSize a).toNat
  hmacPart2 a mac opad s4

/-- The authenticator under any key. -/
def hmac (a : Alg) (mac key : Buffer) (keylen : UInt32) (data : Buffer) (datalen : UInt32) : Stack Unit := inFrame do
  let nkey ← create (blockSize a).toNat
  wrapKey a nkey key keylen
  hmacCore a mac nkey data datalen

/-! The hash functions by their specifications. -/

/-- The algorithm of the generic specification. -/
def hashAlg : Alg → HashAlg
  | .sha256 => .sha2_256
  | .sha384 => .sha2_384
  | .sha512 => .sha2_512

/-- The specification of a hash function. -/
def spec : (a : Alg) → Spec.SHA2.Algorithm (sizeWord a) (sizeKW a)
  | .sha256 => Spec.SHA2Generic.params .sha2_256
  | .sha384 => Spec.SHA2Generic.params .sha2_384
  | .sha512 => Spec.SHA2Generic.params .sha2_512

instance (a : Alg) : NeZero (sizeWord a) := ⟨by cases a <;> decide⟩

/-- The memory allocated for a state is exactly the memory of its words. -/
theorem stateSize_bytes (a : Alg) :
    (stateSize a).toNat * 4 = sizeWord a * (sizeKW a + sizeKW a + 8 + 1) := by
  cases a <;> rfl

/-- The block boundary from which a specification counts its padding makes no difference. -/
theorem implements_padBlocks {n sizeK : Nat} [NeZero n] {alg : Algorithm n sizeK}
    {spec : Spec.SHA2.Algorithm n sizeK} (imp : Implements alg spec) (blocks : Nat) :
    Implements alg { spec with padBlocks := blocks } := by
  have same (len : Nat) : spec.pad0Length len =
      ({ spec with padBlocks := blocks } : Spec.SHA2.Algorithm n sizeK).pad0Length len := by
    -- Fewer zeros than a block that complete one are determined.
    obtain ⟨few, complete⟩ := spec.pad0Length_spec len
    exact Spec.SHA2.Algorithm.pad0Length_unique few complete
  exact {
    bigSigma0 := imp.bigSigma0
    bigSigma1 := imp.bigSigma1
    smallSigma0 := imp.smallSigma0
    smallSigma1 := imp.smallSigma1
    k := imp.k
    h0 := imp.h0
    sizeBlock := imp.sizeBlock
    sizeLen := imp.sizeLen
    sizeHashFinal := imp.sizeHashFinal
    final_le := imp.final_le
    rounds := imp.rounds
    roomy := imp.roomy
    pad0Length := fun len accepts => (imp.pad0Length len accepts).trans (same len.toNat)
    encodeLength := imp.encodeLength
    oneBlock := fun len accepts => by
      rw [← same]
      exact imp.oneBlock len accepts }

/-- Each implementation has the parameters of the generic specification. -/
theorem hashModule_implements (a : Alg) : Implements (hashModule a) (spec a) := by
  cases a with
  | sha256 => exact sha256_implements
  | sha384 => exact sha384_implements
  | sha512 => exact implements_padBlocks sha512_implements 1

/-- The specifications hash as the generic one. -/
theorem spec_hash (a : Alg) : (spec a).hash = Spec.SHA2Generic.hash (hashAlg a) := by
  funext input
  rw [Spec.SHA2Generic.hash_params]
  cases a <;> rfl

section Sizes

variable (a : Alg)

/-- A block of the implementation is one of the specification. -/
theorem blockSize_toNat : (blockSize a).toNat = Spec.SHA2.sizeBlock (sizeWord a) :=
  (hashModule_implements a).sizeBlock

/-- A hash of the implementation is one of the specification. -/
theorem hashSize_toNat : (hashSize a).toNat = sizeWord a * (spec a).sizeHashFinal := by
  cases a <;> rfl

/-- The sizes are those of the generic specification. -/
theorem blockSize_spec : (blockSize a).toNat = Spec.SHA2Generic.sizeBlock (hashAlg a) := by
  cases a <;> rfl

theorem hashSize_spec : (hashSize a).toNat = Spec.HMACGeneric.sizeHash (hashAlg a) := by
  cases a <;> rfl

/-- A hash leaves room in a block for the padding behind it. -/
theorem hashSize_fits : (hashSize a).toNat + (hashModule a).sizeLen.toNat + 1 < 2 * (blockSize a).toNat ∧
    (hashSize a).toNat ≤ (blockSize a).toNat := by
  cases a <;> decide

/-- Blocks are of at least sixty-four bytes. -/
theorem blockSize_bounds : 64 ≤ (blockSize a).toNat ∧ (blockSize a).toNat ≤ 128 := by
  cases a <;> decide

/-- Words count all the blocks of a buffer. -/
theorem count_bound : 2 ^ 32 ≤ 2 ^ (8 * sizeWord a) := by
  cases a <;> decide

/-- A hash has its size. -/
theorem hash_length (input : Bytes) : ((spec a).hash input).length = (hashSize a).toNat := by
  rw [hashSize_toNat]
  exact Spec.SHA2.Algorithm.finish_length _ (hashModule_implements a).final_le

end Sizes

section Runs

variable {a : Alg} {h : Mem}

/-- Only the announced bytes of the last input are read. -/
theorem updateLast_announced {n sizeK : Nat} (alg : Algorithm n sizeK) (st : Impl.SHA2.State n sizeK)
    {data : Buffer} {len : UInt32} (fits : len.toNat ≤ data.length) :
    alg.updateLast st data len = alg.updateLast st (data.slice 0 len.toNat) len := by
  -- The copy takes the same part of both views.
  have same : data.sub 0 len.toNat = (data.slice 0 len.toNat).sub 0 len.toNat := by
    funext m
    rw [Buffer.sub_run _ (by omega), Buffer.sub_run _ (by simp), Buffer.slice_slice]
  simp only [Algorithm.updateLast, Algorithm.fill, Buffer.blit, same]

/-- Only the announced bytes of an input are hashed. -/
theorem hash_announced {n sizeK : Nat} (alg : Algorithm n sizeK) (output : Buffer) {input : Buffer}
    {len : UInt32} (fits : len.toNat ≤ input.length) :
    alg.hash output input len = alg.hash output (input.slice 0 len.toNat) len := by
  have blocks : (len / alg.sizeBlock * alg.sizeBlock).toNat = len.toNat / alg.sizeBlock.toNat * alg.sizeBlock.toNat := by
    rw [UInt32.toNat_mul, UInt32.toNat_div, Nat.mod_eq_of_lt]
    exact (Nat.div_mul_le_self _ _).trans_lt len.toNat_lt
  have divided := Nat.div_add_mod' len.toNat alg.sizeBlock.toNat
  -- Both parts lie within the announced bytes.
  have part (start size : Nat) (within : start + size ≤ len.toNat) :
      input.sub start size = (input.slice 0 len.toNat).sub start size := by
    funext m
    rw [Buffer.sub_run _ (by omega), Buffer.sub_run _ (by simpa using within), Buffer.slice_slice,
      Nat.zero_add]
  have first := part 0 (len / alg.sizeBlock * alg.sizeBlock).toNat (by omega)
  have second := part (len / alg.sizeBlock * alg.sizeBlock).toNat (len % alg.sizeBlock).toNat
    (by rw [blocks, UInt32.toNat_mod]; omega)
  simp only [Algorithm.hash, first, second]

/-- A block behind a fresh hash. -/
theorem hashed_run {s2 : Buffer} (live : h.Live s2) (size : s2.length = (blockSize a).toNat) :
    ∃ st, Digests (spec a) (h.read s2) st ∧ st.count.toNat = 1 ∧
      agileUpdate a (agileInit a alloc) s2 h = some (st, h) := by
  have bound := count_bound a
  have start : (agileInit a alloc).count.toNat = 0 := by
    show (0#(8 * sizeWord a)).toNat = 0
    rw [BitVec.toNat_ofNat, Nat.zero_mod]
  obtain ⟨st, digests, counted, ran⟩ := update_run (hashModule_implements a)
    (init_digests (hashModule_implements a) alloc) (Nat.zero_mod _) live
    (size.trans (blockSize_toNat a)) (by rw [show ((hashModule a).init alloc).count.toNat = 0 from start]; omega)
  refine ⟨st, digests, ?_, ran⟩
  rw [counted]
  exact congrArg (· + 1) start

/-- The first part hashes the block and the announced bytes of the data. -/
theorem hmacPart1_run {s2 data : Buffer} {len : UInt32} (live : h.Live s2) (live' : h.Live data)
    (size : s2.length = (blockSize a).toNat) (fits : len.toNat ≤ data.length) :
    hmacPart1 a s2 data len h = some ((), h.write (s2.slice 0 (hashSize a).toNat)
      ((spec a).hash (h.read s2 ++ (h.read data).take len.toNat))) := by
  have small := len.toNat_lt
  have imp := hashModule_implements a
  have block := blockSize_toNat a
  obtain ⟨roomy, short⟩ := hashSize_fits a
  obtain ⟨wide, narrow⟩ := blockSize_bounds a
  have bound := count_bound a
  have bytes := Mem.read_length live
  have bytes' := Mem.read_length live'
  set size0 := (blockSize a).toNat with size0_def
  have number : (len / blockSize a).toNat = len.toNat / size0 := UInt32.toNat_div len (blockSize a)
  have rest : (len % blockSize a).toNat = len.toNat % size0 := UInt32.toNat_mod len (blockSize a)
  set n0 := len.toNat / size0 with n0_def
  have divided := Nat.div_add_mod' len.toNat size0
  have small' := Nat.mod_lt len.toNat (by omega : 0 < size0)
  have few : n0 ≤ len.toNat / 64 := Nat.div_le_div_left wide (by decide)
  rw [← n0_def] at divided
  have first := Mem.read_slice h data (i := 0) (n := n0 * size0) (by omega)
  have second := Mem.read_slice h data (i := n0 * size0) (n := len.toNat % size0) (by omega)
  rw [List.drop_zero] at first
  have taken : ((h.read data).take (n0 * size0)).length = n0 * size0 := by rw [List.length_take]; omega
  -- The block, the whole blocks of the data, and the rest go through the state one after another.
  obtain ⟨st1, digests1, counted1, ran1⟩ := hashed_run live size
  obtain ⟨st2, digests2, counted2, ran2⟩ := updateMulti_run imp digests1
    (by rw [bytes, size, block, Nat.mod_self]) (live'.slice (i := 0) (n := n0 * size0) (by omega))
    (len / blockSize a) (by rw [number, ← block, Buffer.slice_length]) (by rw [counted1, number]; omega)
  rw [first] at digests2
  have whole : (h.read s2 ++ (h.read data).take (n0 * size0)).length % Spec.SHA2.sizeBlock (sizeWord a) = 0 := by
    rw [List.length_append, taken, bytes, size, ← block, Nat.add_mul_mod_self_right, Nat.mod_self]
  have accepts : (hashModule a).Accepts (len % blockSize a) := by
    rw [Algorithm.Accepts, rest]
    show _ < 2 * size0
    have room := imp.roomy
    rw [← imp.sizeLen, ← block] at room
    omega
  obtain ⟨st3, hashed, ran3⟩ := updateLast_run imp digests2 whole
    (live'.slice (i := n0 * size0) (n := len.toNat % size0) (by omega)) (len % blockSize a)
    rest.symm accepts (by rw [counted2, counted1, number]; omega)
  rw [second] at hashed
  have result : (spec a).finish st3.whash =
      (spec a).hash (h.read s2 ++ (h.read data).take len.toNat) := by
    rw [hashed, Spec.SHA2.Algorithm.finish_updateLast _ _ whole, List.append_assoc, ← List.take_add, divided]
  -- Of the data behind the whole blocks only the rest is read.
  have announced : agileUpdateLast a st2 (data.slice (n0 * size0) (data.length - n0 * size0)) (len % blockSize a) h =
      some (st3, h) := by
    rw [agileUpdateLast, updateLast_announced _ _ (by rw [rest, Buffer.slice_length]; omega),
      Buffer.slice_slice, rest]
    exact ran3
  have stored := finish_run imp st3 (live.slice (i := 0) (n := (hashSize a).toNat) (by omega))
    (hashSize_toNat a)
  refine inFrame_outer ?_ ((Mem.Outer.refl h).write_old (live.slice (by omega)) _) (by simp)
  rw [number, ← size0_def, Stack.bind_run (Buffer.sub_run _ (by omega)),
    Stack.bind_run (Buffer.offset_run _ (by omega)), Stack.bind_run ran1, agileUpdateMulti, Stack.bind_run ran2, Stack.bind_run announced,
    Stack.bind_run (Buffer.sub_run _ (by omega)), agileFinish, stored, result]

/-- The second part hashes the block and the inner hash. -/
theorem hmacPart2_run {mac s5 s4 : Buffer} (live : h.Live mac) (live' : h.Live s5) (live'' : h.Live s4)
    (size : mac.length = (hashSize a).toNat) (size' : s5.length = (blockSize a).toNat)
    (size'' : s4.length = (hashSize a).toNat) :
    hmacPart2 a mac s5 s4 h = some ((), h.write mac ((spec a).hash (h.read s5 ++ h.read s4))) := by
  have bound := count_bound a
  obtain ⟨st1, digests1, counted1, ran1⟩ := hashed_run live' size'
  have whole : (h.read s5).length % Spec.SHA2.sizeBlock (sizeWord a) = 0 := by
    rw [Mem.read_length live', size', blockSize_toNat, Nat.mod_self]
  obtain ⟨st2, hashed, ran2⟩ := updateLast_run (hashModule_implements a) digests1 whole live''
    (hashSize a) size'' (hashSize_fits a).1 (by rw [counted1]; omega)
  refine inFrame_outer ?_ ((Mem.Outer.refl h).write_old live _) (by simp)
  rw [Stack.bind_run ran1, agileUpdateLast, Stack.bind_run ran2, agileFinish,
    finish_run (hashModule_implements a) st2 live (size.trans (hashSize_toNat a)), hashed,
    Spec.SHA2.Algorithm.finish_updateLast _ _ whole]

/-- The core of the specification over the parameters of a hash function. -/
theorem hmacCore_spec (key data : Bytes) : Spec.HMACGeneric.hmacCore (hashAlg a) key data =
    (spec a).hash (xor (List.replicate (blockSize a).toNat 0x5c) key ++
      (spec a).hash (xor (List.replicate (blockSize a).toNat 0x36) key ++ data)) := by
  rw [Spec.HMACGeneric.hmacCore, spec_hash, ← blockSize_spec]

/-- The core is that of the specification, on the announced bytes of the data. -/
theorem hmacCore_run {mac key data : Buffer} {len : UInt32} (live : h.Live mac) (live' : h.Live key)
    (live'' : h.Live data) (size : mac.length = (hashSize a).toNat)
    (size' : key.length = (blockSize a).toNat) (fits : len.toNat ≤ data.length) :
    hmacCore a mac key data len h = some ((), h.write mac
      (Spec.HMACGeneric.hmacCore (hashAlg a) (h.read key) ((h.read data).take len.toNat))) := by
  rw [hmacCore_spec]
  set block := (blockSize a).toNat with block_def
  set ipad := h.fresh block with ipad_def
  set m1 := (h.alloc block).write ipad (List.replicate block 0x36) with m1_def
  set opad := m1.fresh block with opad_def
  set m2 := (m1.alloc block).write opad (List.replicate block 0x5c) with m2_def
  have filled : (List.replicate block (0x36 : UInt8)).length = ipad.length := List.length_replicate
  have filled' : (List.replicate block (0x5c : UInt8)).length = opad.length := List.length_replicate
  have outer1 : h.Outer m1 := ((Mem.Outer.refl h).alloc block).write_new le_rfl _
  have outer2 : h.Outer m2 := (outer1.alloc block).write_new outer1.length_le _
  have inner2 : m1.Outer m2 := ((Mem.Outer.refl m1).alloc block).write_new le_rfl _
  have liveI1 : m1.Live ipad := (Mem.fresh_live h block).write (Mem.fresh_live h block) filled.le
  have liveI2 := inner2.live liveI1
  have liveO2 : m2.Live opad := (Mem.fresh_live m1 block).write (Mem.fresh_live m1 block) filled'.le
  have readI2 : m2.read ipad = List.replicate block 0x36 := by
    rw [inner2.read liveI1, m1_def, Mem.read_write_same (Mem.fresh_live h block) filled]
  have readO2 : m2.read opad = List.replicate block 0x5c :=
    Mem.read_write_same (Mem.fresh_live m1 block) filled'
  have apartI (b : Buffer) (other : h.Live b) : ipad.Disjoint b := Mem.Outer.apart le_rfl other
  have apartO (b : Buffer) (other : h.Live b) : opad.Disjoint b :=
    Mem.Outer.apart outer1.length_le other
  have apart : ipad.Disjoint opad := (Mem.Outer.apart le_rfl liveI1).symm
  -- The inner pad is combined with the key, and hashed with the data over its own start.
  have masked := xorBytesInplace_run block liveI2 (outer2.live live') (apartI key live') rfl size'
  rw [readI2, outer2.read live'] at masked
  set s2 := xor (List.replicate block 0x36) (h.read key) with s2_def
  have keyBytes := Mem.read_length live'
  have start : 0 + (hashSize a).toNat ≤ ipad.length := by
    rw [Nat.zero_add]
    exact (hashSize_fits a).2
  have s2Size : s2.length = ipad.length := by
    rw [s2_def, xor_length, List.length_replicate, keyBytes, size', Nat.min_self]
    rfl
  set m3 := m2.write ipad s2 with m3_def
  have outer3 : h.Outer m3 := outer2.write_new le_rfl _
  have liveI3 : m3.Live ipad := liveI2.write liveI2 s2Size.le
  have part1 : hmacPart1 a ipad data len m3 = _ := hmacPart1_run liveI3 (outer3.live live'') rfl fits
  rw [Mem.read_write_same liveI2 s2Size, outer3.read live''] at part1
  set s4 := (spec a).hash (s2 ++ (h.read data).take len.toNat) with s4_def
  have s4Size : s4.length = (hashSize a).toNat := hash_length a _
  set m4 := m3.write (ipad.slice 0 (hashSize a).toNat) s4 with m4_def
  have liveS4 : m3.Live (ipad.slice 0 (hashSize a).toNat) := liveI3.slice start
  have outer4 : h.Outer m4 := outer3.write_new le_rfl _
  have liveO3 : m3.Live opad := liveO2.write liveI2 s2Size.le
  have liveO4 : m4.Live opad := liveO3.write liveS4 s4Size.le
  have readO4 : m4.read opad = List.replicate block 0x5c := by
    rw [m4_def, Mem.read_write_disjoint liveS4 s4Size.le (apart.slice_left start), m3_def,
      Mem.read_write_disjoint liveI2 s2Size.le apart, readO2]
  -- The outer pad is combined with the key, and hashed with the inner hash.
  have masked' := xorBytesInplace_run block liveO4 (outer4.live live') (apartO key live') rfl size'
  rw [readO4, outer4.read live'] at masked'
  set s5 := xor (List.replicate block 0x5c) (h.read key) with s5_def
  have s5Size : s5.length = opad.length := by
    rw [s5_def, xor_length, List.length_replicate, keyBytes, size', Nat.min_self]
    rfl
  set m5 := m4.write opad s5 with m5_def
  have outer5 : h.Outer m5 := outer4.write_new outer1.length_le _
  have liveS4' : m4.Live (ipad.slice 0 (hashSize a).toNat) := liveS4.write liveS4 s4Size.le
  have part2 : hmacPart2 a mac opad (ipad.slice 0 (hashSize a).toNat) m5 = _ :=
    hmacPart2_run (outer5.live live) (liveO4.write liveO4 s5Size.le) (liveS4'.write liveO4 s5Size.le) size rfl rfl
  rw [Mem.read_write_same liveO4 s5Size, Mem.read_write_disjoint liveO4 s5Size.le
    (apart.symm.slice_right start), Mem.read_write_same liveS4 s4Size] at part2
  refine inFrame_outer ?_ (outer5.write_old live _) (by simp)
  rw [Stack.bind_run (createFilled_run _ _), ← block_def, ← ipad_def, ← m1_def,
    Stack.bind_run (createFilled_run _ _), ← opad_def, ← m2_def, Stack.bind_run masked,
    Stack.bind_run part1, Stack.bind_run (Buffer.sub_run _ start), Stack.bind_run masked', part2]

/-- Wrapping brings a key to the block of the specification: over zeros, the key itself or its hash. -/
theorem wrapKey_run {output key : Buffer} {len : UInt32} (live : h.Live output) (live' : h.Live key)
    (size : output.length = (blockSize a).toNat)
    (zeros : h.read output = List.replicate (blockSize a).toNat 0) (fits : len.toNat ≤ key.length) :
    wrapKey a output key len h = some ((), h.write output
      (Spec.HMACGeneric.wrapKey (hashAlg a) ((h.read key).take len.toNat))) := by
  have small := len.toNat_lt
  have bytes := Mem.read_length live'
  have announced : ((h.read key).take len.toNat).length = len.toNat := by rw [List.length_take]; omega
  obtain ⟨-, short⟩ := hashSize_fits a
  obtain ⟨wide, -⟩ := blockSize_bounds a
  have bound := count_bound a
  -- What is written at the start of the block leaves the zeros behind it.
  have padded {w : Bytes} (fits : w.length ≤ (blockSize a).toNat) :
      h.write output w = h.write output (w ++ List.replicate ((blockSize a).toNat - w.length) 0) := by
    have rest : (h.read output).drop w.length = List.replicate ((blockSize a).toNat - w.length) 0 := by
      rw [zeros, List.drop_replicate]
    have whole := Mem.read_length live
    have joined : (h.write output (h.read output)).write output w =
        h.write output (w ++ (h.read output).drop w.length) := Mem.write_prefix live (by omega) (by omega)
    rwa [Mem.write_read live, rest] at joined
  rw [wrapKey, Spec.HMACGeneric.wrapKey, ← blockSize_spec, ← hashSize_spec, announced]
  by_cases fitting : len ≤ blockSize a
  · have within : len.toNat ≤ (blockSize a).toNat := UInt32.le_iff_toNat_le.mp fitting
    have copied := Buffer.blit_run live' live (show 0 + len.toNat ≤ key.length by omega)
      (show 0 + len.toNat ≤ output.length by omega)
    rw [List.drop_zero, Mem.write_slice_zero, padded (by omega), announced] at copied
    rw [if_pos fitting, if_pos within, copied]
  · have beyond : ¬ len.toNat ≤ (blockSize a).toNat := fun within => fitting (UInt32.le_iff_toNat_le.mpr within)
    have hashSize' := hash_length a ((h.read key).take len.toNat)
    have few : len.toNat / Spec.SHA2.sizeBlock (sizeWord a) ≤ len.toNat / 64 :=
      Nat.div_le_div_left (by rw [← blockSize_toNat]; exact wide) (by decide)
    have hashed := hash_run (hashModule_implements a) (live.slice (i := 0) (n := (hashSize a).toNat) (by omega))
      (live'.slice (i := 0) (n := len.toNat) (by omega)) (hashSize_toNat a) rfl (by omega)
    rw [Mem.write_slice_zero, Mem.read_slice _ _ (by omega), List.drop_zero, padded (by omega), hashSize'] at hashed
    rw [if_neg fitting, if_neg beyond, Stack.bind_run (Buffer.sub_run _ (by omega)), agileHash,
      hash_announced _ _ fits, hashed, spec_hash]

/-- The authenticator under any key is that of the specification. -/
theorem hmac_run {mac key data : Buffer} {keylen datalen : UInt32} (live : h.Live mac)
    (live' : h.Live key) (live'' : h.Live data) (size : mac.length = (hashSize a).toNat)
    (fits : keylen.toNat ≤ key.length) (fits' : datalen.toNat ≤ data.length) :
    hmac a mac key keylen data datalen h = some ((), h.write mac
      (Spec.HMACGeneric.hmac (hashAlg a) ((h.read key).take keylen.toNat)
        ((h.read data).take datalen.toNat))) := by
  set block := (blockSize a).toNat with block_def
  set nkey := h.fresh block with nkey_def
  have outer1 : h.Outer (h.alloc block) := (Mem.Outer.refl h).alloc block
  have fresh : (h.alloc block).Live nkey := Mem.fresh_live h block
  have wrapped : wrapKey a nkey key keylen (h.alloc block) = _ :=
    wrapKey_run fresh (outer1.live live') rfl (Mem.read_fresh h block) fits
  rw [outer1.read live'] at wrapped
  set wrap := Spec.HMACGeneric.wrapKey (hashAlg a) ((h.read key).take keylen.toNat) with wrap_def
  have wrapSize : wrap.length = nkey.length := by
    rw [wrap_def, Spec.HMACGeneric.wrapKey_length, ← blockSize_spec]
    rfl
  set m := (h.alloc block).write nkey wrap with m_def
  have outer2 : h.Outer m := outer1.write_new le_rfl _
  -- The core runs on the wrapped key in its own block.
  have core : hmacCore a mac nkey data datalen m = _ :=
    hmacCore_run (outer2.live live) (fresh.write fresh wrapSize.le) (outer2.live live'') size rfl fits'
  rw [Mem.read_write_same fresh wrapSize, outer2.read live''] at core
  refine inFrame_outer ?_ (outer2.write_old live _) (by simp)
  rw [Stack.bind_run (create_run block), Stack.bind_run wrapped, core, Spec.HMACGeneric.hmac]

end Runs

end HaclStar.SecureApi.HMAC
