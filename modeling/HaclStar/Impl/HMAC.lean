import HaclStar.SecureApi.HMAC

/-! HMAC-SHA2-256 with an incremental interface, and at once. -/

namespace HaclStar.Impl.HMAC

open Endianness Keystream Memory Words Spec.SHA2 Impl.SHA2

/-- The state: the wrapped key as words, and the state of the inner hash. -/
structure State where
  key : Vector (BitVec (8 * 4)) 16
  hash : SHA2.State 4 64

/-- Keep the key as words, and feed the inner hash with the inner pad. -/
def init (st : State) (key : Buffer) : Stack State := inFrame do
  let ipad ← createFilled 0x36 64
  let keyW ← wordsFromBytes (wordBe 4) st.key key 16
  let hash0 := SHA2.sha256.init st.hash
  xorBytesInplace ipad key 64
  let hash0 ← SHA2.sha256.update hash0 ipad
  return ⟨keyW, hash0⟩

/-- Feed the inner hash with one block. -/
def update (st : State) (data : Buffer) : Stack State := do
  let hash0 ← SHA2.sha256.update st.hash data
  return { st with hash := hash0 }

/-- Feed the inner hash with block after block. -/
def updateMulti (st : State) (data : Buffer) : Nat → Stack State
  | 0 => return st
  | n + 1 => do
    let b ← data.sub 0 64
    let data ← data.offset 64
    let st ← update st b
    updateMulti st data n

/-- Feed the inner hash with the rest. -/
def updateLast (st : State) (data : Buffer) (len : UInt32) : Stack State := do
  let hash0 ← SHA2.sha256.updateLast st.hash data len
  return { st with hash := hash0 }

/-- Hash the outer pad and the inner hash. The key is stored back to bytes with the number of bytes of a
block, sixty-four, in place of the number of its words. -/
def finish (st : State) (mac : Buffer) : Stack Unit := inFrame do
  let opad ← createFilled 0x5c 64
  let key ← create 64
  let hash1 : SHA2.State 4 64 := alloc
  wordsToBytes (wordBe 4) key st.key 64
  SHA2.sha256.finish st.hash mac
  xorBytesInplace opad key 64
  let hash1 := SHA2.sha256.init hash1
  let hash1 ← SHA2.sha256.update hash1 opad
  let hash1 ← SHA2.sha256.updateLast hash1 mac 32
  SHA2.sha256.finish hash1 mac

/-- Hash a block and the data, and store the hash over the block. -/
def hmacPart1 (s2 data : Buffer) (len : UInt32) : Stack Unit := inFrame do
  let n0 := len / 64
  let r0 := len % 64
  let blocks0 ← data.sub 0 (n0.toNat * 64)
  let last0 ← data.offset (n0.toNat * 64)
  let state0 := SHA2.sha256.init alloc
  let state0 ← SHA2.sha256.update state0 s2
  let state0 ← SHA2.sha256.updateMulti state0 blocks0 n0
  let state0 ← SHA2.sha256.updateLast state0 last0 r0
  let hash0 ← s2.sub 0 32
  SHA2.sha256.finish state0 hash0

/-- Hash a block and a hash. -/
def hmacPart2 (mac s5 s4 : Buffer) : Stack Unit := inFrame do
  let state1 := SHA2.sha256.init alloc
  let state1 ← SHA2.sha256.update state1 s5
  let state1 ← SHA2.sha256.updateLast state1 s4 32
  SHA2.sha256.finish state1 mac

/-- The authenticator through the incremental interface. -/
def hmacCoreIncremental (mac key data : Buffer) (datalen : UInt32) : Stack Unit := inFrame do
  let st : State := ⟨Vector.replicate 16 0, alloc⟩
  let n := datalen / 64
  let r := datalen % 64
  let st ← init st key
  let st ← updateMulti st data n.toNat
  let inputLast ← data.offset (n.toNat * 64)
  let st ← updateLast st inputLast r
  finish st mac

/-- The authenticator at once. -/
def hmacCore (mac key data : Buffer) (len : UInt32) : Stack Unit := inFrame do
  let ipad ← createFilled 0x36 64
  let opad ← createFilled 0x5c 64
  xorBytesInplace ipad key 64
  hmacPart1 ipad data len
  let s4 ← ipad.sub 0 32
  xorBytesInplace opad key 64
  hmacPart2 mac opad s4

/-- Bring a key to one block. -/
def wrapKey (output key : Buffer) (len : UInt32) : Stack Unit :=
  if len ≤ 64 then Buffer.blit key 0 output 0 len.toNat
  else do
    let nkey ← output.sub 0 32
    SHA2.sha256.hash nkey key len

/-- The authenticator under any key, through the incremental interface. -/
def hmacIncremental (mac key : Buffer) (keylen : UInt32) (data : Buffer) (datalen : UInt32) : Stack Unit :=
  inFrame do
    let nkey ← create 64
    wrapKey nkey key keylen
    hmacCoreIncremental mac nkey data datalen

/-- The authenticator under any key. -/
def hmac (mac key : Buffer) (keylen : UInt32) (data : Buffer) (datalen : UInt32) : Stack Unit := inFrame do
  let nkey ← create 64
  wrapKey nkey key keylen
  hmacCore mac nkey data datalen

variable {h : Mem}

/-- The core at once is the agile one with SHA-256. -/
theorem hmacCore_agile : hmacCore = SecureApi.HMAC.hmacCore .sha256 := rfl

/-- The authenticator at once is the agile one with SHA-256. -/
theorem hmac_agile : hmac = SecureApi.HMAC.hmac .sha256 := rfl

/-- The core at once is that of the specification. -/
theorem hmacCore_run {mac key data : Buffer} {len : UInt32} (live : h.Live mac) (live' : h.Live key)
    (live'' : h.Live data) (size : mac.length = 32) (size' : key.length = 64)
    (size'' : data.length = len.toNat) :
    hmacCore mac key data len h =
      some ((), h.write mac (Spec.HMAC.hmacCore (h.read key) (h.read data))) := by
  have bytes := Mem.read_length live''
  have ran : SecureApi.HMAC.hmacCore .sha256 mac key data len h = _ :=
    SecureApi.HMAC.hmacCore_run live live' live'' size size' size''.ge
  rw [hmacCore_agile, ran, List.take_of_length_le (by omega), SecureApi.HMAC.hashAlg,
    Spec.HMACGeneric.hmacCore_sha2_256]

/-- The authenticator under any key is that of the specification. -/
theorem hmac_run {mac key data : Buffer} {keylen datalen : UInt32} (live : h.Live mac)
    (live' : h.Live key) (live'' : h.Live data) (size : mac.length = 32)
    (size' : key.length = keylen.toNat) (size'' : data.length = datalen.toNat) :
    hmac mac key keylen data datalen h =
      some ((), h.write mac (Spec.HMAC.hmac (h.read key) (h.read data))) := by
  have bytes := Mem.read_length live'
  have bytes' := Mem.read_length live''
  have ran : SecureApi.HMAC.hmac .sha256 mac key keylen data datalen h = _ :=
    SecureApi.HMAC.hmac_run live live' live'' size size'.ge size''.ge
  rw [hmac_agile, ran, List.take_of_length_le (by omega), List.take_of_length_le (by omega),
    SecureApi.HMAC.hashAlg, Spec.HMACGeneric.hmac_sha2_256]

/-- A key that ends outside its block is read beyond the block. -/
theorem hmacCore_fault {mac key data : Buffer} {len : UInt32} (size : key.length = 64)
    (allocated : key.base < h.length) (beyond : ¬ h.Live key) : hmacCore mac key data len h = none := by
  set ipad := h.fresh 64 with ipad_def
  set m1 := (h.alloc 64).write ipad (List.replicate 64 0x36) with m1_def
  set opad := m1.fresh 64 with opad_def
  set m2 := (m1.alloc 64).write opad (List.replicate 64 0x5c) with m2_def
  have outer1 : h.Outer m1 := ((Mem.Outer.refl h).alloc 64).write_new le_rfl _
  have outer2 : h.Outer m2 := (outer1.alloc 64).write_new outer1.length_le _
  -- The pads lie in blocks of their own, so the key ends outside its block as before.
  have beyond' : ¬ m2.Live key := by
    intro live
    have bound := live.2
    rw [outer2.block allocated] at bound
    exact beyond ⟨allocated, bound⟩
  have masked := xorBytesInplace_fault (a := ipad) (by decide : 0 < 64) size
    (allocated.trans_le outer2.length_le) beyond'
  refine inFrame_fault ?_
  rw [Stack.bind_run (createFilled_run _ _), ← ipad_def, ← m1_def, Stack.bind_run (createFilled_run _ _),
    ← opad_def, ← m2_def]
  exact Stack.bind_fault masked _

/-- Whatever the state, finishing reads beyond the words of the key. -/
theorem finish_fault (st : State) (mac : Buffer) : finish st mac h = none :=
  inFrame_fault (Stack.bind_fault_of_forall _ fun _ _ => Stack.bind_fault_of_forall _ fun key _ =>
    Stack.bind_fault (wordsToBytes_fault (wordBe 4) key st.key (by decide)) _)

/-- Hence the authenticator faults wherever it uses the incremental interface. -/
theorem hmacCoreIncremental_fault (mac key data : Buffer) (datalen : UInt32) :
    hmacCoreIncremental mac key data datalen h = none :=
  inFrame_fault (Stack.bind_fault_of_forall _ fun _ _ => Stack.bind_fault_of_forall _ fun _ _ =>
    Stack.bind_fault_of_forall _ fun _ _ => Stack.bind_fault_of_forall _ fun st _ => finish_fault st mac)

theorem hmacIncremental_fault (mac key : Buffer) (keylen : UInt32) (data : Buffer) (datalen : UInt32) :
    hmacIncremental mac key keylen data datalen h = none :=
  inFrame_fault (Stack.bind_fault_of_forall _ fun nkey _ => Stack.bind_fault_of_forall _ fun _ _ =>
    hmacCoreIncremental_fault mac nkey data datalen)

end HaclStar.Impl.HMAC
