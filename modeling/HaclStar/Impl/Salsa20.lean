import HaclStar.Impl.StreamCipher
import HaclStar.Spec.Salsa20

/-! The Salsa20 and HSalsa20 implementations. -/

namespace HaclStar.Impl

namespace Salsa20

open Endianness Keystream Memory Spec

/-- Combine one word of the state with the rotated sum of two others. -/
def line (st : State) (a b d : Fin 16) (s : UInt32) : State :=
  let sa := getElem st a (within a)
  let sb := getElem st b (within b)
  let sd := getElem st d (within d)
  let sbd := sb + sd
  let sbds := rotateLeft sbd s
  st.set a (sa ^^^ sbds) (within a)

/-- Four lines on four words of the state. -/
def quarterRound (st : State) (a b c d : Fin 16) : State :=
  let st := line st b a d 7
  let st := line st c b a 9
  let st := line st d c b 13
  line st a d c 18

/-- Quarter rounds on the columns. -/
def columnRound (st : State) : State :=
  let st := quarterRound st 0 4 8 12
  let st := quarterRound st 5 9 13 1
  let st := quarterRound st 10 14 2 6
  quarterRound st 15 3 7 11

/-- Quarter rounds on the rows. -/
def rowRound (st : State) : State :=
  let st := quarterRound st 0 1 2 3
  let st := quarterRound st 5 6 7 4
  let st := quarterRound st 10 11 8 9
  quarterRound st 15 12 13 14

/-- Two rounds. -/
def doubleRound (st : State) : State := rowRound (columnRound st)

/-- Twenty rounds. -/
def rounds (st : State) : State := doubleRound^[10] st

/-- Add the words of a second state. -/
def sumStates (st st' : State) : State := Vector.zipWith (· + ·) st st'

/-- The low word of a 64-bit counter. -/
def low32OfU64 (x : UInt64) : UInt32 := x.toUInt32

/-- The high word of a 64-bit counter. -/
def high32OfU64 (x : UInt64) : UInt32 := (x >>> 32).toUInt32

/-- Word eight of a state, the low word of the counter, is within it. -/
theorem lowPosition : 8 < 16 := by decide

/-- Word nine of a state, the high word of the counter, is within it. -/
theorem highPosition : 9 < 16 := by decide

/-- Write the counter into the state, and compute the keystream words on a copy. -/
def salsa20Core (st : State) (ctr : UInt64) : State × State :=
  let c0 := low32OfU64 ctr
  let c1 := high32OfU64 ctr
  let st := st.set 8 c0 lowPosition
  let st := st.set 9 c1 highPosition
  let k := st
  let k := rounds k
  let k := sumStates k st
  (k, st)

/-- Salsa20 as a stream cipher with a 64-bit counter. -/
def cipher : StreamCipher UInt64 where
  core := salsa20Core
  advance := fun ctr i => ctr + UInt64.ofNat i

/-- Write one block of keystream. -/
def salsa20Block (streamBlock : Buffer) (st : State) (ctr : UInt64) : Stack State :=
  cipher.block streamBlock st ctr

/-- Encrypt one whole block. -/
def update (output plain : Buffer) (st : State) (ctr : UInt64) : Stack State :=
  cipher.update output plain st ctr

/-- Encrypt a final partial block. -/
def updateLast (output plain : Buffer) (len : Nat) (st : State) (ctr : UInt64) : Stack State :=
  cipher.updateLast output plain len st ctr

/-- Encrypt whole blocks. -/
def salsa20CounterModeBlocks (output plain : Buffer) (len : Nat) (st : State) (ctr : UInt64) :
    Stack State :=
  cipher.counterModeBlocks output plain len st ctr

/-- Encrypt a message from a prepared state. -/
def salsa20CounterMode (output plain : Buffer) (len : UInt32) (st : State) (ctr : UInt64) :
    Stack Unit :=
  cipher.counterMode output plain len st ctr

/-- The initial state for a key, a nonce and a counter. -/
def setup (k n : Buffer) (c : UInt64) : Stack State := do
  let k' ← uint32sFromLeBytes k 8
  let n' ← uint32sFromLeBytes n 2
  let c0 := c.toUInt32
  let c1 := (c >>> 32).toUInt32
  return #v[Salsa20.constant0, k'.get 0, k'.get 1, k'.get 2,
    k'.get 3, Salsa20.constant1, n'.get 0, n'.get 1,
    c0, c1, Salsa20.constant2, k'.get 4,
    k'.get 5, k'.get 6, k'.get 7, Salsa20.constant3]

/-- The state is set up once, with counter zero. -/
def init (k n : Buffer) : Stack State := setup k n 0

/-- Encrypt a message. -/
def salsa20 (output plain : Buffer) (len : UInt32) (k n : Buffer) (ctr : UInt64) : Stack Unit := do
  let st ← init k n
  salsa20CounterMode output plain len st ctr

/-- The states that belong to a key and a nonce, whatever their counter words hold. -/
def Keyed (k n : Bytes) (st : State) : Prop := ∃ c, st = Spec.Salsa20.setup k n c

/-- The implementation's quarter round is the specification's. -/
theorem quarterRound_eq (st : State) (a b c d : Fin 16) :
    quarterRound st a b c d = Spec.Salsa20.quarterRound a b c d st := rfl

/-- The implementation's double round is the specification's. -/
theorem doubleRound_eq (st : State) : doubleRound st = Spec.Salsa20.doubleRound st := by
  -- Both apply the same eight quarter rounds.
  simp only [doubleRound, columnRound, rowRound, quarterRound_eq, Spec.Salsa20.doubleRound,
    Spec.Salsa20.columnRound, Spec.Salsa20.rowRound]

/-- The implementation's rounds are the specification's. -/
theorem rounds_eq (st : State) : rounds st = Spec.Salsa20.rounds st := by
  rw [rounds, Spec.Salsa20.rounds, funext doubleRound_eq]

/-- Overwriting words eight and nine of a state given word by word. -/
private theorem set_counter (a0 a1 a2 a3 a4 a5 a6 a7 a8 a9 a10 a11 a12 a13 a14 a15 c0 c1 : UInt32) :
    ((#v[a0, a1, a2, a3, a4, a5, a6, a7, a8, a9, a10, a11, a12, a13, a14, a15]).set 8 c0 lowPosition).set
        9 c1 highPosition =
      #v[a0, a1, a2, a3, a4, a5, a6, a7, c0, c1, a10, a11, a12, a13, a14, a15] := rfl

/-- Overwriting the counter words gives the state of the new counter. -/
theorem setup_set (k n : Bytes) (c : Nat) (ctr : UInt64) :
    ((Spec.Salsa20.setup k n c).set 8 (low32OfU64 ctr) lowPosition).set 9 (high32OfU64 ctr)
        highPosition =
      Spec.Salsa20.setup k n ctr.toNat := by
  -- The counter words are the only ones that depend on the counter.
  simp only [Spec.Salsa20.setup, set_counter, UInt64.ofNat_toNat, low32OfU64, high32OfU64]

/-- On a keyed state the core yields the specification's words, and the state of the new counter. -/
theorem salsa20Core_eq (k n : Bytes) (c : Nat) (ctr : UInt64) :
    salsa20Core (Spec.Salsa20.setup k n c) ctr =
      (Spec.Salsa20.salsa20Core (Spec.Salsa20.setup k n ctr.toNat), Spec.Salsa20.setup k n ctr.toNat) := by
  simp only [salsa20Core, setup_set, rounds_eq, sumStates, Spec.Salsa20.salsa20Core]

/-- From a keyed state the core computes the specification's block. -/
theorem cipher_refines (k n : Bytes) :
    cipher.Refines (Keyed k n) (fun ctr => Spec.Salsa20.salsa20Block k n ctr.toNat) where
  keystream := by
    rintro st ctr ⟨c, rfl⟩
    simp only [cipher, salsa20Core_eq, Spec.Salsa20.salsa20Block]
  keeps := by
    rintro st ctr ⟨c, rfl⟩
    simp only [cipher, salsa20Core_eq]
    exact ⟨ctr.toNat, rfl⟩

/-- The counter of a later block counts modulo `2 ^ 64`, as the specification's state does. -/
theorem salsa20Block_advance (k n : Bytes) (ctr : UInt64) (i : Nat) :
    Spec.Salsa20.salsa20Block k n (cipher.advance ctr i).toNat =
      Spec.Salsa20.salsa20Block k n (ctr.toNat + i) := by
  -- The state holds the counter as a 64-bit word on both sides.
  have word : UInt64.ofNat (cipher.advance ctr i).toNat = UInt64.ofNat (ctr.toNat + i) := by
    rw [UInt64.ofNat_toNat, UInt64.ofNat_add, UInt64.ofNat_toNat]
    rfl
  simp only [Spec.Salsa20.salsa20Block, Spec.Salsa20.setup, word]

variable {h : Mem} {output plain k n : Buffer} {len : UInt32} {ctr : UInt64}

/-- Setting up reads the key and the nonce. -/
theorem init_run (live : h.Live k) (live' : h.Live n) (size : k.length = 32) (size' : n.length = 8) :
    ∃ st, Keyed (h.read k) (h.read n) st ∧ init k n h = some (st, h) := by
  have key := Mem.read_length live
  have nonce := Mem.read_length live'
  refine ⟨Spec.Salsa20.setup (h.read k) (h.read n) 0, ⟨0, rfl⟩, ?_⟩
  rw [init, setup, Stack.bind_run (uint32sFromLeBytes_run live (by omega)),
    Stack.bind_run (uint32sFromLeBytes_run live' (by omega)),
    List.take_of_length_le (by omega), List.take_of_length_le (by omega), Stack.pure_run]
  rfl

/-- Encryption writes the message combined with the specification's keystream. -/
theorem salsa20_run (views : SameOrDisjoint output plain) (live : h.Live output)
    (live' : h.Live plain) (liveKey : h.Live k) (liveNonce : h.Live n)
    (size : k.length = 32) (size' : n.length = 8)
    (fits : len.toNat ≤ output.length) (fits' : len.toNat ≤ plain.length) :
    salsa20 output plain len k n ctr h = some ((), h.write output (xorStream
      (keystream (Spec.Salsa20.salsa20Block (h.read k) (h.read n)) 64 ctr.toNat)
      ((h.read plain).take len.toNat))) := by
  obtain ⟨st, keyed, ran⟩ := init_run liveKey liveNonce size size'
  -- Block `i` of the implementation is the specification's block of counter `ctr + i`.
  have stream : keystream (fun i => Spec.Salsa20.salsa20Block (h.read k) (h.read n)
      (cipher.advance ctr i).toNat) 64 0 =
        keystream (Spec.Salsa20.salsa20Block (h.read k) (h.read n)) 64 ctr.toNat := by
    funext i
    simp only [keystream, salsa20Block_advance, Nat.zero_add]
  rw [salsa20, Stack.bind_run ran, salsa20CounterMode,
    StreamCipher.counterMode_run (cipher_refines _ _) keyed views live live' fits fits', stream]

/-- A length that exceeds one of the buffers faults. -/
theorem salsa20_fault (liveKey : h.Live k) (liveNonce : h.Live n)
    (size : k.length = 32) (size' : n.length = 8)
    (beyond : output.length < len.toNat ∨ plain.length < len.toNat) :
    salsa20 output plain len k n ctr h = none := by
  obtain ⟨st, -, ran⟩ := init_run liveKey liveNonce size size'
  rw [salsa20, Stack.bind_run ran, salsa20CounterMode, StreamCipher.counterMode_fault beyond]

end Salsa20

namespace HSalsa20

open Endianness Memory Spec

/-- The initial state for a key and a 16-byte nonce. -/
def setup (k n : Buffer) : Stack State := do
  let k' ← uint32sFromLeBytes k 8
  let n' ← uint32sFromLeBytes n 4
  return #v[Salsa20.constant0, k'.get 0, k'.get 1, k'.get 2,
    k'.get 3, Salsa20.constant1, n'.get 0, n'.get 1,
    n'.get 2, n'.get 3, Salsa20.constant2, k'.get 4,
    k'.get 5, k'.get 6, k'.get 7, Salsa20.constant3]

/-- Derive a key from a nonce and a key. -/
def cryptoCoreHsalsa20 (output nonce key : Buffer) : Stack Unit := do
  let st ← setup key nonce
  let st := Salsa20.rounds st
  let hs := #v[st.get 0, st.get 5, st.get 10, st.get 15, st.get 6, st.get 7, st.get 8, st.get 9]
  uint32sToLeBytes output hs

variable {h : Mem} {output nonce key : Buffer}

/-- The derived key is the specification's. -/
theorem cryptoCoreHsalsa20_run (live : h.Live output) (live' : h.Live nonce) (live'' : h.Live key)
    (fits : 32 ≤ output.length) (size : nonce.length = 16) (size' : key.length = 32) :
    cryptoCoreHsalsa20 output nonce key h =
      some ((), h.write output (Spec.HSalsa20.hsalsa20 (h.read key) (h.read nonce))) := by
  have bytes := Mem.read_length live''
  have bytes' := Mem.read_length live'
  have started : setup key nonce h =
      some (Spec.HSalsa20.setup (h.read key) (h.read nonce), h) := by
    rw [setup, Stack.bind_run (uint32sFromLeBytes_run live'' (by omega)),
      Stack.bind_run (uint32sFromLeBytes_run live' (by omega)),
      List.take_of_length_le (by omega), List.take_of_length_le (by omega), Stack.pure_run,
      Spec.HSalsa20.setup]
    rfl
  rw [cryptoCoreHsalsa20, Stack.bind_run started]
  simp only [Salsa20.rounds_eq]
  exact @uint32sToLeBytes_run _ _ 8 _ live fits

/-- The same derivation with the arguments in the order of the cipher. -/
def hsalsa20 (output key nonce : Buffer) : Stack Unit := cryptoCoreHsalsa20 output nonce key

/-- The derived key is the specification's. -/
theorem hsalsa20_run (live : h.Live output) (live' : h.Live key) (live'' : h.Live nonce)
    (fits : 32 ≤ output.length) (size : key.length = 32) (size' : nonce.length = 16) :
    hsalsa20 output key nonce h =
      some ((), h.write output (Spec.HSalsa20.hsalsa20 (h.read key) (h.read nonce))) :=
  cryptoCoreHsalsa20_run live live'' live' fits size' size

end HSalsa20

end HaclStar.Impl
