import HaclStar.Impl.StreamCipher
import HaclStar.Spec.Chacha20

/-! The word-wise ChaCha20 implementation. -/

namespace HaclStar.Impl.Chacha20

open Endianness Keystream Memory Spec

/-- The four constant words. -/
def constantSetup : Vector UInt32 4 := #v[0x61707865, 0x3320646e, 0x79622d32, 0x6b206574]

/-- The initial state for a key, a nonce and a counter. -/
def setup (k n : Buffer) (c : UInt32) : Stack State := do
  let stk ← uint32sFromLeBytes k 8
  let stn ← uint32sFromLeBytes n 3
  return constantSetup ++ stk ++ #v[c] ++ stn

/-- Add one word to another, and rotate the exclusive or of the sum with a third. -/
def line (st : State) (a b d : Fin 16) (s : UInt32) : State :=
  let sa := getElem st a (within a)
  let sb := getElem st b (within b)
  let st := st.set a (sa + sb) (within a)
  let sd := getElem st d (within d)
  let sa := getElem st a (within a)
  let sda := sd ^^^ sa
  st.set d (rotateLeft sda s) (within d)

/-- Four lines on four words of the state. -/
def quarterRound (st : State) (a b c d : Fin 16) : State :=
  let st := line st a b d 16
  let st := line st c d b 12
  let st := line st a b d 8
  line st c d b 7

/-- Quarter rounds on the columns. -/
def columnRound (st : State) : State :=
  let st := quarterRound st 0 4 8 12
  let st := quarterRound st 1 5 9 13
  let st := quarterRound st 2 6 10 14
  quarterRound st 3 7 11 15

/-- Quarter rounds on the diagonals. -/
def diagonalRound (st : State) : State :=
  let st := quarterRound st 0 5 10 15
  let st := quarterRound st 1 6 11 12
  let st := quarterRound st 2 7 8 13
  quarterRound st 3 4 9 14

/-- Two rounds. -/
def doubleRound (st : State) : State := diagonalRound (columnRound st)

/-- Twenty rounds. -/
def rounds (st : State) : State := doubleRound^[10] st

/-- Add the words of a second state. -/
def sumStates (st st' : State) : State := Vector.zipWith (· + ·) st st'

/-- Write the counter into the state, and compute the keystream words on a copy. -/
def chacha20Core (st : State) (ctr : UInt32) : State × State :=
  let st := st.set 12 ctr counterPosition
  let k := st
  let k := rounds k
  let k := sumStates k st
  (k, st)

/-- ChaCha20 as a stream cipher with a 32-bit counter. -/
def cipher : StreamCipher UInt32 where
  core := chacha20Core
  advance := fun ctr i => ctr + UInt32.ofNat i

/-- Write one block of keystream. -/
def chacha20Block (streamBlock : Buffer) (st : State) (ctr : UInt32) : Stack State :=
  cipher.block streamBlock st ctr

/-- The state is set up once, with counter zero. -/
def init (k n : Buffer) : Stack State := setup k n 0

/-- Encrypt one whole block. -/
def update (output plain : Buffer) (st : State) (ctr : UInt32) : Stack State :=
  cipher.update output plain st ctr

/-- Encrypt a final partial block. -/
def updateLast (output plain : Buffer) (len : Nat) (st : State) (ctr : UInt32) : Stack State :=
  cipher.updateLast output plain len st ctr

/-- Encrypt whole blocks. -/
def chacha20CounterModeBlocks (output plain : Buffer) (numBlocks : Nat) (st : State) (ctr : UInt32) :
    Stack State :=
  cipher.counterModeBlocks output plain numBlocks st ctr

/-- Encrypt a message from a prepared state. -/
def chacha20CounterMode (output plain : Buffer) (len : UInt32) (st : State) (ctr : UInt32) :
    Stack Unit :=
  cipher.counterMode output plain len st ctr

/-- Encrypt a message. -/
def chacha20 (output plain : Buffer) (len : UInt32) (k n : Buffer) (ctr : UInt32) : Stack Unit := do
  let st ← init k n
  chacha20CounterMode output plain len st ctr

/-- Write the keystream block of one counter. -/
def chacha20KeyBlock (block k n : Buffer) (ctr : UInt32) : Stack Unit := do
  let st ← init k n
  let _ ← chacha20Block block st ctr
  return ()

/-- The states that belong to a key and a nonce, whatever their counter word holds. -/
def Keyed (k n : Bytes) (st : State) : Prop := ∃ c, st = Spec.Chacha20.setup k n c

/-- The implementation's quarter round is the specification's. -/
theorem quarterRound_eq (st : State) (a b c d : Fin 16) :
    quarterRound st a b c d = Spec.Chacha20.quarterRound a b c d st := rfl

/-- The implementation's double round is the specification's. -/
theorem doubleRound_eq (st : State) : doubleRound st = Spec.Chacha20.doubleRound st := by
  -- Both apply the same eight quarter rounds.
  simp only [doubleRound, columnRound, diagonalRound, quarterRound_eq, Spec.Chacha20.doubleRound,
    Spec.Chacha20.columnRound, Spec.Chacha20.diagonalRound]

/-- The implementation's rounds are the specification's. -/
theorem rounds_eq (st : State) : rounds st = Spec.Chacha20.rounds st := by
  rw [rounds, Spec.Chacha20.rounds, funext doubleRound_eq]

/-- On a keyed state the core yields the specification's words, and the state of the new counter. -/
theorem chacha20Core_eq (k n : Bytes) (c : Nat) (ctr : UInt32) :
    chacha20Core (Spec.Chacha20.setup k n c) ctr =
      (Spec.Chacha20.chacha20Core (Spec.Chacha20.setup k n ctr.toNat),
        Spec.Chacha20.setup k n ctr.toNat) := by
  simp only [chacha20Core, Spec.Chacha20.setup_set, rounds_eq, sumStates, Spec.Chacha20.chacha20Core]

/-- From a keyed state the core computes the specification's block. -/
theorem cipher_refines (k n : Bytes) :
    cipher.Refines (Keyed k n) (fun ctr => Spec.Chacha20.chacha20Block k n ctr.toNat) where
  keystream := by
    rintro st ctr ⟨c, rfl⟩
    simp only [cipher, chacha20Core_eq, Spec.Chacha20.chacha20Block]
  keeps := by
    rintro st ctr ⟨c, rfl⟩
    simp only [cipher, chacha20Core_eq]
    exact ⟨ctr.toNat, rfl⟩

/-- The counter of a later block counts modulo `2 ^ 32`, as the specification's state does. -/
theorem chacha20Block_advance (k n : Bytes) (ctr : UInt32) (i : Nat) :
    Spec.Chacha20.chacha20Block k n (cipher.advance ctr i).toNat =
      Spec.Chacha20.chacha20Block k n (ctr.toNat + i) := by
  -- The state holds the counter as a 32-bit word on both sides.
  have word : UInt32.ofNat (cipher.advance ctr i).toNat = UInt32.ofNat (ctr.toNat + i) := by
    rw [UInt32.ofNat_toNat, UInt32.ofNat_add, UInt32.ofNat_toNat]
    rfl
  simp only [Spec.Chacha20.chacha20Block, Spec.Chacha20.setup, word]

variable {h : Mem} {output plain k n : Buffer} {len : UInt32} {ctr : UInt32}

/-- Setting up reads the key and the nonce. -/
theorem init_run (live : h.Live k) (live' : h.Live n) (size : k.length = 32) (size' : n.length = 12) :
    ∃ st, Keyed (h.read k) (h.read n) st ∧ init k n h = some (st, h) := by
  have key := Mem.read_length live
  have nonce := Mem.read_length live'
  refine ⟨Spec.Chacha20.setup (h.read k) (h.read n) 0, ⟨0, rfl⟩, ?_⟩
  rw [init, setup, Stack.bind_run (uint32sFromLeBytes_run live (by omega)),
    Stack.bind_run (uint32sFromLeBytes_run live' (by omega)),
    List.take_of_length_le (by omega), List.take_of_length_le (by omega), Stack.pure_run]
  rfl

/-- Encryption writes the message combined with the specification's keystream. -/
theorem chacha20_run (views : SameOrDisjoint output plain) (live : h.Live output)
    (live' : h.Live plain) (liveKey : h.Live k) (liveNonce : h.Live n)
    (size : k.length = 32) (size' : n.length = 12)
    (fits : len.toNat ≤ output.length) (fits' : len.toNat ≤ plain.length) :
    chacha20 output plain len k n ctr h = some ((), h.write output
      (Spec.Chacha20.chacha20EncryptBytes (h.read k) (h.read n) ctr.toNat
        ((h.read plain).take len.toNat))) := by
  obtain ⟨st, keyed, ran⟩ := init_run liveKey liveNonce size size'
  -- Block `i` of the implementation is the specification's block of counter `ctr + i`.
  have stream : keystream (fun i => Spec.Chacha20.chacha20Block (h.read k) (h.read n)
      (cipher.advance ctr i).toNat) 64 0 =
        keystream (Spec.Chacha20.chacha20Block (h.read k) (h.read n)) 64 ctr.toNat := by
    funext i
    simp only [keystream, chacha20Block_advance, Nat.zero_add]
  rw [chacha20, Stack.bind_run ran, chacha20CounterMode,
    StreamCipher.counterMode_run (cipher_refines _ _) keyed views live live' fits fits', stream,
    Spec.Chacha20.chacha20EncryptBytes_keystream]

/-- The key block is the specification's block. -/
theorem chacha20KeyBlock_run (live : h.Live output) (liveKey : h.Live k) (liveNonce : h.Live n)
    (size : k.length = 32) (size' : n.length = 12) (fits : 64 ≤ output.length) :
    chacha20KeyBlock output k n ctr h = some ((), h.write output
      (Spec.Chacha20.chacha20Block (h.read k) (h.read n) ctr.toNat)) := by
  obtain ⟨st, keyed, ran⟩ := init_run liveKey liveNonce size size'
  obtain ⟨st', -, written⟩ :=
    StreamCipher.block_run (cipher_refines _ _) keyed ctr live fits
  rw [chacha20KeyBlock, Stack.bind_run ran, chacha20Block, Stack.bind_run written, Stack.pure_run]

end HaclStar.Impl.Chacha20
