import HaclStar.Spec.Lib

/-! The ChaCha20 specification. -/

namespace HaclStar.Spec.Chacha20

open Endianness Keystream

/-- The sixteen words of a cipher state. -/
abbrev State := Vector UInt32 16

/-- Add one word to another, and rotate the exclusive or of the sum with a third. -/
def line (a b d : Fin 16) (s : UInt32) (m : State) : State :=
  let m := m.set a (m[a] + m[b])
  m.set d (rotateLeft (m[d] ^^^ m[a]) s)

/-- Four lines on four words. -/
def quarterRound (a b c d : Fin 16) (m : State) : State :=
  let m := line a b d 16 m
  let m := line c d b 12 m
  let m := line a b d 8 m
  line c d b 7 m

/-- Quarter rounds on the columns. -/
def columnRound (m : State) : State :=
  let m := quarterRound 0 4 8 12 m
  let m := quarterRound 1 5 9 13 m
  let m := quarterRound 2 6 10 14 m
  quarterRound 3 7 11 15 m

/-- Quarter rounds on the diagonals. -/
def diagonalRound (m : State) : State :=
  let m := quarterRound 0 5 10 15 m
  let m := quarterRound 1 6 11 12 m
  let m := quarterRound 2 7 8 13 m
  quarterRound 3 4 9 14 m

/-- Two rounds. -/
def doubleRound (m : State) : State := diagonalRound (columnRound m)

/-- Twenty rounds. -/
def rounds (m : State) : State := doubleRound^[10] m

/-- The rounds, with the initial state added. -/
def chacha20Core (s : State) : State := Vector.zipWith (· + ·) (rounds s) s

def c0 : UInt32 := 0x61707865
def c1 : UInt32 := 0x3320646e
def c2 : UInt32 := 0x79622d32
def c3 : UInt32 := 0x6b206574

/-- The initial state for a key, a nonce and a counter. -/
def setup (k n : Bytes) (c : Nat) : State :=
  #v[c0, c1, c2, c3] ++ uint32sFromLe 8 k ++ #v[UInt32.ofNat c] ++ uint32sFromLe 3 n

/-- The keystream block of a counter. -/
def chacha20Block (k n : Bytes) (c : Nat) : Bytes := uint32sToLe 16 (chacha20Core (setup k n c))

def chacha20Ctx : BlockCipherCtx where
  keylen := 32
  blocklen := 64
  noncelen := 12
  counterbits := 32
  incr := 1

/-- Encryption in counter mode. -/
def chacha20EncryptBytes (key nonce : Bytes) (counter : Nat) (m : Bytes) : Bytes :=
  counterMode chacha20Ctx chacha20Block key nonce counter m

/-- Overwriting the word between two parts of a state replaces that word. -/
theorem set_middle {α : Type} (left : Vector α 12) (right : Vector α 3) (x y : α) :
    (left ++ #v[x] ++ right).set 12 y = left ++ #v[y] ++ right := by
  apply Vector.ext
  intro i inside
  rw [Vector.getElem_set]
  by_cases here : 12 = i
  · -- Position twelve is the first one after the left part.
    subst here
    rw [if_pos rfl, Vector.getElem_append_left (by omega), Vector.getElem_append_right (by omega)]
    · rfl
    · omega
  · rw [if_neg here, Vector.getElem_append, Vector.getElem_append]
    split
    · rw [Vector.getElem_append, Vector.getElem_append]
      split
      · rfl
      · omega
    · rfl

/-- Word twelve holds the counter. -/
theorem setup_counter (k n : Bytes) (c : Nat) : (setup k n c)[12] = UInt32.ofNat c := by
  have middle : ∀ (left : Vector UInt32 12) (right : Vector UInt32 3) (x : UInt32),
      (left ++ #v[x] ++ right)[12] = x := by
    intro left right x
    rw [Vector.getElem_append_left (by omega), Vector.getElem_append_right (by omega)]
    · rfl
    · omega
  exact middle (#v[c0, c1, c2, c3] ++ uint32sFromLe 8 k) (uint32sFromLe 3 n) (UInt32.ofNat c)

/-- Overwriting the counter word gives the state of the new counter. -/
theorem setup_set (k n : Bytes) (c : Nat) (ctr : UInt32) :
    (setup k n c).set 12 ctr = setup k n ctr.toNat := by
  -- Word twelve is the only one that depends on the counter.
  simp only [setup, UInt32.ofNat_toNat]
  exact set_middle (#v[c0, c1, c2, c3] ++
    uint32sFromLe 8 k) (uint32sFromLe 3 n) (UInt32.ofNat c) ctr

@[simp] theorem chacha20Block_length (k n : Bytes) (c : Nat) : (chacha20Block k n c).length = 64 :=
  uint32sToLe_length 16 _

/-- Encryption is the exclusive or with the keystream of successive blocks. -/
theorem chacha20EncryptBytes_keystream (key nonce : Bytes) (counter : Nat) (m : Bytes) :
    chacha20EncryptBytes key nonce counter m =
      xorStream (keystream (chacha20Block key nonce) 64 counter) m :=
  counterMode_keystream rfl (by decide) (chacha20Block_length key nonce) counter m

@[simp] theorem chacha20EncryptBytes_length (key nonce : Bytes) (counter : Nat) (m : Bytes) :
    (chacha20EncryptBytes key nonce counter m).length = m.length := by
  rw [chacha20EncryptBytes_keystream, xorStream_length]

/-- Encrypting twice restores the message. -/
theorem chacha20EncryptBytes_involutive (key nonce : Bytes) (counter : Nat) (m : Bytes) :
    chacha20EncryptBytes key nonce counter (chacha20EncryptBytes key nonce counter m) = m := by
  rw [chacha20EncryptBytes_keystream, chacha20EncryptBytes_keystream, xorStream_involutive]

end HaclStar.Spec.Chacha20
