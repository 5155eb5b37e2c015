import HaclStar.Spec.Lib

/-! The Salsa20 and HSalsa20 specifications. -/

namespace HaclStar.Spec

namespace Salsa20

open Endianness Keystream

/-- The sixteen words of a cipher state. -/
abbrev State := Vector UInt32 16

/-- Combine one word with the rotated sum of two others. -/
def line (a b d : Fin 16) (s : UInt32) (m : State) : State :=
  let ma := getElem m a (within a)
  let mb := getElem m b (within b)
  let md := getElem m d (within d)
  m.set a (ma ^^^ rotateLeft (mb + md) s) (within a)

/-- Four lines on four words. -/
def quarterRound (a b c d : Fin 16) (m : State) : State :=
  let m := line b a d 7 m
  let m := line c b a 9 m
  let m := line d c b 13 m
  line a d c 18 m

/-- Quarter rounds on the columns. -/
def columnRound (m : State) : State :=
  let m := quarterRound 0 4 8 12 m
  let m := quarterRound 5 9 13 1 m
  let m := quarterRound 10 14 2 6 m
  quarterRound 15 3 7 11 m

/-- Quarter rounds on the rows. -/
def rowRound (m : State) : State :=
  let m := quarterRound 0 1 2 3 m
  let m := quarterRound 5 6 7 4 m
  let m := quarterRound 10 11 8 9 m
  quarterRound 15 12 13 14 m

/-- Two rounds. -/
def doubleRound (m : State) : State := rowRound (columnRound m)

/-- Twenty rounds. -/
def rounds (m : State) : State := doubleRound^[10] m

/-- The rounds, with the initial state added. -/
def salsa20Core (s : State) : State := Vector.zipWith (· + ·) (rounds s) s

def constant0 : UInt32 := 0x61707865
def constant1 : UInt32 := 0x3320646e
def constant2 : UInt32 := 0x79622d32
def constant3 : UInt32 := 0x6b206574

/-- The initial state for a key, a nonce and a 64-bit counter. -/
def setup (k n : Bytes) (c : Nat) : State :=
  let ks := uint32sFromLe 8 k
  let ns := uint32sFromLe 2 n
  let c64 := UInt64.ofNat c
  let c0 := c64.toUInt32
  let c1 := (c64 >>> 32).toUInt32
  #v[constant0, ks[0], ks[1], ks[2],
     ks[3], constant1, ns[0], ns[1],
     c0, c1, constant2, ks[4],
     ks[5], ks[6], ks[7], constant3]

/-- The keystream block of a counter. -/
def salsa20Block (k n : Bytes) (c : Nat) : Bytes := uint32sToLe 16 (salsa20Core (setup k n c))

def salsa20Ctx : BlockCipherCtx where
  keylen := 32
  blocklen := 64
  noncelen := 8
  counterbits := 64
  incr := 1

/-- Encryption in counter mode. -/
def salsa20EncryptBytes (key nonce : Bytes) (counter : Nat) (m : Bytes) : Bytes :=
  counterMode salsa20Ctx salsa20Block key nonce counter m

@[simp] theorem salsa20Block_length (k n : Bytes) (c : Nat) : (salsa20Block k n c).length = 64 :=
  uint32sToLe_length 16 _

/-- Encryption is the exclusive or with the keystream of successive blocks. -/
theorem salsa20EncryptBytes_keystream (key nonce : Bytes) (counter : Nat) (m : Bytes) :
    salsa20EncryptBytes key nonce counter m =
      xorStream (keystream (salsa20Block key nonce) 64 counter) m :=
  counterMode_keystream rfl (by decide) (salsa20Block_length key nonce) counter m

end Salsa20

namespace HSalsa20

open Endianness

/-- The initial state for a key and a 16-byte nonce. -/
def setup (k n : Bytes) : Salsa20.State :=
  let ks := uint32sFromLe 8 k
  let ns := uint32sFromLe 4 n
  #v[Salsa20.constant0, ks[0], ks[1], ks[2],
     ks[3], Salsa20.constant1, ns.get 0, ns.get 1,
     ns.get 2, ns.get 3, Salsa20.constant2, ks[4],
     ks[5], ks[6], ks[7], Salsa20.constant3]

/-- The key derived from a key and a nonce: eight words of the state after the rounds. -/
def hsalsa20 (k n : Bytes) : Bytes :=
  let st' := Salsa20.rounds (setup k n)
  uint32sToLe 8 #v[st'[0], st'[5], st'[10], st'[15], st'[6], st'[7], st'[8], st'[9]]

@[simp] theorem hsalsa20_length (k n : Bytes) : (hsalsa20 k n).length = 32 := uint32sToLe_length 8 _

end HSalsa20

end HaclStar.Spec
