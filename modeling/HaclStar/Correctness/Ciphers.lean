import HaclStar.Correctness.SecretBox
import HaclStar.Impl.Chacha20
import HaclStar.Impl.Chacha20Vec128

/-! The stream ciphers against their specifications. -/

namespace HaclStar.Correctness.Ciphers

open Endianness Memory Correctness.SecretBox

/-- What a cipher call relies on: live views, of the sizes the types state. -/
structure CipherViews (h : Mem) (output plain k n : Buffer) (nonceSize : Nat) (len : UInt32) : Prop where
  liveOutput : h.Live output
  livePlain : h.Live plain
  liveK : h.Live k
  liveN : h.Live n
  keySize : k.length = 32
  nonceSize : n.length = nonceSize
  views : SameOrDisjoint output plain
  outputSize : output.length = len.toNat
  plainSize : plain.length = len.toNat

variable {h h' : Mem} {output plain k n output' plain' k' n' : Buffer} {len len' ctr : UInt32}
  {ctr' : UInt64}

/-- The vectorised and the scalar ChaCha20 both write what the specification encrypts. -/
theorem chacha20_vec128_agrees (args : CipherViews h output plain k n 12 len) :
    Impl.Chacha20Vec128.chacha20 output plain len k n ctr h = some ((), h.write output
      (Spec.Chacha20.chacha20EncryptBytes (h.read k) (h.read n) ctr.toNat (h.read plain))) ∧
    Impl.Chacha20Vec128.chacha20 output plain len k n ctr h =
      Impl.Chacha20.chacha20 output plain len k n ctr h := by
  obtain ⟨live, live', liveK, liveN, keySize, nonceSize, views, outputSize, plainSize⟩ := args
  have bytes := Mem.read_length live'
  have vectorised : Impl.Chacha20Vec128.chacha20 output plain len k n ctr h = _ :=
    Impl.Chacha20Vec128.chacha20_run views live live' liveK liveN keySize nonceSize outputSize.ge
      plainSize.ge
  have scalar : Impl.Chacha20.chacha20 output plain len k n ctr h = _ :=
    Impl.Chacha20.chacha20_run views live live' liveK liveN keySize nonceSize outputSize.ge plainSize.ge
  rw [scalar, vectorised, List.take_of_length_le (by omega)]
  exact ⟨rfl, rfl⟩

theorem chacha20_vec128_agrees_zero :
    Impl.Chacha20Vec128.chacha20 (whole 0 65) (whole 1 65) 65 (whole 2 32) (whole 3 12) 0xfffffffe
        (zeroMem [65, 65, 32, 12]) =
      some ((), (zeroMem [65, 65, 32, 12]).write (whole 0 65) (Spec.Chacha20.chacha20EncryptBytes
        ((zeroMem [65, 65, 32, 12]).read (whole 2 32)) ((zeroMem [65, 65, 32, 12]).read (whole 3 12))
        (0xfffffffe : UInt32).toNat ((zeroMem [65, 65, 32, 12]).read (whole 1 65)))) ∧
    Impl.Chacha20Vec128.chacha20 (whole 0 65) (whole 1 65) 65 (whole 2 32) (whole 3 12) 0xfffffffe
        (zeroMem [65, 65, 32, 12]) =
      Impl.Chacha20.chacha20 (whole 0 65) (whole 1 65) 65 (whole 2 32) (whole 3 12) 0xfffffffe
        (zeroMem [65, 65, 32, 12]) :=
  chacha20_vec128_agrees (by constructor <;> decide)

/-- ChaCha20 with its 32-bit counter and Salsa20 with its 64-bit counter, which it keeps in two state
words, write what their specifications encrypt. -/
theorem ciphers_correct (args : CipherViews h output plain k n 12 len)
    (args' : CipherViews h' output' plain' k' n' 8 len') :
    Impl.Chacha20.chacha20 output plain len k n ctr h = some ((), h.write output
      (Spec.Chacha20.chacha20EncryptBytes (h.read k) (h.read n) ctr.toNat (h.read plain))) ∧
    Impl.Salsa20.salsa20 output' plain' len' k' n' ctr' h' = some ((), h'.write output'
      (Spec.Salsa20.salsa20EncryptBytes (h'.read k') (h'.read n') ctr'.toNat (h'.read plain'))) := by
  constructor
  · obtain ⟨live, live', liveK, liveN, keySize, nonceSize, views, outputSize, plainSize⟩ := args
    have bytes := Mem.read_length live'
    rw [Impl.Chacha20.chacha20_run views live live' liveK liveN keySize nonceSize outputSize.ge
      plainSize.ge, List.take_of_length_le (by omega)]
  · obtain ⟨live, live', liveK, liveN, keySize, nonceSize, views, outputSize, plainSize⟩ := args'
    have bytes := Mem.read_length live'
    rw [Impl.Salsa20.salsa20_run views live live' liveK liveN keySize nonceSize outputSize.ge
      plainSize.ge, List.take_of_length_le (by omega), Spec.Salsa20.salsa20EncryptBytes_keystream]

/-- The Salsa20 counter starts just below `2 ^ 32`, and its low word wraps around in the message. -/
theorem ciphers_correct_zero :
    Impl.Chacha20.chacha20 (whole 0 65) (whole 1 65) 65 (whole 2 32) (whole 3 12) 1
        (zeroMem [65, 65, 32, 12, 8]) =
      some ((), (zeroMem [65, 65, 32, 12, 8]).write (whole 0 65) (Spec.Chacha20.chacha20EncryptBytes
        ((zeroMem [65, 65, 32, 12, 8]).read (whole 2 32))
        ((zeroMem [65, 65, 32, 12, 8]).read (whole 3 12)) (1 : UInt32).toNat
        ((zeroMem [65, 65, 32, 12, 8]).read (whole 1 65)))) ∧
    Impl.Salsa20.salsa20 (whole 0 65) (whole 1 65) 65 (whole 2 32) (whole 4 8) 0xffffffff
        (zeroMem [65, 65, 32, 12, 8]) =
      some ((), (zeroMem [65, 65, 32, 12, 8]).write (whole 0 65) (Spec.Salsa20.salsa20EncryptBytes
        ((zeroMem [65, 65, 32, 12, 8]).read (whole 2 32))
        ((zeroMem [65, 65, 32, 12, 8]).read (whole 4 8)) (0xffffffff : UInt64).toNat
        ((zeroMem [65, 65, 32, 12, 8]).read (whole 1 65)))) :=
  ciphers_correct (by constructor <;> decide) (by constructor <;> decide)

end HaclStar.Correctness.Ciphers
