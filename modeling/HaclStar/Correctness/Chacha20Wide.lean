import HaclStar.Spec.Chacha20Vec256
import HaclStar.Spec.Chacha20Vec2

/-! The wide ChaCha20 specifications yield successive blocks of the scalar one. -/

namespace HaclStar.Correctness.Chacha20Wide

open HaclStar.Spec Endianness

/-- A bundle is the concatenation of the blocks of its successive counters. -/
theorem wide_blocks (k n : Bytes) (c : Nat) (size : k.length = 32) :
    Chacha20Vec256.chacha20Block k n c =
        ((List.range 6).flatMap fun i => Chacha20.chacha20Block k n (c + i)) ∧
      Chacha20Vec2.chacha20Block k n c =
        ((List.range 8).flatMap fun i => Chacha20.chacha20Block k n (c + i)) :=
  ⟨Chacha20Vec256.chacha20Block_eq n c size, Chacha20Vec2.chacha20Block_eq k n c⟩

/-- The all-zero key, and the first counters. -/
theorem wide_blocks_zero :
    Chacha20Vec256.chacha20Block (List.replicate 32 0) (List.replicate 12 0) 0 =
        ((List.range 6).flatMap fun i =>
          Chacha20.chacha20Block (List.replicate 32 0) (List.replicate 12 0) (0 + i)) ∧
      Chacha20Vec2.chacha20Block (List.replicate 32 0) (List.replicate 12 0) 0 =
        ((List.range 8).flatMap fun i =>
          Chacha20.chacha20Block (List.replicate 32 0) (List.replicate 12 0) (0 + i)) :=
  wide_blocks (List.replicate 32 0) (List.replicate 12 0) 0 (List.length_replicate ..)

end HaclStar.Correctness.Chacha20Wide
