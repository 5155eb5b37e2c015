import HaclStar.Impl.Curve25519

/-! The Curve25519 implementation computes the function of the specification. -/

namespace HaclStar.Correctness.Curve25519

open Endianness
open HaclStar.Impl.Curve25519

/-- The multiple that the implementation writes is the specification's, for every secret and every string that
stands for a point. -/
theorem cryptoScalarmult_eq (secret : Bytes) {u : Bytes} (size : u.length = 32) :
    cryptoScalarmult secret u = Spec.Curve25519.scalarmult secret u := by
  obtain ⟨red, x, unit⟩ := pointOfScalar_spec size
  obtain ⟨red', value⟩ := cmult_spec (formatSecret secret) red unit
  rw [cryptoScalarmult, scalarOfPoint_spec red', value, x, formatSecret_eq, Spec.Curve25519.scalarmult]

theorem cryptoScalarmult_eq_nine :
    cryptoScalarmult (List.replicate 32 1) (9 :: List.replicate 31 0) =
      Spec.Curve25519.scalarmult (List.replicate 32 1) (9 :: List.replicate 31 0) :=
  cryptoScalarmult_eq (List.replicate 32 1) (by decide)

end HaclStar.Correctness.Curve25519
