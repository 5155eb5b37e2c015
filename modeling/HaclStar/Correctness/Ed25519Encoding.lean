import HaclStar.Correctness.Ed25519Ladder
import HaclStar.Impl.Ed25519Encoding

/-! The encoding of points: which strings decompress, the round trips in both directions, and the agreement of the
limbs with the specification. -/

namespace HaclStar.Correctness.Ed25519Encoding

open Endianness
open HaclStar.Impl.Ed25519 (Point asPoint)
open HaclStar.Correctness.Ed25519Ladder (Reduced Red513 asPoint_eq red513_of_inv pointInv_asPoint)
open HaclStar.Spec.Ed25519

/-- The coordinates of a decompressed point are residues. -/
theorem reduced_decompressed {s : Bytes} {p : ExtPoint} (run : pointDecompress s = some p) : Reduced p := by
  obtain ⟨x, recovers, rfl⟩ := (pointDecompress_eq_some_iff s p).mp run
  have unit : Spec.Curve25519.Reduced 1 := by constructor <;> decide
  exact ⟨recovers.reduced, ⟨Int.natCast_nonneg _, recovers.canonical⟩, unit, Spec.Curve25519.reduced_fmul _ _⟩

/-- A string decompresses exactly when it holds a canonical second coordinate and the sign of a first one. -/
theorem isSome_iff (s : Bytes) : (pointDecompress s).isSome ↔ ∃ x, Recovers (yOf s) (signOf s) x := by
  rw [Option.isSome_iff_exists]
  constructor
  · rintro ⟨p, run⟩
    obtain ⟨x, recovers, -⟩ := (pointDecompress_eq_some_iff s p).mp run
    exact ⟨x, recovers⟩
  · rintro ⟨x, recovers⟩
    exact ⟨_, (pointDecompress_eq_some_iff s _).mpr ⟨x, recovers, rfl⟩⟩

/--
A string decompresses exactly when it holds a canonical second coordinate and the sign of a first one.

The point is then on the curve, and compresses to the string; every point of the curve compresses to a string that
decompresses to an equal point; and the implementation accepts the same strings, with the same coordinates.
-/
theorem point_encoding :
    (∀ s : Bytes, s.length = 32 →
      ((pointDecompress s).isSome ↔ ∃ x, Recovers (yOf s) (signOf s) x) ∧
      ∀ p, pointDecompress s = some p →
        Recovers (yOf s) (signOf s) p.x ∧ (p.x = 0 → signOf s = false) ∧ OnCurve p ∧ pointCompress p = s) ∧
    (∀ p, OnCurve p → ∃ q, pointDecompress (pointCompress p) = some q ∧ pointEqual q p = true) ∧
    (∀ (out : Point) (s : Bytes), s.length = 32 →
      (Impl.Ed25519.pointDecompress out s).1 = (pointDecompress s).isSome ∧
      ∀ q, pointDecompress s = some q → Red513 (Impl.Ed25519.pointDecompress out s).2 ∧
        asPoint (Impl.Ed25519.pointDecompress out s).2 = q) ∧
    ∀ p, Red513 p → Impl.Ed25519.pointCompress p = pointCompress (asPoint p) := by
  refine ⟨fun s size => ⟨isSome_iff s, fun p run => ?_⟩, fun p onCurve => ?_, fun out s size => ?_, fun p red => ?_⟩
  · obtain ⟨x, recovers, rfl⟩ := (pointDecompress_eq_some_iff s p).mp run
    obtain ⟨a, denotes, -⟩ := denotes_decompressed recovers
    refine ⟨recovers, fun none => ?_, (onCurve_iff _).mpr ⟨a, denotes⟩, pointCompress_decompressed size recovers⟩
    -- The parity of zero is the sign zero.
    have parity := recovers.parity
    rw [show x = 0 from none] at parity
    exact parity.symm
  · obtain ⟨a, denotes⟩ := (onCurve_iff p).mp onCurve
    obtain ⟨q, run, same⟩ := pointDecompress_compress denotes
    exact ⟨q, run, (same.pointEqual_iff denotes).mpr rfl⟩
  · have limbs := Impl.Ed25519.pointDecompress_spec out size
    cases run : pointDecompress s with
    | none =>
      rw [run] at limbs
      refine ⟨congrArg Prod.fst limbs, fun q some => ?_⟩
      cases some
    | some q =>
      rw [run] at limbs
      obtain ⟨p, result, inv⟩ := limbs
      rw [result]
      refine ⟨rfl, fun q' same => ?_⟩
      obtain rfl : q = q' := Option.some.inj same
      exact ⟨red513_of_inv inv, asPoint_eq inv (reduced_decompressed run)⟩
  · exact Impl.Ed25519.pointCompress_spec (pointInv_asPoint red)

/-- The neutral point comes back from its string. -/
theorem point_encoding_neutral :
    ∃ q, pointDecompress (pointCompress ⟨0, 1, 1, 0⟩) = some q ∧ pointEqual q ⟨0, 1, 1, 0⟩ = true :=
  point_encoding.2.1 ⟨0, 1, 1, 0⟩ ((onCurve_iff _).mpr ⟨0, denotes_zero⟩)

end HaclStar.Correctness.Ed25519Encoding
