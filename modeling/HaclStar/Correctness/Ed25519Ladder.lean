import HaclStar.Impl.Ed25519Ladder
import HaclStar.Correctness.Ed25519Group

/-! Multiplication by a scalar: the ladder of the specification adds a point to itself as often as the scalar
says, and the ladder of the implementation, which swaps its points, holds the same accumulators. -/

namespace HaclStar.Correctness.Ed25519Ladder

open Endianness
open HaclStar.Impl.Ed25519 (Point asPoint PointInv pointMul_ makePointInf LadderBuffer)
open HaclStar.Impl.Bignum25519 (Holds holds_seval seval_eq_of_holds p513 seval zero one)
open HaclStar.Spec.Ed25519

/-- A point added to itself a number of times, starting from the neutral point. -/
def multiple (p : ExtPoint) : Nat → ExtPoint
  | 0 => ⟨0, 1, 1, 0⟩
  | n + 1 => pointAdd (multiple p n) p

variable {p q : ExtPoint} {a b : Edwards.Point curve}

theorem multiple_denotes (denotes : Denotes p a) (n : Nat) : Denotes (multiple p n) (n • a) := by
  induction n with
  | zero =>
    rw [zero_nsmul]
    exact denotes_zero
  | succ n ih =>
    rw [succ_nsmul]
    exact ih.add denotes

/-- The coordinates are residues of the modulus. -/
def Reduced (q : ExtPoint) : Prop :=
  Spec.Curve25519.Reduced q.x ∧ Spec.Curve25519.Reduced q.y ∧ Spec.Curve25519.Reduced q.z ∧ Spec.Curve25519.Reduced q.t

/-- All limbs of a point are within the bound of products. -/
def Red513 (p : Point) : Prop :=
  Impl.FiveLimbs.Below p513 p.x ∧ Impl.FiveLimbs.Below p513 p.y ∧ Impl.FiveLimbs.Below p513 p.z ∧
    Impl.FiveLimbs.Below p513 p.t

theorem pointInv_asPoint {p : Point} (red : Red513 p) : PointInv p (asPoint p) :=
  ⟨holds_seval red.1, holds_seval red.2.1, holds_seval red.2.2.1, holds_seval red.2.2.2⟩

/-- The limbs stand for the very point of the specification when its coordinates are residues. -/
theorem asPoint_eq {p : Point} {q : ExtPoint} (inv : PointInv p q) (reduced : Reduced q) : asPoint p = q := by
  obtain ⟨x, y, z, t⟩ := reduced
  rw [asPoint, seval_eq_of_holds inv.x x, seval_eq_of_holds inv.y y, seval_eq_of_holds inv.z z,
    seval_eq_of_holds inv.t t]

theorem red513_of_inv {p : Point} {q : ExtPoint} (inv : PointInv p q) : Red513 p :=
  ⟨inv.x.below, inv.y.below, inv.z.below, inv.t.below⟩

theorem reduced_asPoint (p : Point) : Reduced (asPoint p) :=
  ⟨Spec.Curve25519.reduced_mod _, Spec.Curve25519.reduced_mod _, Spec.Curve25519.reduced_mod _,
    Spec.Curve25519.reduced_mod _⟩

theorem reduced_pointAdd (p q : ExtPoint) : Reduced (pointAdd p q) :=
  ⟨Spec.Curve25519.reduced_fmul _ _, Spec.Curve25519.reduced_fmul _ _, Spec.Curve25519.reduced_fmul _ _,
    Spec.Curve25519.reduced_fmul _ _⟩

theorem reduced_pointDouble (p : ExtPoint) : Reduced (pointDouble p) :=
  ⟨Spec.Curve25519.reduced_fmul _ _, Spec.Curve25519.reduced_fmul _ _, Spec.Curve25519.reduced_fmul _ _,
    Spec.Curve25519.reduced_fmul _ _⟩

/-- The accumulators of the specification have residues for coordinates. -/
theorem reduced_ladder (k : Bytes) (reduced : Reduced p) (reduced' : Reduced q) (ctr : Nat) :
    Reduced (montgomeryLadder_ p q k ctr).1 ∧ Reduced (montgomeryLadder_ p q k ctr).2 := by
  induction ctr with
  | zero => exact ⟨reduced, reduced'⟩
  | succ ctr ih =>
    rw [montgomeryLadder_]
    by_cases bit : ithBit k (8 * k.length - (ctr + 1)) = 1
    · simp only [bit, if_true]
      exact ⟨reduced_pointAdd _ _, reduced_pointDouble _⟩
    · simp only [bit, if_false]
      exact ⟨reduced_pointDouble _, reduced_pointAdd _ _⟩

/-- The neutral point of the implementation. -/
theorem makePointInf_inv : PointInv makePointInf ⟨0, 1, 1, 0⟩ := by
  have zero : Holds p513 zero ((0 : Int) : ZMod Spec.Curve25519.modulus) :=
    ⟨by intro i; fin_cases i <;> decide, by
      rw [Int.cast_zero]
      exact (congrArg Nat.cast (by decide : Impl.Bignum25519.field.seval zero = 0)).trans Nat.cast_zero⟩
  have one : Holds p513 one ((1 : Int) : ZMod Spec.Curve25519.modulus) :=
    ⟨by intro i; fin_cases i <;> decide, by
      rw [Int.cast_one]
      exact (congrArg Nat.cast (by decide : Impl.Bignum25519.field.seval one = 1)).trans Nat.cast_one⟩
  exact ⟨zero, one, one, zero⟩

/-- The buffer of the ladder before its first turn. -/
def initialBuffer (q : Point) : LadderBuffer :=
  ⟨makePointInf, q, ⟨zero, zero, zero, zero⟩, ⟨zero, zero, zero, zero⟩⟩

/-- Multiplication by any scalar adds the point to itself; the two accumulators differ by the point after
every step; and the implementation with its swaps holds the accumulators of the specification. -/
theorem pointMul_multiple (k : Bytes) (size : k.length = 32) :
    (∀ p, OnCurve p → OnCurve (pointMul k p) ∧ pointEqual (pointMul k p) (multiple p (littleEndian k)) = true ∧
      ∀ ctr ≤ 256, OnCurve (montgomeryLadder_ ⟨0, 1, 1, 0⟩ p k ctr).1 ∧
        OnCurve (montgomeryLadder_ ⟨0, 1, 1, 0⟩ p k ctr).2 ∧
        pointEqual (montgomeryLadder_ ⟨0, 1, 1, 0⟩ p k ctr).2
          (pointAdd (montgomeryLadder_ ⟨0, 1, 1, 0⟩ p k ctr).1 p) = true) ∧
    ∀ q, Red513 q → Red513 (Impl.Ed25519.pointMul k q) ∧
      asPoint (Impl.Ed25519.pointMul k q) = pointMul k (asPoint q) ∧
      ∀ ctr ≤ 256, (asPoint (pointMul_ (initialBuffer q) k ctr).nq, asPoint (pointMul_ (initialBuffer q) k ctr).nqpq) =
        montgomeryLadder_ ⟨0, 1, 1, 0⟩ (asPoint q) k ctr := by
  constructor
  · intro p onP
    obtain ⟨a, denotes⟩ := (onCurve_iff p).mp onP
    have product := pointMul_denotes k denotes
    refine ⟨(onCurve_iff _).mpr ⟨_, product⟩, ?_, fun ctr within => ?_⟩
    · rw [product.pointEqual_iff (multiple_denotes denotes _)]
    · have steps : ctr ≤ 8 * k.length := by omega
      obtain ⟨low, high⟩ := ladder_denotes k denotes steps
      refine ⟨(onCurve_iff _).mpr ⟨_, low⟩, (onCurve_iff _).mpr ⟨_, high⟩, ?_⟩
      rw [high.pointEqual_iff (low.add denotes), succ_nsmul]
  · intro q red
    have neutral : Reduced ⟨0, 1, 1, 0⟩ := by
      refine ⟨?_, ?_, ?_, ?_⟩ <;> constructor <;> decide
    have second : PointInv (initialBuffer q).nqpq (asPoint q) := pointInv_asPoint red
    have turns (ctr : Nat) (within : ctr ≤ 256) :=
      Impl.Ed25519.pointMul_inv (b := initialBuffer q) size makePointInf_inv second within
    have reduced (ctr : Nat) := reduced_ladder k neutral (reduced_asPoint q) ctr
    have last := (turns 256 le_rfl).1
    have result : Impl.Ed25519.pointMul k q = (pointMul_ (initialBuffer q) k 256).nq := rfl
    have spec : pointMul k (asPoint q) = (montgomeryLadder_ ⟨0, 1, 1, 0⟩ (asPoint q) k 256).1 := by
      rw [pointMul, size]
    rw [result, spec]
    refine ⟨red513_of_inv last, asPoint_eq last (reduced 256).1, fun ctr within => ?_⟩
    rw [asPoint_eq (turns ctr within).1 (reduced ctr).1, asPoint_eq (turns ctr within).2 (reduced ctr).2]

/-- The scalar three, with its leading zero bits. -/
theorem pointMul_multiple_three :
    pointEqual (pointMul (3 :: List.replicate 31 0) ⟨0, -1, 1, 0⟩)
      (multiple ⟨0, -1, 1, 0⟩ (littleEndian (3 :: List.replicate 31 0))) = true := by
  have order2 : OnCurve ⟨0, -1, 1, 0⟩ := by
    refine ⟨?_, ?_, ?_⟩ <;> decide
  exact ((pointMul_multiple (3 :: List.replicate 31 0) (by decide)).1 ⟨0, -1, 1, 0⟩ order2).2.1

end HaclStar.Correctness.Ed25519Ladder
