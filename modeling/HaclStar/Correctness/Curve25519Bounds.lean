import HaclStar.Impl.AddAndDoubleChecked
import HaclStar.Impl.Curve25519

/-! The bounds on limbs are closed under the step of the Curve25519 ladder: no number of steps overflows a word or
goes below zero. -/

namespace HaclStar.Correctness.Curve25519Bounds

open HaclStar.Impl.AddAndDouble HaclStar.Impl.Curve25519
open HaclStar.Impl.Bignum25519 (p513 seval)
open HaclStar.Impl.FiveLimbs (Below)

/-- One step of the ladder between two swaps, with checks. -/
def cmultSmallLoopStepChecked (b : PointBuf) (q : Point) (byt : UInt8) : Option PointBuf := do
  let b := { b with nq := cmultSmallLoopStep1 b.nq.1 b.nq.2 byt }
  let nq2 ← fmontyChecked b.nq.1 b.nq.2 q.x
  let b : PointBuf := ⟨(spent b.nq.1, spent b.nq.2), nq2⟩
  return { b with nq2 := cmultSmallLoopStep1 b.nq2.1 b.nq2.2 byt }

/-- Steps for the highest bits of some bytes, from one pair of buffers to the other and back. -/
def steps (q : Point) (b : PointBuf) (bytes : List UInt8) : PointBuf :=
  bytes.foldl (fun b byt => (cmultSmallLoopStep b q byt).swap) b

/-- The steps when every call and every operation on words is checked. -/
def stepsChecked (q : Point) (b : PointBuf) (bytes : List UInt8) : Option PointBuf :=
  bytes.foldlM (fun b byt => PointBuf.swap <$> cmultSmallLoopStepChecked b q byt) b

/-- The steps of the specification. -/
def stepsSpec (init : Int) (s : Spec.Curve25519.ProjPoint × Spec.Curve25519.ProjPoint) (bytes : List UInt8) :
    Spec.Curve25519.ProjPoint × Spec.Curve25519.ProjPoint :=
  bytes.foldl (fun s byt => Spec.Curve25519.ladderStep init (byt.toNat / 128) s) s

variable {b : PointBuf} {q : Point}

/-- A swap keeps the bounds. -/
theorem red513s_step1 (red : Red513s b.nq) (byt : UInt8) : Red513s (cmultSmallLoopStep1 b.nq.1 b.nq.2 byt) := by
  by_cases set : byt.toNat / 128 = 1
  · rw [cmultSmallLoopStep1, lastBit_eq, if_pos set, swapConditional_one]
    exact ⟨red.2, red.1⟩
  · rw [cmultSmallLoopStep1, lastBit_eq, if_neg set, swapConditional_zero]
    exact red

theorem cmultSmallLoopStepChecked_eq (red : Red513s b.nq) (below : Below p513 q.x) (byt : UInt8) :
    cmultSmallLoopStepChecked b q byt = some (cmultSmallLoopStep b q byt) := by
  obtain ⟨red1, red2⟩ := red513s_step1 red byt
  have step := fmontyChecked_eq red1 red2 below
  rw [cmultSmallLoopStepChecked]
  simp only [step, Option.bind_eq_bind, Option.bind_some, Option.pure_def, cmultSmallLoopStep, cmultSmallLoopStep2]

/-- The step passes its checks, keeps the bounds and is that of the specification, and so does every run of steps. -/
theorem ladder_bounds :
    (∀ (p pq : Point) (qx : Impl.FiveLimbs.Felem 64), Red513 p → Red513 pq → Below p513 qx →
      fmontyChecked p pq qx = some (fmonty p pq qx) ∧
        Red513 (fmonty p pq qx).1 ∧ Red513 (fmonty p pq qx).2 ∧
        (asPoint (fmonty p pq qx).1, asPoint (fmonty p pq qx).2) =
          Spec.Curve25519.addAndDouble (seval qx) (asPoint p) (asPoint pq)) ∧
    ∀ (b : PointBuf) (q : Point) (bytes : List UInt8), Red513s b.nq → Below p513 q.x →
      stepsChecked q b bytes = some (steps q b bytes) ∧ Red513s (steps q b bytes).nq ∧
        asPoints (steps q b bytes).nq = stepsSpec (seval q.x) (asPoints b.nq) bytes := by
  refine ⟨fun p pq qx red red' below => ⟨fmontyChecked_eq red red' below, fmonty_spec red red' below⟩,
    fun b q bytes red below => ?_⟩
  -- Induction on the bits; a step needs no more of its inputs than the step before it leaves.
  induction bytes generalizing b with
  | nil => exact ⟨rfl, red, rfl⟩
  | cons byt bytes ih =>
    obtain ⟨red', value⟩ := cmultSmallLoopStep_spec red below byt
    obtain ⟨checked, red'', value'⟩ := ih (cmultSmallLoopStep b q byt).swap red'
    refine ⟨?_, red'', ?_⟩
    · rw [stepsChecked, List.foldlM_cons, cmultSmallLoopStepChecked_eq red below byt]
      exact checked
    · rw [stepsSpec, List.foldl_cons, ← value]
      exact value'

/-- A point whose limbs all have the largest value that the bound allows. -/
def largest : Point :=
  let a := Impl.FiveLimbs.upd5 0x8000000001fff 0x8000000001fff 0x8000000001fff 0x8000000001fff 0x8000000001fff
  ⟨a, a⟩

theorem ladder_bounds_largest :
    fmontyChecked largest largest largest.x = some (fmonty largest largest largest.x) ∧
      stepsChecked largest ⟨(largest, largest), (largest, largest)⟩ [0, 128] =
        some (steps largest ⟨(largest, largest), (largest, largest)⟩ [0, 128]) := by
  have below : Below p513 largest.x := Impl.FiveLimbs.below_upd5.mpr (by decide)
  have red : Red513 largest := ⟨below, below⟩
  exact ⟨(ladder_bounds.1 largest largest largest.x red red below).1,
    (ladder_bounds.2 ⟨(largest, largest), (largest, largest)⟩ largest [0, 128] ⟨red, red⟩ below).1⟩

end HaclStar.Correctness.Curve25519Bounds
