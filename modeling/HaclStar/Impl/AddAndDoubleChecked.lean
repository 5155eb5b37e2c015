import HaclStar.Impl.AddAndDouble
import HaclStar.Impl.Bignum25519Checked

/-! The step of the Curve25519 ladder with checks: of the bounds that each operation requires, and of every sum,
difference and product of words. -/

namespace HaclStar.Impl.AddAndDouble

open Bignum25519
open FiveLimbs (Below Modulo fsum)

/-- Multiply by a small number, with checks; the products of limbs always fit a double word. -/
def fscalarChecked (b : Felem) (s : Limb) : Option Felem := do
  guard (Below p5413 b)
  let tmp := fscalarWide b s
  field.narrowWideChecked tmp

/-- Add limb by limb, with checks for a first element that is a multiple. -/
def fsumChecked' (a b : Felem) : Option Felem := do
  guard (Below p52 a ∧ Below p52 b)
  FiveLimbs.fsumChecked a b

/-- Square once, with checks. -/
def fsquareTimesChecked (input : Felem) : Option Felem := fsquareChecked input

/-- The first part of the step, with checks. -/
def fmonty1Checked (x z xprime zprime : Felem) : Option Monty1 := do
  let origx := x
  let x ← fsumChecked x z
  let z ← fdifferenceChecked z origx
  let origxprime := xprime
  let xprime ← fsumChecked xprime zprime
  let zprime ← fdifferenceChecked zprime origxprime
  let xxprime ← fmulChecked xprime z
  let zzprime ← fmulChecked x zprime
  return ⟨x, z, xxprime, zzprime⟩

/-- The second part of the step, with checks. -/
def fmonty2Checked (m : Monty1) (qx : Felem) : Option Monty2 := do
  let origxprime := m.xxprime
  let xxprime ← fsumChecked m.xxprime m.zzprime
  let zzprime ← fdifferenceChecked m.zzprime origxprime
  let x3 ← fsquareTimesChecked xxprime
  let zzzprime ← fsquareTimesChecked zzprime
  let z3 ← fmulChecked zzzprime qx
  let xx ← fsquareTimesChecked m.x
  let zz ← fsquareTimesChecked m.z
  return ⟨x3, z3, xx, zz⟩

/-- The last part of the step, with checks. -/
def fmonty3Checked (m : Monty2) : Option Point := do
  let x2 ← fmulChecked m.xx m.zz
  let zz ← fdifferenceChecked m.zz m.xx
  let zzz ← fscalarChecked zz a24
  let zzz ← fsumChecked' zzz m.xx
  let z2 ← fmulChecked zzz zz
  return ⟨x2, z2⟩

/-- The step, with checks. -/
def fmontyChecked (p pq : Point) (qx : Felem) : Option (Point × Point) := do
  let m1 ← fmonty1Checked p.x p.z pq.x pq.z
  let m2 ← fmonty2Checked m1 qx
  let p2 ← fmonty3Checked m2
  return (p2, ⟨m2.x3, m2.z3⟩)

variable {a b : Felem}

theorem fscalarChecked_eq (below : Below p5413 a) : fscalarChecked a a24 = some (fscalar a a24) := by
  have wide := fscalarWide_below below
  have narrowed := Modulo.narrowWideChecked_eq (m := field) (wide.mono (by decide)) (wide 4).le (by decide)
  have result : fscalar a a24 = FiveLimbs.copyFromWide (field.carryTopWide (field.carryWide (fscalarWide a a24))) := rfl
  rw [fscalarChecked, guard_eq below, Option.bind_eq_bind, Option.bind_some, narrowed, result]

theorem fsumChecked'_eq (first : Below p52 a) (second : Below p52 b) : fsumChecked' a b = some (fsum a b) := by
  rw [fsumChecked', guard_eq ⟨first, second⟩]
  exact FiveLimbs.fsumChecked_eq first second (by decide)

theorem fsquareTimesChecked_eq (below : Below p5413 a) : fsquareTimesChecked a = some (fsquareTimes a 1) :=
  fsquareChecked_eq below

theorem fmonty1Checked_eq {x z xprime zprime : Felem} (px : Below p513 x) (pz : Below p513 z)
    (pqx : Below p513 xprime) (pqz : Below p513 zprime) :
    fmonty1Checked x z xprime zprime = some (fmonty1 x z xprime zprime) := by
  have sum := fsum_holds (holds_seval px) (holds_seval pz)
  have difference := fdifference_holds (holds_seval pz) (holds_seval px)
  have sum' := fsum_holds (holds_seval pqx) (holds_seval pqz)
  have difference' := fdifference_holds (holds_seval pqz) (holds_seval pqx)
  rw [fmonty1Checked]
  simp only [fsumChecked_eq px pz, fdifferenceChecked_eq pz px, fsumChecked_eq pqx pqz, fdifferenceChecked_eq pqz pqx,
    fmulChecked_eq sum'.below difference.below, fmulChecked_eq sum.below difference'.below, Option.bind_eq_bind,
    Option.bind_some, Option.pure_def]
  rfl

theorem fmonty2Checked_eq {m : Monty1} {qx : Felem} {s d c c' : ZMod Spec.Curve25519.modulus}
    (holds : m.Holds s d c c') (below : Below p513 qx) : fmonty2Checked m qx = some (fmonty2 m qx) := by
  have sum := fsum_holds holds.xxprime holds.zzprime
  have difference := fdifference_holds holds.zzprime holds.xxprime
  have square := square_holds difference
  have step1 := fsumChecked_eq holds.xxprime.below holds.zzprime.below
  have step2 := fdifferenceChecked_eq holds.zzprime.below holds.xxprime.below
  have step3 := fsquareTimesChecked_eq (sum.below.mono (by decide))
  have step4 := fsquareTimesChecked_eq difference.below
  have step5 := fmulChecked_eq (square.below.mono (by decide)) (below.mono (by decide))
  have step6 := fsquareTimesChecked_eq (holds.x.below.mono (by decide))
  have step7 := fsquareTimesChecked_eq holds.z.below
  rw [fmonty2Checked]
  simp only [step1, step2, step3, step4, step5, step6, step7, Option.bind_eq_bind, Option.bind_some]
  unfold fmonty2
  simp only [Option.pure_def]

theorem fmonty3Checked_eq {m : Monty2} {x3 z3 ss dd : ZMod Spec.Curve25519.modulus} (holds : m.Holds x3 z3 ss dd) :
    fmonty3Checked m = some (fmonty3 m) := by
  have less := fdifference_holds holds.zz holds.xx
  have scaled := fscalar_holds less
  have step1 := fmulChecked_eq (holds.xx.below.mono (by decide)) (holds.zz.below.mono (by decide))
  have step2 := fdifferenceChecked_eq holds.zz.below holds.xx.below
  have step3 := fscalarChecked_eq less.below
  have step4 := fsumChecked'_eq scaled.below (holds.xx.below.mono (by decide))
  have step5 := fmulChecked_eq (fsum_holds' scaled holds.xx).below less.below
  rw [fmonty3Checked]
  simp only [step1, step2, step3, step4, step5, Option.bind_eq_bind, Option.bind_some]
  unfold fmonty3
  simp only [Option.pure_def]

/-- Within the bound of products, no operation of the step fails. -/
theorem fmontyChecked_eq {p pq : Point} {qx : Felem} (red : Red513 p) (red' : Red513 pq) (below : Below p513 qx) :
    fmontyChecked p pq qx = some (fmonty p pq qx) := by
  have first := fmonty1_holds (holds_seval red.x) (holds_seval red.z) (holds_seval red'.x) (holds_seval red'.z)
  have second := fmonty2_holds first (holds_seval below)
  have step1 := fmonty1Checked_eq red.x red.z red'.x red'.z
  have step2 := fmonty2Checked_eq first below
  have step3 := fmonty3Checked_eq second
  rw [fmontyChecked]
  simp only [step1, step2, step3, Option.bind_eq_bind, Option.bind_some]
  unfold fmonty
  simp only [Option.pure_def]

end HaclStar.Impl.AddAndDouble
