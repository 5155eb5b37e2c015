import HaclStar.Impl.Bignum25519Checked
import HaclStar.Impl.Ed25519Ladder

/-! Addition and doubling of points with checks, which pass for all points within the bounds. -/

namespace HaclStar.Impl.Ed25519

open Bignum25519
open FiveLimbs (fsum Below)

/-- The products of the differences and of the sums of coordinates, with checks. -/
def pointAddStep1Checked (p q : Point) (tmp : Tmp) : Option Tmp := do
  let tmp1 ← fdifferenceReducedChecked p.x p.y
  let tmp2 ← fdifferenceChecked q.x q.y
  let tmp3 ← fmulChecked tmp1 tmp2
  let tmp1 ← fsumChecked p.y p.x
  let tmp2 ← fsumChecked q.y q.x
  let tmp4 ← fmulChecked tmp1 tmp2
  return { tmp with tmp1, tmp2, tmp3, tmp4 }

/-- The products of the last two coordinates, with checks. -/
def pointAddStep2Checked (p q : Point) (tmp : Tmp) : Option Tmp := do
  let tmp1 ← times2dChecked p.t
  let tmp2 ← fmulChecked tmp1 q.t
  let tmp1 ← times2Checked p.z
  let tmp5 ← fmulChecked tmp1 q.z
  let tmp1 := tmp.tmp3
  let tmp6 := tmp2
  return { tmp with tmp1, tmp2, tmp5, tmp6 }

/-- The four factors of the coordinates of the sum, with checks. -/
def pointAddStep3Checked (tmp : Tmp) : Option Tmp := do
  let tmp1 ← fdifferenceReducedChecked tmp.tmp1 tmp.tmp4
  let tmp6 ← fdifferenceChecked tmp.tmp6 tmp.tmp5
  let tmp5 ← fsumChecked tmp.tmp5 tmp.tmp2
  let tmp4 ← fsumChecked tmp.tmp4 tmp.tmp3
  return { tmp with tmp1, tmp4, tmp5, tmp6 }

/-- Add two points, with checks. -/
def pointAddChecked (p q : Point) : Option Point := do
  let tmp ← pointAddStep1Checked p q Tmp.create
  let tmp ← pointAddStep2Checked p q tmp
  let tmp ← pointAddStep3Checked tmp
  let x ← fmulChecked tmp.tmp1 tmp.tmp6
  let y ← fmulChecked tmp.tmp5 tmp.tmp4
  let t ← fmulChecked tmp.tmp1 tmp.tmp4
  let z ← fmulChecked tmp.tmp5 tmp.tmp6
  return { x, y, z, t }

/-- The squares of the coordinates, and the sum of the first two, with checks. -/
def pointDoubleStep1Checked (p : Point) (tmp : Tmp) : Option Tmp := do
  let tmp1 ← fsquareChecked p.x
  let tmp2 ← fsquareChecked p.y
  let tmp3 ← fsquareChecked p.z
  let tmp4 ← times2Checked tmp3
  let tmp3 := tmp1
  let tmp3 ← fsumChecked tmp3 tmp2
  let tmp3 ← reduce513Checked tmp3
  return { tmp with tmp1, tmp2, tmp3, tmp4 }

/-- The other factors of the coordinates of the double, with checks. -/
def pointDoubleStep2Checked (p : Point) (tmp : Tmp) : Option Tmp := do
  let tmp5 ← fsumChecked p.x p.y
  let tmp6 ← fsquareChecked tmp5
  let tmp5 := tmp.tmp3
  let tmp6 ← fdifferenceChecked tmp6 tmp5
  let tmp2 ← fdifferenceReducedChecked tmp.tmp2 tmp.tmp1
  let tmp4 ← reduce513Checked tmp.tmp4
  let tmp4 ← fsumChecked tmp4 tmp2
  return { tmp with tmp2, tmp4, tmp5, tmp6 }

/-- Double a point, with checks. -/
def pointDoubleChecked (p : Point) : Option Point := do
  let tmp ← pointDoubleStep1Checked p Tmp.create
  let tmp ← pointDoubleStep2Checked p tmp
  let x ← fmulChecked tmp.tmp4 tmp.tmp6
  let y ← fmulChecked tmp.tmp2 tmp.tmp3
  let t ← fmulChecked tmp.tmp3 tmp.tmp6
  let z ← fmulChecked tmp.tmp4 tmp.tmp2
  return { x, y, z, t }

variable {p p' : Point} {q q' : Spec.Ed25519.ExtPoint}

/-- The checks of an addition pass: each bound is that of the call before it. -/
theorem pointAddChecked_eq (first : PointInv p q) (second : PointInv p' q') :
    pointAddChecked p p' = some (pointAdd p p') := by
  have a1 := fdifferenceReduced_holds first.x first.y
  have a2 := fdifference_holds second.x second.y
  have a := fmul_holds (a1.mono (by decide)) (a2.mono (by decide))
  have b1 := fsum_holds first.y first.x
  have b2 := fsum_holds second.y second.x
  have b := fmul_holds b1 (b2.mono (by decide))
  have c1 := times2d_holds first.t
  have c := fmul_holds (c1.mono (by decide)) (second.t.mono (by decide))
  have d1 := times2_holds first.z
  have d := fmul_holds d1 (second.z.mono (by decide))
  have e := fdifferenceReduced_holds a b
  have f := fdifference_holds c d
  have g := fsum_holds d c
  have h := fsum_holds b a
  have step1 : pointAddStep1Checked p p' Tmp.create = some (pointAddStep1 p p' Tmp.create) := by
    simp only [pointAddStep1Checked, fdifferenceReducedChecked_eq first.x.below first.y.below,
      fdifferenceChecked_eq second.x.below second.y.below, fsumChecked_eq first.y.below first.x.below,
      fsumChecked_eq second.y.below second.x.below, Option.bind_eq_bind, Option.bind_some,
      fmulChecked_eq (a1.below.mono (by decide)) a2.below,
      fmulChecked_eq b1.below (b2.below.mono (by decide)), pointAddStep1, Option.pure_def]
  have step2 (tmp : Tmp) : pointAddStep2Checked p p' tmp = some (pointAddStep2 p p' tmp) := by
    simp only [pointAddStep2Checked, times2dChecked_eq first.t.below, times2Checked_eq first.z.below,
      Option.bind_eq_bind, Option.bind_some, fmulChecked_eq (c1.below.mono (by decide)) (second.t.below.mono (by decide)),
      fmulChecked_eq d1.below (second.z.below.mono (by decide)), pointAddStep2, Option.pure_def]
  have step3 : pointAddStep3Checked (pointAddStep2 p p' (pointAddStep1 p p' Tmp.create)) =
      some (pointAddStep3 (pointAddStep2 p p' (pointAddStep1 p p' Tmp.create))) := by
    simp only [pointAddStep3Checked, pointAddStep3, pointAddStep2, pointAddStep1, fdifferenceReducedChecked_eq a.below b.below,
      fdifferenceChecked_eq c.below d.below, fsumChecked_eq d.below c.below, fsumChecked_eq b.below a.below,
      Option.bind_eq_bind, Option.bind_some, Option.pure_def]
  have tmp1 : Below p513 (pointAddStep3 (pointAddStep2 p p' (pointAddStep1 p p' Tmp.create))).tmp1 := e.below
  have tmp6 : Below p5413 (pointAddStep3 (pointAddStep2 p p' (pointAddStep1 p p' Tmp.create))).tmp6 := f.below
  have tmp5 : Below p53 (pointAddStep3 (pointAddStep2 p p' (pointAddStep1 p p' Tmp.create))).tmp5 := g.below
  have tmp4 : Below p53 (pointAddStep3 (pointAddStep2 p p' (pointAddStep1 p p' Tmp.create))).tmp4 := h.below
  have result : pointAdd p p' =
      let tmp := pointAddStep3 (pointAddStep2 p p' (pointAddStep1 p p' Tmp.create))
      ⟨fmul tmp.tmp1 tmp.tmp6, fmul tmp.tmp5 tmp.tmp4, fmul tmp.tmp5 tmp.tmp6, fmul tmp.tmp1 tmp.tmp4⟩ := rfl
  rw [pointAddChecked, step1]
  simp only [Option.bind_eq_bind, Option.bind_some]
  rw [step2, Option.bind_some, step3, Option.bind_some, result]
  generalize pointAddStep3 (pointAddStep2 p p' (pointAddStep1 p p' Tmp.create)) = tmp at *
  simp only [fmulChecked_eq (tmp1.mono (by decide)) tmp6, fmulChecked_eq tmp5 (tmp4.mono (by decide)),
    fmulChecked_eq (tmp1.mono (by decide)) (tmp4.mono (by decide)), fmulChecked_eq tmp5 tmp6, Option.bind_some,
    Option.pure_def]

/-- The checks of a doubling pass. -/
theorem pointDoubleChecked_eq (first : PointInv p q) : pointDoubleChecked p = some (pointDouble p) := by
  have a := fsquare_holds (first.x.mono (by decide))
  have b := fsquare_holds (first.y.mono (by decide))
  have z := fsquare_holds (first.z.mono (by decide))
  have c := times2_holds z
  have h1 := fsum_holds a b
  have h := reduce513_holds (h1.mono (by decide))
  have e1 := fsum_holds first.x first.y
  have e2 := fsquare_holds (e1.mono (by decide))
  have e := fdifference_holds e2 h
  have g := fdifferenceReduced_holds b a
  have c' := reduce513_holds (c.mono (by decide))
  have f := fsum_holds c' g
  have step1 : pointDoubleStep1Checked p Tmp.create = some (pointDoubleStep1 p Tmp.create) := by
    simp only [pointDoubleStep1Checked, fsquareChecked_eq (first.x.below.mono (by decide)),
      fsquareChecked_eq (first.y.below.mono (by decide)), fsquareChecked_eq (first.z.below.mono (by decide)),
      times2Checked_eq z.below, fsumChecked_eq a.below b.below, reduce513Checked_eq (h1.below.mono (by decide)),
      Option.bind_eq_bind, Option.bind_some, pointDoubleStep1, Option.pure_def]
  have step2 : pointDoubleStep2Checked p (pointDoubleStep1 p Tmp.create) =
      some (pointDoubleStep2 p (pointDoubleStep1 p Tmp.create)) := by
    simp only [pointDoubleStep2Checked, pointDoubleStep2, pointDoubleStep1, fsumChecked_eq first.x.below first.y.below,
      fsquareChecked_eq (e1.below.mono (by decide)), fdifferenceChecked_eq e2.below h.below,
      fdifferenceReducedChecked_eq b.below a.below, reduce513Checked_eq (c.below.mono (by decide)),
      fsumChecked_eq c'.below g.below, Option.bind_eq_bind, Option.bind_some, Option.pure_def]
  have tmp4 : Below p53 (pointDoubleStep2 p (pointDoubleStep1 p Tmp.create)).tmp4 := f.below
  have tmp6 : Below p5413 (pointDoubleStep2 p (pointDoubleStep1 p Tmp.create)).tmp6 := e.below
  have tmp2 : Below p513 (pointDoubleStep2 p (pointDoubleStep1 p Tmp.create)).tmp2 := g.below
  have tmp3 : Below p513 (pointDoubleStep2 p (pointDoubleStep1 p Tmp.create)).tmp3 := h.below
  have result : pointDouble p =
      let tmp := pointDoubleStep2 p (pointDoubleStep1 p Tmp.create)
      ⟨fmul tmp.tmp4 tmp.tmp6, fmul tmp.tmp2 tmp.tmp3, fmul tmp.tmp4 tmp.tmp2, fmul tmp.tmp3 tmp.tmp6⟩ := rfl
  rw [pointDoubleChecked, step1]
  simp only [Option.bind_eq_bind, Option.bind_some]
  rw [step2, Option.bind_some, result]
  generalize pointDoubleStep2 p (pointDoubleStep1 p Tmp.create) = tmp at *
  simp only [fmulChecked_eq tmp4 tmp6, fmulChecked_eq (tmp2.mono (by decide)) (tmp3.mono (by decide)),
    fmulChecked_eq (tmp3.mono (by decide)) tmp6, fmulChecked_eq tmp4 (tmp2.mono (by decide)), Option.bind_some,
    Option.pure_def]

end HaclStar.Impl.Ed25519
