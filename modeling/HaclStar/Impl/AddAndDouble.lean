import HaclStar.Impl.Bignum25519

/-! The step of the Curve25519 ladder: a point is doubled and added to another one, on their first coordinates. -/

namespace HaclStar.Impl.AddAndDouble

open Bignum25519 FiveLimbs
open Spec.Curve25519 (modulus)

/-- A point by its first coordinate, as a fraction. -/
structure Point where
  x : Felem
  z : Felem

/-- The coefficient of the curve that doubling uses. -/
def a24 : Limb := 121665

abbrev p52 : Nat := 2 ^ 52

/-- The products of the limbs and a small number. -/
def fscalarWide (b : Felem) (s : Limb) : FelemWide 64 := b.map fun x => mulWide x s

/-- Multiply by a small number. -/
def fscalar (b : Felem) (s : Limb) : Felem :=
  let tmp := fscalarWide b s
  let tmp := field.carryWide tmp
  let tmp := field.carryTopWide tmp
  copyFromWide tmp

/-- What the first part of the step leaves. -/
structure Monty1 where
  x : Felem
  z : Felem
  xxprime : Felem
  zzprime : Felem

/-- Sums and differences of the coordinates, and their cross products. -/
def fmonty1 (x z xprime zprime : Felem) : Monty1 :=
  let origx := x
  let x := fsum x z
  let z := fdifference z origx
  let origxprime := xprime
  let xprime := fsum xprime zprime
  let zprime := fdifference zprime origxprime
  let xxprime := fmul xprime z
  let zzprime := fmul x zprime
  ⟨x, z, xxprime, zzprime⟩

/-- What the second part of the step leaves. -/
structure Monty2 where
  x3 : Felem
  z3 : Felem
  xx : Felem
  zz : Felem

/-- The sum of the points, and the squares for the double. -/
def fmonty2 (m : Monty1) (qx : Felem) : Monty2 :=
  let origxprime := m.xxprime
  let xxprime := fsum m.xxprime m.zzprime
  let zzprime := fdifference m.zzprime origxprime
  let x3 := fsquareTimes xxprime 1
  let zzzprime := fsquareTimes zzprime 1
  let z3 := fmul zzzprime qx
  let xx := fsquareTimes m.x 1
  let zz := fsquareTimes m.z 1
  ⟨x3, z3, xx, zz⟩

/-- The double of the first point. -/
def fmonty3 (m : Monty2) : Point :=
  let x2 := fmul m.xx m.zz
  let zz := fdifference m.zz m.xx
  let zzz := fscalar zz a24
  let zzz := fsum zzz m.xx
  let z2 := fmul zzz zz
  ⟨x2, z2⟩

/-- The double of a point, and its sum with another one, from their difference. -/
def fmonty (p pq : Point) (qx : Felem) : Point × Point :=
  let m1 := fmonty1 p.x p.z pq.x pq.z
  let m2 := fmonty2 m1 qx
  let p2 := fmonty3 m2
  (p2, ⟨m2.x3, m2.z3⟩)

/-- The point that the specification works on. -/
def asPoint (p : Point) : Spec.Curve25519.ProjPoint := ⟨seval p.x, seval p.z⟩

/-- A point whose limbs are within the bound of products. -/
structure Red513 (p : Point) : Prop where
  x : Below p513 p.x
  z : Below p513 p.z

variable {a b : Felem} {d e : ZMod modulus}

/-- A multiple by a small number has a spare bit in its bottom limb only. -/
theorem fscalarWide_get (i : Fin 5) (s : Limb) : ((fscalarWide a s).get i).toNat = (a.get i).toNat * s.toNat := by
  have product : (fscalarWide a s).get i = mulWide (a.get i) s := by
    simp only [fscalarWide, Vector.get_eq_getElem, Vector.getElem_map]
  rw [product, mulWide_toNat]

theorem fscalarWide_below (below : Below p5413 a) : Below (2 ^ 72) (fscalarWide a a24) := by
  intro i
  have limb : (a.get i).toNat < 2 ^ 54 + 2 ^ 51 + 2 ^ 13 := below i
  have amount : a24.toNat = 121665 := rfl
  rw [fscalarWide_get, amount]
  omega

theorem fscalar_holds (holds : Holds p5413 a e) : Holds p52 (fscalar a a24) (121665 * e) := by
  have wide := fscalarWide_below holds.below
  have scaled : field.seval (fscalarWide a a24) = 121665 * field.seval a := by
    have amount : a24.toNat = 121665 := rfl
    simp only [Modulo.seval, fscalarWide_get, amount, Limbs.value, Nat.ofDigits_cons, Nat.ofDigits_nil]
    ring
  have size : field.limbSize = 51 := rfl
  have factor : field.factor = 19 := rfl
  obtain ⟨c0, c1, c2, c3, c4, value⟩ := field.narrowWide_spec (wide.mono (by decide)) (wide 4).le (by decide)
  have result : fscalar a a24 = copyFromWide (field.carryTopWide (field.carryWide (fscalarWide a a24))) := rfl
  rw [← result] at c0 c1 c2 c3 c4 value
  rw [size] at c1 c2 c3 c4
  constructor
  · intro i
    fin_cases i
    · exact c0.trans_le (by decide)
    · exact c1.trans (by decide)
    · exact c2.trans (by decide)
    · exact c3.trans (by decide)
    · exact c4.trans (by decide)
  · rw [cast_eq value, scaled, Nat.cast_mul, holds.value, Nat.cast_ofNat]

/-- Sums of a multiple and of a product are not carried. -/
theorem fsum_holds' (first : Holds p52 a d) (second : Holds p513 b e) : Holds p53 (fsum a b) (d + e) := by
  obtain ⟨below, value⟩ := fsum_spec field first.below second.below (by decide)
  refine ⟨below.mono (by decide), ?_⟩
  rw [value, Nat.cast_add, first.value, second.value]

theorem square_holds (holds : Holds p5413 a e) : Holds p513 (fsquareTimes a 1) (e ^ 2) :=
  fsquareTimes_holds holds (by decide)

/-- The first part: sums and differences wait for a product, and cross products are carried. -/
structure Monty1.Holds (m : Monty1) (s d c c' : ZMod modulus) : Prop where
  x : Bignum25519.Holds p53 m.x s
  z : Bignum25519.Holds p5413 m.z d
  xxprime : Bignum25519.Holds p513 m.xxprime c
  zzprime : Bignum25519.Holds p513 m.zzprime c'

/-- The second part: all four elements are carried. -/
structure Monty2.Holds (m : Monty2) (x3 z3 ss dd : ZMod modulus) : Prop where
  x3 : Bignum25519.Holds p513 m.x3 x3
  z3 : Bignum25519.Holds p513 m.z3 z3
  xx : Bignum25519.Holds p513 m.xx ss
  zz : Bignum25519.Holds p513 m.zz dd

theorem fmonty1_holds {x z xprime zprime : Felem} {x2 z2 x3 z3 : ZMod modulus} (px : Holds p513 x x2)
    (pz : Holds p513 z z2) (pqx : Holds p513 xprime x3) (pqz : Holds p513 zprime z3) :
    (fmonty1 x z xprime zprime).Holds (x2 + z2) (x2 - z2) ((x3 + z3) * (x2 - z2)) ((x2 + z2) * (x3 - z3)) := by
  have sum := fsum_holds px pz
  have difference := fdifference_holds pz px
  have sum' := fsum_holds pqx pqz
  have difference' := fdifference_holds pqz pqx
  exact ⟨sum, difference, fmul_holds sum' (difference.mono (by decide)), fmul_holds sum (difference'.mono (by decide))⟩

theorem fmonty2_holds {m : Monty1} {qx : Felem} {s d c c' x1 : ZMod modulus} (holds : m.Holds s d c c')
    (q : Holds p513 qx x1) :
    (fmonty2 m qx).Holds ((c + c') ^ 2) ((c - c') ^ 2 * x1) (s ^ 2) (d ^ 2) := by
  have square := square_holds ((fsum_holds holds.xxprime holds.zzprime).mono (by decide))
  have square' := square_holds (fdifference_holds holds.zzprime holds.xxprime)
  exact ⟨square, fmul_holds (square'.mono (by decide)) (q.mono (by decide)), square_holds (holds.x.mono (by decide)),
    square_holds holds.z⟩

theorem fmonty3_holds {m : Monty2} {x3 z3 ss dd : ZMod modulus} (holds : m.Holds x3 z3 ss dd) :
    Holds p513 (fmonty3 m).x (ss * dd) ∧ Holds p513 (fmonty3 m).z ((121665 * (ss - dd) + ss) * (ss - dd)) := by
  have less := fdifference_holds holds.zz holds.xx
  have scaled := fsum_holds' (fscalar_holds less) holds.xx
  exact ⟨fmul_holds (holds.xx.mono (by decide)) (holds.zz.mono (by decide)),
    fmul_holds scaled (less.mono (by decide))⟩

/-- The step keeps the bounds, and its values are the specification's. -/
theorem fmonty_spec {p pq : Point} {qx : Felem} (red : Red513 p) (red' : Red513 pq) (below : Below p513 qx) :
    Red513 (fmonty p pq qx).1 ∧ Red513 (fmonty p pq qx).2 ∧
      (asPoint (fmonty p pq qx).1, asPoint (fmonty p pq qx).2) =
        Spec.Curve25519.addAndDouble (seval qx) (asPoint p) (asPoint pq) := by
  have first := fmonty1_holds (holds_seval red.x) (holds_seval red.z) (holds_seval red'.x) (holds_seval red'.z)
  have second := fmonty2_holds first (holds_seval below)
  obtain ⟨x2, z2⟩ := fmonty3_holds second
  have x3 := second.x3
  have z3 := second.z3
  obtain ⟨⟨r2x, r2z⟩, r3x, r3z⟩ := Spec.Curve25519.reduced_addAndDouble (seval qx) (asPoint p) (asPoint pq)
  -- Each coordinate of the specification is a residue, and stands for the same element of the field.
  have double : asPoint (fmonty p pq qx).1 =
      (Spec.Curve25519.addAndDouble (seval qx) (asPoint p) (asPoint pq)).1 := by
    rw [fmonty, asPoint, seval_eq_of_holds (x2.congr _) r2x, seval_eq_of_holds (z2.congr _) r2z]
    · rw [Spec.Curve25519.cast_double_z, asPoint]
      ring
    · rw [Spec.Curve25519.cast_double_x, asPoint]
  have sum : asPoint (fmonty p pq qx).2 = (Spec.Curve25519.addAndDouble (seval qx) (asPoint p) (asPoint pq)).2 := by
    rw [fmonty, asPoint, seval_eq_of_holds (x3.congr _) r3x, seval_eq_of_holds (z3.congr _) r3z]
    · rw [Spec.Curve25519.cast_add_z, asPoint, asPoint]
      ring
    · rw [Spec.Curve25519.cast_add_x, asPoint, asPoint]
      ring
  exact ⟨⟨x2.below, z2.below⟩, ⟨x3.below, z3.below⟩, by rw [double, sum]⟩

end HaclStar.Impl.AddAndDouble
