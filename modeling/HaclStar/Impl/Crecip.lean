import HaclStar.Impl.Bignum25519

/-! The inversions of Curve25519 in place: twenty limbs of scratch, whose four parts the chain overwrites while it
reads them. -/

namespace HaclStar.Impl.Crecip

open Bignum25519
open FiveLimbs (limb0 limb1 limb2 limb3 limb4)

/-- The parts of the scratch, of five limbs each. -/
inductive Slot where
  | a
  | t0
  | b
  | c

/-- Where a part starts. -/
def Slot.offset : Slot → Nat
  | a => 0
  | t0 => 5
  | b => 10
  | c => 15

/-- The scratch. -/
abbrev Scratch := Vector Limb 20

theorem Slot.within (s : Slot) (i : Fin 5) : s.offset + i.val < 20 := by
  cases s <;> simp only [offset] <;> omega

/-- The element in one part. -/
def sub (buf : Scratch) (s : Slot) : Felem :=
  Vector.ofFn fun i => buf.get ⟨s.offset + i.val, s.within i⟩

/-- Write an element to one part, limb by limb. -/
def copy (buf : Scratch) (s : Slot) (x : Felem) : Scratch :=
  ((((buf.setIfInBounds (s.offset + 0) (x.get limb0)).setIfInBounds (s.offset + 1) (x.get limb1)).setIfInBounds
    (s.offset + 2) (x.get limb2)).setIfInBounds (s.offset + 3) (x.get limb3)).setIfInBounds (s.offset + 4) (x.get limb4)

/-- Multiply two parts into a third one, which may be one of them: the first factor is copied, and the product is
carried in an array of its own. -/
def fmul (buf : Scratch) (output input input2 : Slot) : Scratch :=
  let tmp := sub buf input
  copy buf output (Bignum25519.fmul tmp (sub buf input2))

/-- Square a part repeatedly into another one, or in place. -/
def fsquareTimes (buf : Scratch) (output input : Slot) (count : Nat) : Scratch :=
  copy buf output (Bignum25519.fsquareTimes (sub buf input) count)

def crecip1 (buf : Scratch) (z : Felem) : Scratch :=
  let buf := copy buf .a (Bignum25519.fsquareTimes z 1)
  let buf := fsquareTimes buf .t0 .a 2
  let buf := copy buf .b (Bignum25519.fmul (sub buf .t0) z)
  let buf := fmul buf .a .b .a
  let buf := fsquareTimes buf .t0 .a 1
  let buf := fmul buf .b .t0 .b
  fsquareTimes buf .t0 .b 5

def crecip2 (buf : Scratch) : Scratch :=
  let buf := fmul buf .b .t0 .b
  let buf := fsquareTimes buf .t0 .b 10
  let buf := fmul buf .c .t0 .b
  let buf := fsquareTimes buf .t0 .c 20
  let buf := fmul buf .t0 .t0 .c
  let buf := fsquareTimes buf .t0 .t0 10
  let buf := fmul buf .b .t0 .b
  fsquareTimes buf .t0 .b 50

def crecip3 (buf : Scratch) : Felem :=
  let buf := fmul buf .c .t0 .b
  let buf := fsquareTimes buf .t0 .c 100
  let buf := fmul buf .t0 .t0 .c
  let buf := fsquareTimes buf .t0 .t0 50
  let buf := fmul buf .t0 .t0 .b
  let buf := fsquareTimes buf .t0 .t0 5
  Bignum25519.fmul (sub buf .t0) (sub buf .a)

def crecip3' (buf : Scratch) : Felem :=
  let buf := fmul buf .c .t0 .b
  let buf := fsquareTimes buf .t0 .c 100
  let buf := fmul buf .t0 .t0 .c
  let buf := fsquareTimes buf .t0 .t0 50
  let buf := fmul buf .t0 .t0 .b
  let buf := fsquareTimes buf .t0 .t0 2
  Bignum25519.fmul (sub buf .t0) (sub buf .a)

/-- What the inversion writes to its output. -/
def crecip (z : Felem) : Felem :=
  let buf := Vector.replicate 20 0
  let buf := crecip1 buf z
  let buf := crecip2 buf
  crecip3 buf

/-- What the power for square roots writes to its output. -/
def crecip' (z : Felem) : Felem :=
  let buf := Vector.replicate 20 0
  let buf := crecip1 buf z
  let buf := crecip2 buf
  let buf := copy buf .a (Bignum25519.fsquareTimes z 1)
  crecip3' buf

/-! A write is seen in its own part, and in no other one. -/

theorem get_sub (buf : Scratch) (s : Slot) (i : Fin 5) : (sub buf s).get i = buf.get ⟨s.offset + i.val, s.within i⟩ := by
  rw [sub, Vector.get_eq_getElem, Vector.getElem_ofFn]

@[simp] theorem sub_copy (buf : Scratch) (s : Slot) (x : Felem) : sub (copy buf s x) s = x := by
  apply Vector.ext
  intro i inside
  have at_i := get_sub (copy buf s x) s ⟨i, inside⟩
  rw [Vector.get_eq_getElem] at at_i
  rw [at_i]
  have bound := s.within ⟨i, inside⟩
  simp only [copy, Vector.get_eq_getElem, Vector.getElem_setIfInBounds]
  interval_cases i <;> simp [limb0, limb1, limb2, limb3, limb4]

/-- The parts do not overlap. -/
theorem Slot.apart {s s' : Slot} (other : s ≠ s') : s.offset + 5 ≤ s'.offset ∨ s'.offset + 5 ≤ s.offset := by
  cases s <;> cases s' <;> simp [offset] at other ⊢

@[simp] theorem sub_copy_other (buf : Scratch) {s s' : Slot} (x : Felem) (other : s ≠ s') :
    sub (copy buf s x) s' = sub buf s' := by
  apply Vector.ext
  intro i inside
  have before := get_sub buf s' ⟨i, inside⟩
  have after := get_sub (copy buf s x) s' ⟨i, inside⟩
  have away (k : Nat) (small : k < 5) : s.offset + k ≠ s'.offset + i := by
    have apart := Slot.apart other
    omega
  rw [Vector.get_eq_getElem] at before after
  rw [before, after]
  simp only [copy, Vector.get_eq_getElem, Vector.getElem_setIfInBounds]
  rw [if_neg (away 4 (by decide)), if_neg (away 3 (by decide)), if_neg (away 2 (by decide)),
    if_neg (away 1 (by decide)), if_neg (away 0 (by decide))]

/-- The four elements in the scratch. -/
def parts (buf : Scratch) : CrecipBuffer := ⟨sub buf .a, sub buf .t0, sub buf .b, sub buf .c⟩

/-! Each part of the chain computes on the scratch what it computes on four elements. -/

theorem parts_crecip1 (buf : Scratch) (z : Felem) :
    parts (crecip1 buf z) = Bignum25519.crecip1 (parts buf) z := by
  simp [parts, crecip1, fmul, fsquareTimes, Bignum25519.crecip1]

theorem parts_crecip2 (buf : Scratch) : parts (crecip2 buf) = Bignum25519.crecip2 (parts buf) := by
  simp [parts, crecip2, fmul, fsquareTimes, Bignum25519.crecip2]

theorem crecip3_eq (buf : Scratch) : crecip3 buf = Bignum25519.crecip3 (parts buf) := by
  simp [parts, crecip3, fmul, fsquareTimes, Bignum25519.crecip3]

theorem crecip3'_eq (buf : Scratch) : crecip3' buf = Bignum25519.crecip3' (parts buf) := by
  simp [parts, crecip3', fmul, fsquareTimes, Bignum25519.crecip3']

theorem parts_replicate : parts (Vector.replicate 20 0) = ⟨zero, zero, zero, zero⟩ := by
  have cleared (s : Slot) : sub (Vector.replicate 20 0) s = zero := by
    cases s <;> decide
  simp only [parts, cleared]

/-- The inversion in place is the one on elements. -/
theorem crecip_eq (z : Felem) : crecip z = Bignum25519.crecip z := by
  rw [crecip, crecip3_eq, parts_crecip2, parts_crecip1, parts_replicate]
  rfl

theorem crecip'_eq (z : Felem) : crecip' z = Bignum25519.crecip' z := by
  have other := parts_crecip2 (crecip1 (Vector.replicate 20 0) z)
  rw [parts_crecip1, parts_replicate] at other
  rw [crecip', crecip3'_eq, Bignum25519.crecip', ← other]
  simp [parts]

end HaclStar.Impl.Crecip
