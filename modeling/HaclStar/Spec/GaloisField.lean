import HaclStar.Lib.BinaryPolynomials
import HaclStar.Lib.Blocks
import HaclStar.Spec.GF128

/-! Polynomials of any degree over the field of two elements, modulo any polynomial of that degree. -/

namespace HaclStar.Spec.GaloisField

open Polynomial

/-- A degree, and the polynomial that its power of the indeterminate is reduced to. -/
structure GF where
  bits : Nat
  irred : BitVec bits
  positive : 0 < bits

/-- A polynomial of smaller degree: its coefficients are the bits from the left. -/
abbrev Felem (f : GF) := BitVec f.bits

variable {f : GF}

def toFelem (u : Nat) : Felem f := BitVec.ofNat f.bits u

def fromFelem (e : Felem f) : Nat := e.toNat

def zero : Felem f := 0#f.bits

/-- The power `i` of the indeterminate. -/
def elemVec (i : Nat) : Felem f := BitVec.twoPow f.bits (f.bits - 1 - i)

def one : Felem f := elemVec 0

def fadd (a b : Felem f) : Felem f := a ^^^ b

/-- Multiply by the indeterminate, and reduce. -/
def shiftReduce (a : Felem f) : Felem f :=
  if a.getMsbD (f.bits - 1) then fadd (a >>> 1) f.irred else a >>> 1

/-- Add one element to another when a bit of the third is set. -/
def condFadd (a b c : Felem f) (n : Nat) : Felem f := if b.getMsbD n then fadd c a else c

/-- The sum over the last `rest` bits of `b`, starting with `a` at the first of them. -/
def fmulLoop (a b : Felem f) : Nat → Felem f
  | 0 => zero
  | rest + 1 => condFadd a b (fmulLoop (shiftReduce a) b rest) (f.bits - (rest + 1))

def fmul (a b : Felem f) : Felem f := fmulLoop a b f.bits

theorem byteBits_pos : 0 < 8 := by decide

/-- The field of the standard's example. -/
def gf8 : GF := ⟨8, 0xd8, byteBits_pos⟩

example : fmul (@toFelem gf8 0x53) (@toFelem gf8 0xca) = one := by decide

/-- The field of the Galois hash. -/
def gf128 : GF := ⟨128, GF128.irr, by decide⟩

/-! The product is that of bit vectors. -/

theorem fmulLoop_eq (a b : Felem f) (rest : Nat) : fmulLoop a b rest = BinaryPolynomials.mulLast f.irred a b rest := by
  -- Induction on the number of bits.
  induction rest generalizing a with
  | zero => rfl
  | succ rest ih =>
    rw [fmulLoop, ih]
    rfl

theorem fmul_eq (a b : Felem f) : fmul a b = BinaryPolynomials.mul f.irred a b := fmulLoop_eq a b f.bits

theorem getMsbD_elemVec {i : Nat} (inside : i < f.bits) (j : Nat) :
    (@elemVec f i).getMsbD j = decide (j = i) := by
  rw [elemVec, BitVec.getMsbD_eq_getLsbD, BitVec.getLsbD_twoPow]
  by_cases below : j < f.bits
  · rw [decide_eq_true below, Bool.true_and]
    by_cases same : j = i
    · subst same
      simp
      omega
    · simp [same]
      omega
  · have other : j ≠ i := by omega
    simp [below, other]

noncomputable section

/-- What elements are equal modulo. -/
def modulus (f : GF) : (ZMod 2)[X] := X ^ f.bits + BinaryPolynomials.toPoly (ZMod 2) f.irred

/-- The polynomials modulo that. -/
abbrev Quotient (f : GF) := AdjoinRoot (modulus f)

/-- The class of an element. -/
def toQuotient (a : Felem f) : Quotient f := AdjoinRoot.mk (modulus f) (BinaryPolynomials.toPoly (ZMod 2) a)

theorem reduces (f : GF) : BinaryPolynomials.Reduces (ZMod 2) (modulus f) f.irred :=
  BinaryPolynomials.reduces_sum f.irred

theorem toQuotient_injective {a b : Felem f} (same : toQuotient a = toQuotient b) : a = b :=
  (reduces f).mk_injective same

theorem toQuotient_surjective (y : Quotient f) : ∃ a : Felem f, toQuotient a = y :=
  (reduces f).mk_surjective (by decide) y

@[simp] theorem toQuotient_zero : toQuotient (@zero f) = 0 := by
  rw [toQuotient, zero, BinaryPolynomials.toPoly_zero, map_zero]

theorem toQuotient_elemVec {i : Nat} (inside : i < f.bits) :
    toQuotient (@elemVec f i) = AdjoinRoot.root (modulus f) ^ i := by
  rw [toQuotient, BinaryPolynomials.toPoly_single (ZMod 2) (getMsbD_elemVec inside), map_pow, AdjoinRoot.mk_X]

@[simp] theorem toQuotient_one : toQuotient (@one f) = 1 := by
  rw [one, toQuotient_elemVec f.positive, pow_zero]

@[simp] theorem toQuotient_fadd (a b : Felem f) : toQuotient (fadd a b) = toQuotient a + toQuotient b := by
  rw [toQuotient, fadd, BinaryPolynomials.toPoly_xor, map_add, toQuotient, toQuotient]

@[simp] theorem toQuotient_fmul (a b : Felem f) : toQuotient (fmul a b) = toQuotient a * toQuotient b := by
  rw [fmul_eq]
  exact (reduces f).mk_mul a b

@[simp] theorem toQuotient_shiftReduce (a : Felem f) :
    toQuotient (shiftReduce a) = AdjoinRoot.root (modulus f) * toQuotient a := (reduces f).mk_shiftReduce a

end

/-! The Galois hash computes in one of these fields. -/

theorem fmul_gf128 (a b : GF128.Elem) : GF128.fmul a b = @fmul gf128 a b := by
  have loop (rest : Nat) (a : GF128.Elem) : GF128.fmulLoop a b rest = @fmulLoop gf128 a b rest := by
    induction rest generalizing a with
    | zero => rfl
    | succ rest ih =>
      have position : 127 - rest = gf128.bits - (rest + 1) := by
        show 127 - rest = 128 - (rest + 1)
        omega
      rw [GF128.fmulLoop, ih, position]
      rfl
  exact loop 128 a

end HaclStar.Spec.GaloisField
