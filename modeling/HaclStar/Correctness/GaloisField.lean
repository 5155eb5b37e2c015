import HaclStar.Spec.GaloisField

/-! The product of the specified fields is that of polynomials over the field of two elements, for every degree and
every modulus, and the Galois hash evaluates a polynomial with it. -/

namespace HaclStar.Correctness.GaloisField

open Endianness Blocks
open HaclStar.Spec.GaloisField

/-- Elements are the polynomials modulo that of the field, with bit `i` the coefficient of the power `i`. -/
structure IsQuotient (f : GF) : Prop where
  coefficient : ∀ (a : Felem f) i, (BinaryPolynomials.toPoly (ZMod 2) a).coeff i = if a.getMsbD i then 1 else 0
  bijective : Function.Bijective (@toQuotient f)
  fadd : ∀ a b : Felem f, toQuotient (fadd a b) = toQuotient a + toQuotient b
  fmul : ∀ a b : Felem f, toQuotient (fmul a b) = toQuotient a * toQuotient b
  zero : toQuotient (@zero f) = 0
  one : toQuotient (@one f) = 1

theorem isQuotient (f : GF) : IsQuotient f where
  coefficient := BinaryPolynomials.coeff_toPoly (ZMod 2)
  bijective := ⟨fun _ _ => toQuotient_injective, toQuotient_surjective⟩
  fadd := toQuotient_fadd
  fmul := toQuotient_fmul
  zero := toQuotient_zero
  one := toQuotient_one

/-- The laws of a commutative ring for the product, and what a shift multiplies by. -/
structure Laws (f : GF) : Prop where
  comm : ∀ a b : Felem f, fmul a b = fmul b a
  assoc : ∀ a b c : Felem f, fmul (fmul a b) c = fmul a (fmul b c)
  distrib : ∀ a b c : Felem f, fmul a (fadd b c) = fadd (fmul a b) (fmul a c)
  one_fmul : ∀ a : Felem f, fmul one a = a
  fmul_one : ∀ a : Felem f, fmul a one = a
  zero_fmul : ∀ a : Felem f, fmul zero a = zero
  fmul_zero : ∀ a : Felem f, fmul a zero = zero
  shift : 2 ≤ f.bits → ∀ a : Felem f, shiftReduce a = fmul a (elemVec 1)

/-- The laws hold for the classes, and different elements have different ones. -/
theorem laws (f : GF) : Laws f where
  comm a b := toQuotient_injective (by simp only [toQuotient_fmul, mul_comm])
  assoc a b c := toQuotient_injective (by simp only [toQuotient_fmul, mul_assoc])
  distrib a b c := toQuotient_injective (by simp only [toQuotient_fmul, toQuotient_fadd, mul_add])
  one_fmul a := toQuotient_injective (by rw [toQuotient_fmul, toQuotient_one, one_mul])
  fmul_one a := toQuotient_injective (by rw [toQuotient_fmul, toQuotient_one, mul_one])
  zero_fmul a := toQuotient_injective (by rw [toQuotient_fmul, toQuotient_zero, zero_mul])
  fmul_zero a := toQuotient_injective (by rw [toQuotient_fmul, toQuotient_zero, mul_zero])
  shift large a := toQuotient_injective (by
    rw [toQuotient_shiftReduce, toQuotient_fmul, toQuotient_elemVec large, pow_one, mul_comm])

/-- How many blocks a message has, the last of which may be short. -/
def blockCount (txt : Bytes) : Nat := (txt.length + 15) / 16

/-- Block `j` of a message. -/
def block (txt : Bytes) (j : Nat) : Bytes := (txt.drop (16 * j)).take 16

/-- Absorb one block. -/
def absorb (r acc : Spec.GF128.Elem) (w : Bytes) : Spec.GF128.Elem :=
  Spec.GF128.fmul (Spec.GF128.fadd acc (Spec.GF128.encode w)) r

/-- The polynomial of a message absorbs its blocks in order. -/
theorem polyFrom_encodeBytes (acc r : Spec.GF128.Elem) (txt : Bytes) :
    Spec.GF128.polyFrom acc (Spec.GF128.encodeBytes txt) r = foldBlocks 16 (absorb r) (blockCount txt) acc txt := by
  rw [Spec.GF128.encodeBytes]
  -- Induction along the blocks: the first one is the last of the text, which is absorbed first.
  fun_induction Spec.Poly1305.encodeBytes txt generalizing acc with
  | case1 txt empty =>
    have none : blockCount txt = 0 := by rw [blockCount, empty]
    rw [none, foldBlocks, Spec.GF128.polyFrom_nil]
  | case2 txt some w rest ih =>
    have count : blockCount txt = blockCount rest + 1 := by
      simp only [blockCount, rest, List.length_drop]
      omega
    have same : w = txt.take 16 := by
      simp only [w, Nat.min_def]
      split
      · rw [List.take_length, List.take_of_length_le (by assumption)]
      · rfl
    have behind : rest = txt.drop 16 := by
      simp only [rest, Nat.min_def]
      split
      · rw [List.drop_length, List.drop_of_length_le (by assumption)]
      · rfl
    rw [Spec.GF128.polyFrom_concat, ih, count, foldBlocks, ← same, ← behind, Spec.GF128.fadd_comm]
    rfl

/-- The class of an element of the hash. -/
noncomputable def hashClass (a : Spec.GF128.Elem) : Quotient gf128 := @toQuotient gf128 a

theorem hashClass_absorb (r acc : Spec.GF128.Elem) (w : Bytes) :
    hashClass (absorb r acc w) = (hashClass acc + hashClass (Spec.GF128.encode w)) * hashClass r := by
  have product (a b : Spec.GF128.Elem) : hashClass (Spec.GF128.fmul a b) = hashClass a * hashClass b :=
    (congrArg hashClass (fmul_gf128 a b)).trans (@toQuotient_fmul gf128 a b)
  have sum (a b : Spec.GF128.Elem) : hashClass (Spec.GF128.fadd a b) = hashClass a + hashClass b :=
    @toQuotient_fadd gf128 a b
  rw [absorb, product, sum]

/-- Absorbing blocks one after another evaluates the polynomial that has them as its coefficients. -/
theorem hashClass_foldBlocks (r acc : Spec.GF128.Elem) (n : Nat) (txt : Bytes) :
    hashClass (foldBlocks 16 (absorb r) n acc txt) = hashClass acc * hashClass r ^ n +
      ∑ j ∈ Finset.range n, hashClass (Spec.GF128.encode (block txt j)) * hashClass r ^ (n - j) := by
  -- Induction on the number of blocks: the first one is multiplied once more than those behind it.
  induction n generalizing acc txt with
  | zero => rw [foldBlocks, pow_zero, mul_one, Finset.sum_range_zero, add_zero]
  | succ n ih =>
    have moved (j : Nat) : block (txt.drop 16) j = block txt (j + 1) := by
      rw [block, block, List.drop_drop, Nat.mul_succ, Nat.add_comm 16]
    have first : block txt 0 = txt.take 16 := by rw [block, Nat.mul_zero, List.drop_zero]
    rw [foldBlocks, ih, hashClass_absorb, Finset.sum_range_succ']
    simp only [moved, first, Nat.add_sub_add_right, Nat.sub_zero, pow_succ]
    ring

/-- Every field is a ring of polynomials modulo a polynomial, and the hash evaluates the polynomial of a message in
Horner's order. -/
theorem fields_and_hash :
    (∀ f : GF, IsQuotient f ∧ Laws f) ∧
      ∀ (txt : Bytes) (r : Spec.GF128.Elem),
        Spec.GF128.poly (Spec.GF128.encodeBytes txt) r =
            foldBlocks 16 (absorb r) (blockCount txt) Spec.GF128.zero txt ∧
          hashClass (Spec.GF128.poly (Spec.GF128.encodeBytes txt) r) =
            ∑ j ∈ Finset.range (blockCount txt),
              hashClass (Spec.GF128.encode (block txt j)) * hashClass r ^ (blockCount txt - j) := by
  refine ⟨fun f => ⟨isQuotient f, laws f⟩, fun txt r => ?_⟩
  have horner : Spec.GF128.poly (Spec.GF128.encodeBytes txt) r =
      foldBlocks 16 (absorb r) (blockCount txt) Spec.GF128.zero txt := by
    rw [Spec.GF128.poly_eq_polyFrom, polyFrom_encodeBytes]
  refine ⟨horner, ?_⟩
  have empty : hashClass Spec.GF128.zero = 0 := @toQuotient_zero gf128
  rw [horner, hashClass_foldBlocks, empty, zero_mul, zero_add]

end HaclStar.Correctness.GaloisField
