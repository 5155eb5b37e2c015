import HaclStar.Impl.GF128
import HaclStar.Impl.GF128Bytes
import HaclStar.Spec.GF128Field

/-! The multiplications on bytes and on words are that of the field of 2^128 elements. -/

namespace HaclStar.Correctness.GF128

open Endianness Spec.GF128

/-- The laws of a commutative multiplication with a unit that distributes over a sum, on a set of values. -/
structure Laws {α : Type} (valid : α → Prop) (mul add : α → α → α) (unit : α) : Prop where
  comm : ∀ a b, valid a → valid b → mul a b = mul b a
  assoc : ∀ a b c, valid a → valid b → valid c → mul (mul a b) c = mul a (mul b c)
  distrib : ∀ a b c, valid a → valid b → valid c → mul a (add b c) = add (mul a b) (mul a c)
  unit_mul : ∀ a, valid a → mul unit a = a

/-- The specification is the product of the classes, which determine the elements. -/
theorem fmul_laws : Laws (fun _ => True) fmul fadd one where
  comm a b _ _ := toField_injective (ZMod 2) (by rw [toField_fmul, toField_fmul, mul_comm])
  assoc a b c _ _ _ := toField_injective (ZMod 2) (by simp only [toField_fmul, mul_assoc])
  distrib a b c _ _ _ := toField_injective (ZMod 2) (by simp only [toField_fmul, toField_fadd, mul_add])
  unit_mul a _ := toField_injective (ZMod 2) (by rw [toField_fmul, toField_one, one_mul])

/-- Laws of elements are laws of the blocks that encode them. -/
theorem Laws.blocks {mul add : Bytes → Bytes → Bytes} {unit : Bytes} (unit_length : unit.length = 16)
    (mul_length : ∀ a b, (mul a b).length = 16) (add_length : ∀ a b, (add a b).length = a.length)
    (encode_mul : ∀ a b, a.length = 16 → b.length = 16 → encode (mul a b) = fmul (encode a) (encode b))
    (encode_add : ∀ a b, a.length = 16 → b.length = 16 → encode (add a b) = fadd (encode a) (encode b))
    (encode_unit : encode unit = one) : Laws (fun a => a.length = 16) mul add unit := by
  have injective {a b : Bytes} (size : a.length = 16) (size' : b.length = 16) (same : encode a = encode b) : a = b := by
    rw [← decode_encode size, same, decode_encode size']
  constructor
  · intro a b sizeA sizeB
    refine injective (mul_length _ _) (mul_length _ _) ?_
    rw [encode_mul a b sizeA sizeB, encode_mul b a sizeB sizeA]
    exact fmul_laws.comm _ _ trivial trivial
  · intro a b c sizeA sizeB sizeC
    refine injective (mul_length _ _) (mul_length _ _) ?_
    rw [encode_mul _ c (mul_length _ _) sizeC, encode_mul a b sizeA sizeB, encode_mul a _ sizeA (mul_length _ _),
      encode_mul b c sizeB sizeC]
    exact fmul_laws.assoc _ _ _ trivial trivial trivial
  · intro a b c sizeA sizeB sizeC
    refine injective (mul_length _ _) (by rw [add_length, mul_length]) ?_
    rw [encode_mul a _ sizeA (by rw [add_length, sizeB]), encode_add b c sizeB sizeC,
      encode_add _ _ (mul_length _ _) (mul_length _ _), encode_mul a b sizeA sizeB, encode_mul a c sizeA sizeC]
    exact fmul_laws.distrib _ _ _ trivial trivial trivial
  · intro a sizeA
    refine injective (mul_length _ _) sizeA ?_
    rw [encode_mul unit a unit_length sizeA, encode_unit]
    exact fmul_laws.unit_mul _ trivial

/-- The block of the unit: one bit, the first one. -/
def unitBlock : Bytes := 0x80 :: List.replicate 15 0

theorem encode_unitBlock : encode unitBlock = one := by decide

/-- Each implementation multiplies in the field of the polynomials over two elements, with the bits reflected;
so each obeys the laws, and they agree once the bytes are loaded. -/
theorem gf128Mul_correct :
    Irreducible (modulus (ZMod 2)) ∧ Function.Injective (toField (ZMod 2)) ∧
    (∀ a b, toField (ZMod 2) (Impl.GF128.gf128Mul a b) = toField (ZMod 2) a * toField (ZMod 2) b) ∧
    (∀ a b : Bytes, a.length = 16 → b.length = 16 →
      Impl.GCM.gf128Mul a b =
        Impl.GF128.store128Be (Impl.GF128.gf128Mul (Impl.GF128.load128Be a) (Impl.GF128.load128Be b)) ∧
      Impl.GF128Bytes.gf128Mul a b =
        Impl.GF128.store128Be (Impl.GF128.gf128Mul (Impl.GF128.load128Be a) (Impl.GF128.load128Be b))) ∧
    Laws (fun _ => True) Impl.GF128.gf128Mul Impl.GF128.gf128Add one ∧
    Laws (fun a => a.length = 16) Impl.GCM.gf128Mul Impl.GCM.gf128Add unitBlock ∧
    Laws (fun a => a.length = 16) Impl.GF128Bytes.gf128Mul Impl.GF128Bytes.gf128Add unitBlock := by
  refine ⟨modulus_irreducible (ZMod 2) (Nat.card_zmod 2), fun a b => toField_injective (ZMod 2), fun a b => ?_,
    fun a b sizeA sizeB => ?_, ?_, ?_, ?_⟩
  · rw [Impl.GF128.gf128Mul_eq, toField_fmul]
  · rw [Impl.GF128.load128Be_eq sizeA, Impl.GF128.load128Be_eq sizeB, Impl.GF128.gf128Mul_eq]
    constructor
    · rw [← decode_encode (Impl.GCM.gf128Mul_length a b), Impl.GCM.encode_gf128Mul sizeA sizeB]
      rfl
    · rw [← decode_encode (Impl.GF128Bytes.gf128Mul_length a b), Impl.GF128Bytes.encode_gf128Mul sizeA sizeB]
      rfl
  · have same : Impl.GF128.gf128Mul = fmul := funext fun a => funext fun b => Impl.GF128.gf128Mul_eq a b
    rw [same]
    exact fmul_laws
  · exact Laws.blocks rfl Impl.GCM.gf128Mul_length Impl.GCM.gf128Add_length
      (fun _ _ => Impl.GCM.encode_gf128Mul) (fun _ _ => Impl.GCM.encode_gf128Add) encode_unitBlock
  · exact Laws.blocks rfl Impl.GF128Bytes.gf128Mul_length Impl.GF128Bytes.gf128Add_length
      (fun _ _ => Impl.GF128Bytes.encode_gf128Mul) (fun _ _ => Impl.GF128Bytes.encode_gf128Add) encode_unitBlock

end HaclStar.Correctness.GF128
