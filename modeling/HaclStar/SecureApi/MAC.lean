import HaclStar.Impl.GF128
import HaclStar.Impl.Poly1305
import HaclStar.SecureApi.Indexing

/-! The polynomial authenticators, as one family indexed by the algorithm. -/

namespace HaclStar.SecureApi.MAC

open Endianness Memory

/-- The representation of a field element: three limbs, or one word. -/
def Elem : MacAlg → Type
  | .poly1305 => Impl.Bignum.Felem
  | .ghash => Impl.GF128.UInt128

def taglen : Nat := 16

/-- Encode the raw bytes of a key as a field element. -/
def encodeR : (alg : MacAlg) → Bytes → Option (Elem alg)
  | .poly1305, raw => (Impl.Poly1305.encodeR ⟨0, 0, 16⟩ [raw]).map Prod.fst
  | .ghash, raw => some (Impl.GF128.load128Be raw)

/-- The initial accumulator. -/
def start : (alg : MacAlg) → Elem alg
  | .poly1305 => Impl.Poly1305.start
  | .ghash => Impl.GF128.zero128

/-- Process one word of the message. -/
def update : (alg : MacAlg) → Elem alg → Elem alg → Bytes → Option (Elem alg)
  | .poly1305, r, a, w => (Impl.Poly1305.update ⟨r, a⟩ ⟨0, 0, 16⟩ [w]).map (·.1.h)
  | .ghash, r, a, w => some (Impl.GF128.addAndMultiply a (Impl.GF128.load128Be w) r)

/-- Reduce the accumulator, with no bytes left to absorb, and write the tag. -/
def finishPoly1305 (a : Impl.Bignum.Felem) (t m s : Buffer) : Stack Unit := do
  let dummyR : Impl.Bignum.Felem := Vector.replicate 3 0
  let st ← Impl.Poly1305.updateLast ⟨dummyR, a⟩ m 0
  Impl.Poly1305.finish st t s

/-- The tag of an accumulator, masked by the second half of the key. -/
def finish : (alg : MacAlg) → Elem alg → Bytes → Option Bytes
  | .poly1305, a, s => do
    let (_, h) ← finishPoly1305 a ⟨0, 0, taglen⟩ ⟨2, 0, 0⟩ ⟨1, 0, 16⟩ [List.replicate taglen 0, s, []]
    return h.read ⟨0, 0, taglen⟩
  | .ghash, a, s => some (Impl.GF128.store128Be (Impl.GF128.finish a s))

/-- The specified tag of words, of which the last comes first. -/
def mac (alg : MacAlg) (cs : List Bytes) (rb s : Bytes) : Bytes :=
  match alg with
  | .poly1305 => Spec.Poly1305.finish (Spec.Poly1305.poly cs (Spec.Poly1305.encodeR rb)) s
  | .ghash => Spec.GF128.mac cs (Spec.GF128.encode rb) s

/-- An accumulator holds the words absorbed under a key. -/
def Holds : (alg : MacAlg) → Bytes → List Bytes → Elem alg → Elem alg → Prop
  | .poly1305, rb, cs, r, a => Impl.Poly1305.Absorbed rb cs ⟨r, a⟩
  | .ghash, rb, cs, r, a => r = Spec.GF128.encode rb ∧ a = Spec.GF128.poly cs (Spec.GF128.encode rb)

/-- A field element of the specification. -/
def SpecElem : MacAlg → Type
  | .poly1305 => Nat
  | .ghash => Spec.GF128.Elem

/-- The field element that a representation stands for. -/
def selElem : (alg : MacAlg) → Elem alg → SpecElem alg
  | .poly1305, b => Impl.Bignum.seval b % Spec.Poly1305.prime
  | .ghash, b => b

/-- What is required of an accumulator. -/
def Norm : (alg : MacAlg) → Elem alg → Prop
  | .poly1305, b => Impl.Bignum.Red45 b
  | .ghash, _ => True

/-- What is required of a key. -/
def NormR : (alg : MacAlg) → Elem alg → Prop
  | .poly1305, b => Impl.Bignum.Red44 b
  | .ghash, _ => True

/-- Encode a word of a message as a field element. -/
def encode : (alg : MacAlg) → Bytes → SpecElem alg
  | .poly1305, w => Spec.Poly1305.encode w
  | .ghash, w => Spec.GF128.encode w

def fieldAdd : (alg : MacAlg) → SpecElem alg → SpecElem alg → SpecElem alg
  | .poly1305, a, b => Spec.Poly1305.fadd a b
  | .ghash, a, b => Spec.GF128.fadd a b

def fieldMul : (alg : MacAlg) → SpecElem alg → SpecElem alg → SpecElem alg
  | .poly1305, a, b => Spec.Poly1305.fmul a b
  | .ghash, a, b => Spec.GF128.fmul a b

/-- Polynomial evaluation. -/
def poly : (alg : MacAlg) → List Bytes → SpecElem alg → SpecElem alg
  | .poly1305, cs, r => Spec.Poly1305.poly cs r
  | .ghash, cs, r => Spec.GF128.poly cs r

/-- The tag of a field element and a mask. -/
def finishElem : (alg : MacAlg) → SpecElem alg → Bytes → Bytes
  | .poly1305, a, s => Spec.Poly1305.finish a s
  | .ghash, a, s => Spec.GF128.finish a s

/-- The specified tag of words under a key that is a field element. -/
def macElem (alg : MacAlg) (cs : List Bytes) (r : SpecElem alg) (s : Bytes) : Bytes :=
  finishElem alg (poly alg cs r) s

variable {alg : MacAlg} {rb s w : Bytes} {cs : List Bytes}

@[simp] theorem mac_length (alg : MacAlg) (cs : List Bytes) (rb s : Bytes) :
    (mac alg cs rb s).length = taglen := by
  cases alg with
  | poly1305 => exact Spec.Poly1305.finish_length _ _
  | ghash => exact Spec.GF128.finish_length _ _

/-- The initial accumulator holds no words. -/
theorem encodeR_run (alg : MacAlg) (size : rb.length = 16) :
    ∃ r, encodeR alg rb = some r ∧ Holds alg rb [] r (start alg) := by
  cases alg with
  | poly1305 =>
    have live : Mem.Live [rb] ⟨0, 0, 16⟩ := ⟨by simp, by simp [Mem.block, size]⟩
    have read : Mem.read [rb] ⟨0, 0, 16⟩ = rb := by simp [Mem.read, Mem.block, ← size]
    obtain ⟨r, bound, value, ran⟩ := Impl.Poly1305.encodeR_run live rfl
    rw [read] at value
    have zero : Impl.Bignum.Red45 Impl.Poly1305.start := ⟨by decide, by decide, by decide⟩
    have empty : Impl.Bignum.seval Impl.Poly1305.start % Spec.Poly1305.prime = 0 := by decide
    exact ⟨r, by rw [encodeR, ran]; rfl, bound, value, zero, empty⟩
  | ghash => exact ⟨_, rfl, Impl.GF128.load128Be_eq size, rfl⟩

/-- The polynomial of no words is zero, which is the value of the initial accumulator. -/
theorem start_spec (alg : MacAlg) (r : SpecElem alg) :
    Norm alg (start alg) ∧ selElem alg (start alg) = poly alg [] r := by
  cases alg with
  | poly1305 =>
    have zero : Impl.Bignum.Red45 Impl.Poly1305.start := ⟨by decide, by decide, by decide⟩
    have empty : Impl.Bignum.seval Impl.Poly1305.start % Spec.Poly1305.prime = 0 := by decide
    exact ⟨zero, empty⟩
  | ghash => exact ⟨trivial, rfl⟩

/-- One more word is added in front, and everything is multiplied by the key. -/
theorem poly_cons (alg : MacAlg) (x : Bytes) (xs : List Bytes) (r : SpecElem alg) :
    poly alg (x :: xs) r = fieldMul alg (fieldAdd alg (poly alg xs r) (encode alg x)) r := by
  -- The two specifications add the word and the polynomial in opposite orders.
  cases alg with
  | poly1305 =>
    have comm (e1 e2 : Nat) : Spec.Poly1305.fadd e1 e2 = Spec.Poly1305.fadd e2 e1 := by
      rw [Spec.Poly1305.fadd, Spec.Poly1305.fadd, Nat.add_comm]
    exact congrArg (fun e => Spec.Poly1305.fmul e r) (comm (Spec.Poly1305.encode x) (Spec.Poly1305.poly xs r))
  | ghash =>
    have comm := Spec.GF128.fadd_comm (Spec.GF128.encode x) (Spec.GF128.poly xs r)
    exact congrArg (fun e => Spec.GF128.fmul e r) comm

/-- A word is added to the accumulator, which is multiplied by the key. -/
theorem update_spec {r a : Elem alg} (normR : NormR alg r) (norm : Norm alg a) (size : w.length = 16) :
    ∃ a', update alg r a w = some a' ∧ Norm alg a' ∧
      selElem alg a' = fieldMul alg (fieldAdd alg (selElem alg a) (encode alg w)) (selElem alg r) := by
  cases alg with
  | poly1305 =>
    have live : Mem.Live [w] ⟨0, 0, 16⟩ := ⟨by simp, by simp [Mem.block, size]⟩
    have read : Mem.read [w] ⟨0, 0, 16⟩ = w := by simp [Mem.read, Mem.block, ← size]
    obtain ⟨e, bound, value, ran⟩ := Impl.Poly1305.toFieldPlus2128_run live rfl
    rw [read] at value
    obtain ⟨acc, product⟩ := Impl.Bignum.addAndMultiply_spec norm bound normR
    refine ⟨Impl.Bignum.addAndMultiply a e r, ?_, acc, ?_⟩
    · rw [update, Impl.Poly1305.update, Stack.bind_run ran, Stack.pure_run]
      rfl
    · -- The limbs are multiplied modulo the same prime as the specified elements.
      have word : Spec.Poly1305.encode w = Impl.Bignum.seval e := by
        rw [Spec.Poly1305.encode_whole size, value]
      show Impl.Bignum.seval (Impl.Bignum.addAndMultiply a e r) % Spec.Poly1305.prime =
        Spec.Poly1305.fmul (Spec.Poly1305.fadd (Impl.Bignum.seval a % Spec.Poly1305.prime) (Spec.Poly1305.encode w))
          (Impl.Bignum.seval r % Spec.Poly1305.prime)
      rw [word, Spec.Poly1305.fmul, Spec.Poly1305.fadd, Nat.mod_add_mod, ← Nat.mul_mod]
      exact product
  | ghash =>
    have product := Impl.GF128.addAndMultiply_eq a (Impl.GF128.load128Be w) r
    rw [Impl.GF128.load128Be_eq size] at product
    refine ⟨_, rfl, trivial, ?_⟩
    rw [Impl.GF128.load128Be_eq size]
    exact product

/-- The tag is the one of the field element that the accumulator stands for. -/
theorem finish_spec {a : Elem alg} (norm : Norm alg a) (size : s.length = 16) :
    finish alg a s = some (finishElem alg (selElem alg a) s) := by
  cases alg with
  | poly1305 =>
    -- The key is not read once all words are absorbed.
    obtain ⟨bound, reduced⟩ := Impl.Poly1305.lastPass_spec norm
    have live : Mem.Live [List.replicate taglen 0, s, []] ⟨0, 0, taglen⟩ := ⟨by simp, by simp [Mem.block]⟩
    have live' : Mem.Live [List.replicate taglen 0, s, []] ⟨1, 0, 16⟩ := ⟨by simp, by simp [Mem.block, size]⟩
    have read : Mem.read [List.replicate taglen 0, s, []] ⟨1, 0, 16⟩ = s := by
      simp [Mem.read, Mem.block, ← size]
    have absorbed : Impl.Poly1305.updateLast ⟨Vector.replicate 3 0, a⟩ ⟨2, 0, 0⟩ 0 [List.replicate taglen 0, s, []] =
        some (⟨Vector.replicate 3 0, Impl.Poly1305.lastPass a⟩, [List.replicate taglen 0, s, []]) := rfl
    have small : Impl.Bignum.Bounds (Impl.Poly1305.State.mk (Vector.replicate 3 0) (Impl.Poly1305.lastPass a)).h
        (2 ^ 44) (2 ^ 44) (2 ^ 42) := bound
    have written := Impl.Poly1305.finish_run live live' (by decide) rfl small
    rw [read, reduced, Impl.Poly1305.prime_eq] at written
    have ran := (Stack.bind_run absorbed fun st => Impl.Poly1305.finish st ⟨0, 0, taglen⟩ ⟨1, 0, 16⟩).trans written
    simp only [finish, finishPoly1305, ran, Option.bind_eq_bind, Option.bind_some, Option.pure_def, Option.some_inj]
    exact Mem.read_write_same live (Spec.Poly1305.finish_length _ _)
  | ghash =>
    exact congrArg some (Impl.GF128.finish_eq a size)

/-- Raw bytes of a key stand for the field element they are encoded as. -/
def encodeElem : (alg : MacAlg) → Bytes → SpecElem alg
  | .poly1305, rb => Spec.Poly1305.encodeR rb
  | .ghash, rb => Spec.GF128.encode rb

/-- What an accumulator holds, in terms of the field elements. -/
theorem holds_elem {r a : Elem alg} (holds : Holds alg rb cs r a) :
    NormR alg r ∧ Norm alg a ∧ selElem alg r = encodeElem alg rb ∧
      selElem alg a = poly alg cs (encodeElem alg rb) := by
  cases alg with
  | poly1305 =>
    obtain ⟨key, keyValue, acc, accValue⟩ := holds
    refine ⟨key, acc, ?_, accValue⟩
    have small := Spec.Poly1305.encodeR_lt rb
    have below : Spec.Poly1305.encodeR rb < Spec.Poly1305.prime := small.trans (by decide)
    show Impl.Bignum.seval r % Spec.Poly1305.prime = Spec.Poly1305.encodeR rb
    rw [keyValue, Nat.mod_eq_of_lt below]
  | ghash =>
    obtain ⟨rfl, rfl⟩ := holds
    exact ⟨trivial, trivial, rfl, rfl⟩

/-- A word is absorbed. -/
theorem update_run {r a : Elem alg} (holds : Holds alg rb cs r a) (size : w.length = 16) :
    ∃ a', update alg r a w = some a' ∧ Holds alg rb (w :: cs) r a' := by
  obtain ⟨normR, norm, key, value⟩ := holds_elem holds
  obtain ⟨a', ran, norm', value'⟩ := update_spec normR norm size
  refine ⟨a', ran, ?_⟩
  have extended : selElem alg a' = poly alg (w :: cs) (encodeElem alg rb) := by
    rw [value', value, key, poly_cons]
  cases alg with
  | poly1305 => exact ⟨normR, holds.keyValue, norm', extended⟩
  | ghash => exact ⟨holds.1, extended⟩

/-- The tag is the one specified. -/
theorem finish_run {r a : Elem alg} (holds : Holds alg rb cs r a) (size : s.length = 16) :
    finish alg a s = some (mac alg cs rb s) := by
  obtain ⟨-, norm, -, value⟩ := holds_elem holds
  rw [finish_spec norm size, value]
  cases alg with
  | poly1305 => rfl
  | ghash => rfl

end HaclStar.SecureApi.MAC
