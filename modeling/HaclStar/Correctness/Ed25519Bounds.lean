import HaclStar.Impl.Ed25519Checked
import HaclStar.Correctness.Ed25519Ladder

/-! The bounds on limbs are closed under the addition and the doubling of points: no chain of them, however long,
overflows a word or goes below zero. -/

namespace HaclStar.Correctness.Ed25519Bounds

open HaclStar.Impl.Ed25519
open HaclStar.Correctness.Ed25519Ladder (Red513 pointInv_asPoint asPoint_eq red513_of_inv reduced_pointAdd
  reduced_pointDouble)

/-- A chain of additions and doublings over some points. -/
inductive Chain
  | point (p : Point)
  | add (left right : Chain)
  | double (chain : Chain)

namespace Chain

/-- The points that a chain starts from. -/
def points : Chain → List Point
  | point p => [p]
  | add left right => left.points ++ right.points
  | double chain => chain.points

/-- The result of a chain. -/
def eval : Chain → Point
  | point p => p
  | add left right => pointAdd left.eval right.eval
  | double chain => pointDouble chain.eval

/-- The result of a chain when every call and every operation on words is checked. -/
def evalChecked : Chain → Option Point
  | point p => some p
  | add left right => do
    let p ← left.evalChecked
    let q ← right.evalChecked
    pointAddChecked p q
  | double chain => do
    let p ← chain.evalChecked
    pointDoubleChecked p

/-- The result that the specification gives a chain. -/
def evalSpec : Chain → Spec.Ed25519.ExtPoint
  | point p => asPoint p
  | add left right => Spec.Ed25519.pointAdd left.evalSpec right.evalSpec
  | double chain => Spec.Ed25519.pointDouble chain.evalSpec

end Chain

variable {p q : Point}

/-- An addition keeps the bounds. -/
theorem red513_pointAdd (first : Red513 p) (second : Red513 q) : Red513 (pointAdd p q) :=
  red513_of_inv (pointAdd_inv (pointInv_asPoint first) (pointInv_asPoint second))

/-- A doubling keeps the bounds. -/
theorem red513_pointDouble (first : Red513 p) : Red513 (pointDouble p) :=
  red513_of_inv (pointDouble_inv (pointInv_asPoint first))

theorem asPoint_pointAdd (first : Red513 p) (second : Red513 q) :
    asPoint (pointAdd p q) = Spec.Ed25519.pointAdd (asPoint p) (asPoint q) :=
  asPoint_eq (pointAdd_inv (pointInv_asPoint first) (pointInv_asPoint second)) (reduced_pointAdd _ _)

theorem asPoint_pointDouble (first : Red513 p) : asPoint (pointDouble p) = Spec.Ed25519.pointDouble (asPoint p) :=
  asPoint_eq (pointDouble_inv (pointInv_asPoint first)) (reduced_pointDouble _)

/-- Each operation passes its checks, keeps the bounds and is that of the specification, and so does every
chain of them. -/
theorem chain_bounds :
    (∀ p q, Red513 p → Red513 q → pointAddChecked p q = some (pointAdd p q) ∧ Red513 (pointAdd p q) ∧
      asPoint (pointAdd p q) = Spec.Ed25519.pointAdd (asPoint p) (asPoint q)) ∧
    (∀ p, Red513 p → pointDoubleChecked p = some (pointDouble p) ∧ Red513 (pointDouble p) ∧
      asPoint (pointDouble p) = Spec.Ed25519.pointDouble (asPoint p)) ∧
    ∀ chain : Chain, (∀ p ∈ chain.points, Red513 p) → chain.evalChecked = some chain.eval ∧ Red513 chain.eval ∧
      asPoint chain.eval = chain.evalSpec := by
  have add (p q : Point) (first : Red513 p) (second : Red513 q) : pointAddChecked p q = some (pointAdd p q) :=
    pointAddChecked_eq (pointInv_asPoint first) (pointInv_asPoint second)
  have double (p : Point) (first : Red513 p) : pointDoubleChecked p = some (pointDouble p) :=
    pointDoubleChecked_eq (pointInv_asPoint first)
  refine ⟨fun p q first second => ⟨add p q first second, red513_pointAdd first second, asPoint_pointAdd first second⟩,
    fun p first => ⟨double p first, red513_pointDouble first, asPoint_pointDouble first⟩, fun chain bounded => ?_⟩
  -- Induction on the chain; each operation needs no more of its inputs than the others leave.
  induction chain with
  | point p => exact ⟨rfl, bounded p (List.mem_singleton_self p), rfl⟩
  | add left right left_ih right_ih =>
    obtain ⟨checked, red, value⟩ := left_ih fun p inside => bounded p (List.mem_append_left _ inside)
    obtain ⟨checked', red', value'⟩ := right_ih fun p inside => bounded p (List.mem_append_right _ inside)
    refine ⟨?_, red513_pointAdd red red', ?_⟩
    · simp only [Chain.evalChecked, checked, checked', Option.bind_eq_bind, Option.bind_some]
      exact add _ _ red red'
    · rw [Chain.eval, Chain.evalSpec, asPoint_pointAdd red red', value, value']
  | double chain ih =>
    obtain ⟨checked, red, value⟩ := ih bounded
    refine ⟨?_, red513_pointDouble red, ?_⟩
    · simp only [Chain.evalChecked, checked, Option.bind_eq_bind, Option.bind_some]
      exact double _ red
    · rw [Chain.eval, Chain.evalSpec, asPoint_pointDouble red, value]

/-- A point whose limbs all have the largest value that the bound allows. -/
def largest : Point :=
  let a := Impl.FiveLimbs.upd5 0x8000000001fff 0x8000000001fff 0x8000000001fff 0x8000000001fff 0x8000000001fff
  ⟨a, a, a, a⟩

theorem chain_bounds_largest : pointAddChecked largest largest = some (pointAdd largest largest) := by
  have red : Red513 largest := by
    refine ⟨?_, ?_, ?_, ?_⟩ <;> exact Impl.FiveLimbs.below_upd5.mpr (by decide)
  exact (chain_bounds.1 largest largest red red).1

end HaclStar.Correctness.Ed25519Bounds
