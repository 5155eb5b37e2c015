import HaclStar.Impl.Kummer
import HaclStar.Lib.Primality

/-! Where the prototype's arithmetic modulo 2^127 - 1 is right: sums always, the other operations on few inputs only,
because their results are shifted away and the second factor of a product is not read. -/

namespace HaclStar.Correctness.Kummer

open Primality
open HaclStar.Impl.Kummer

abbrev prime : Nat := 2 ^ 127 - 1

/-! The modulus minus one has a large prime factor. -/

theorem prime_77158673929 : Nat.Prime 77158673929 :=
  prime_of_lucas 11 [2, 2, 2, 3, 3, 3, 7, 73, 699053] [] (by norm_num) (by simp) (by decide)

theorem prime_prime : Nat.Prime prime :=
  prime_of_lucas 43 [2, 3, 3, 3, 7, 7, 19, 43, 73, 127, 337, 5419, 92737, 649657] [77158673929] (by norm_num)
    (List.forall_mem_singleton.mpr prime_77158673929) (by decide +kernel)

instance : Fact (Nat.Prime prime) := ⟨prime_prime⟩

/-- A result that stands for an element of the field, below the bound within which sums and differences of two
elements do not leave the word. -/
def Right (result : Option Gfe) (e : ZMod prime) : Prop :=
  ∃ r, result = some r ∧ (r.toNat : ZMod prime) = e ∧ r.toNat < 2 ^ 127

/-- The element that a word stands for. -/
abbrev element (a : Gfe) : ZMod prime := (a.toNat : ZMod prime)

/-- Right when it is a word that is congruent and within the bound. -/
theorem right_some {r : Gfe} {e : ZMod prime} : Right (some r) e ↔ element r = e ∧ r.toNat < 2 ^ 127 := by
  constructor
  · rintro ⟨_, ⟨rfl⟩, value, bound⟩
    exact ⟨value, bound⟩
  · rintro ⟨value, bound⟩
    exact ⟨r, rfl, value, bound⟩

/-- A fold is right when the number is zero or its high bit alone, and stands for that number. -/
theorem right_fold {rr : Gfe} {e : ZMod prime} :
    Right (fold rr) e ↔ rr.toNat = 0 ∧ e = 0 ∨ rr.toNat = 2 ^ 127 ∧ e = 1 := by
  constructor
  · rintro ⟨r, ran, value, -⟩
    rcases fold_eq_some.mp ran with ⟨zero, result⟩ | ⟨top, result⟩
    · exact .inl ⟨zero, by rw [← value, result, Nat.cast_zero]⟩
    · exact .inr ⟨top, by rw [← value, result, Nat.cast_one]⟩
  · rintro (⟨zero, rfl⟩ | ⟨top, rfl⟩)
    · exact ⟨0#128, fold_eq_some.mpr (.inl ⟨zero, rfl⟩), Nat.cast_zero, by decide⟩
    · exact ⟨1#128, fold_eq_some.mpr (.inr ⟨top, rfl⟩), Nat.cast_one, by decide⟩

/-- Words stand for the same element when their residues are equal. -/
theorem cast_eq_iff (m n : Nat) : (m : ZMod prime) = n ↔ m % prime = n % prime := by
  rw [ZMod.natCast_eq_natCast_iff, Nat.ModEq]

/-- Adding the high bit to the low ones keeps the residue. -/
theorem fold_modEq (n : Nat) : n / 2 ^ 127 + n % 2 ^ 127 ≡ n [MOD prime] := by
  have parts : n = n / 2 ^ 127 + n % 2 ^ 127 + prime * (n / 2 ^ 127) := by
    show _ = _ + (2 ^ 127 - 1) * (n / 2 ^ 127)
    omega
  conv_rhs => rw [parts]
  exact (Nat.add_mul_mod_self_left _ _ _).symm

/-- A sum is right unless it reaches the largest word. -/
theorem add_right (a b : Gfe) :
    Right (some (gfeAdd a b)) (element a + element b) ↔ a.toNat + b.toNat < 2 ^ 128 - 1 := by
  have first := a.isLt
  have second := b.isLt
  have value : (gfeAdd a b).toNat =
      (a.toNat + b.toNat) % 2 ^ 128 / 2 ^ 127 + (a.toNat + b.toNat) % 2 ^ 128 % 2 ^ 127 := by
    simp only [gfeAdd]
    rw [BitVec.toNat_add, toNat_low, BitVec.toNat_ushiftRight, Nat.shiftRight_eq_div_pow, BitVec.toNat_add]
    omega
  have kept := fold_modEq ((a.toNat + b.toNat) % 2 ^ 128)
  rw [right_some, element, element, element, ← Nat.cast_add, ZMod.natCast_eq_natCast_iff, value]
  have most : a.toNat + b.toNat < 2 ^ 129 := by omega
  generalize a.toNat + b.toNat = n at *
  by_cases fits : n < 2 ^ 128
  · rw [Nat.mod_eq_of_lt fits] at kept ⊢
    rw [and_iff_right kept]
    omega
  · -- Beyond the word the sum loses 2^128, which is two.
    have lost : n = n % 2 ^ 128 + 2 + prime * 2 := by
      have modulus : prime = 2 ^ 127 - 1 := rfl
      omega
    constructor
    · rintro ⟨same, -⟩
      have equal : n % 2 ^ 128 ≡ n % 2 ^ 128 + 2 [MOD prime] := by
        refine (kept.symm.trans same).trans ?_
        conv_lhs => rw [lost]
        exact Nat.add_mul_mod_self_left _ _ _
      exact absurd (Nat.ModEq.add_left_cancel' (n % 2 ^ 128) (a := 0) equal) (by decide)
    · intro small
      omega

/-- A difference is right when it is one, or the negated modulus. -/
theorem sub_right (a b : Gfe) :
    Right (gfeSub a b) (element a - element b) ↔ a.toNat = b.toNat + 1 ∨ b.toNat = a.toNat + prime := by
  have first := a.isLt
  have second := b.isLt
  have modulus : prime = 2 ^ 127 - 1 := rfl
  have mask : c127m1.toNat = 2 ^ 127 - 1 := by decide
  have value : (a + c127m1 - b).toNat = (2 ^ 128 - b.toNat + (a.toNat + (2 ^ 127 - 1)) % 2 ^ 128) % 2 ^ 128 := by
    rw [BitVec.toNat_sub, BitVec.toNat_add, mask]
  -- The number is zero or its high bit for few differences, of which one of each kind is right.
  have bottom : (a + c127m1 - b).toNat = 0 ↔ b.toNat = a.toNat + prime ∨ a.toNat = b.toNat + prime + 2 := by
    rw [value]
    omega
  have top : (a + c127m1 - b).toNat = 2 ^ 127 ↔ a.toNat = b.toNat + 1 ∨ b.toNat = a.toNat + 2 * prime + 1 := by
    rw [value]
    omega
  have cleared : (prime : ZMod prime) = 0 := ZMod.natCast_self prime
  have two : (2 : ZMod prime) ≠ 0 := by decide
  rw [gfeSub, right_fold, bottom, top, element, element]
  constructor
  · rintro (⟨higher | lower, zero⟩ | ⟨next | lower, one⟩)
    · exact .inr higher
    · rw [lower] at zero
      push_cast at zero
      exact absurd (by linear_combination zero - cleared) two
    · exact .inl next
    · rw [lower] at one
      push_cast at one
      exact absurd (by linear_combination -one - 2 * cleared) two
  · rintro (next | higher)
    · refine .inr ⟨.inl next, ?_⟩
      rw [next]
      push_cast
      ring
    · refine .inl ⟨.inl higher, ?_⟩
      rw [higher]
      push_cast
      linear_combination -cleared

/-! The squares whose fold is defined: the number that is folded is zero or its high bit, which leaves few residues
of the square, and each of them has at most two roots. -/

/-- A word whose square is folded to zero without being a multiple of the modulus. -/
def vanishing : Nat := 0x8000000000000000ffffffffffffffff

/-- Roots of the residues that a folded square can have. -/
def roots : List Nat :=
  [0, 2 ^ 96, 2 ^ 64, 0x1dcde77eb7696225a197b8d983ebaf5f, 2, 0x37696225a197b8d983ebaf5f3b9bcefd, 1,
    2 ^ 64 + 1, 0x1ef39361a6337f6d64f8da9ea005303d]

/-- Every residue that a folded square can have is the square of one of the roots, or minus a square. -/
theorem residues : ∀ top ∈ [0, 2 ^ 127], ∀ c1 ∈ [0, 1], ∀ c2 ∈ [0, 1, 2],
    (∃ s ∈ roots, s ^ 2 % prime = (top + 2 * c2 + 2 ^ 65 * c1) % prime) ∨
      powMod prime (top + 2 * c2 + 2 ^ 65 * c1) (prime / 2) = prime - 1 := by
  decide +kernel

/-- The words with the residue of a root, or with that of its negation. -/
def candidates (s : Nat) : List Gfe :=
  [s, s + prime, s + 2 * prime, prime - s, 2 * prime - s, 3 * prime - s].map (BitVec.ofNat 128)

/-- Tell whether a word is one of those below when its square is folded to zero, or to its high bit. -/
def expected (a : Gfe) : Bool :=
  let sum := (squareSum a).toNat
  (sum != 0 || a.toNat == 0 || a.toNat == vanishing) && (sum != 2 ^ 127 || a.toNat == 2 ^ 127 || a.toNat == prime - 1)

theorem expected_candidates : (roots.all fun s => (candidates s).all expected) = true := by
  decide

/-- Among the candidates, the words whose square is folded to zero, or to its high bit. -/
theorem folded {s : Nat} (member : s ∈ roots) {a : Gfe} (inside : a ∈ candidates s) :
    ((squareSum a).toNat = 0 → a.toNat = 0 ∨ a.toNat = vanishing) ∧
      ((squareSum a).toNat = 2 ^ 127 → a.toNat = 2 ^ 127 ∨ a.toNat = prime - 1) := by
  have checked := List.all_eq_true.mp (List.all_eq_true.mp expected_candidates s member) a inside
  simp only [expected, Bool.and_eq_true, Bool.or_eq_true, bne_iff_ne, beq_iff_eq] at checked
  obtain ⟨bottom, top⟩ := checked
  constructor
  · intro sum
    tauto
  · intro sum
    tauto

/-- The words whose square is folded. -/
theorem folds : (squareSum 0#128).toNat = 0 ∧ (squareSum (BitVec.ofNat 128 vanishing)).toNat = 0 ∧
    (squareSum (BitVec.ofNat 128 (2 ^ 127))).toNat = 2 ^ 127 ∧
    (squareSum (BitVec.ofNat 128 (prime - 1))).toNat = 2 ^ 127 := by
  decide

theorem eq_ofNat {a : Gfe} {n : Nat} (value : a.toNat = n) : a = BitVec.ofNat 128 n := by
  rw [← value, BitVec.ofNat_toNat, BitVec.setWidth_eq]

/-- A word whose element has a square root below the modulus is one of six. -/
theorem mem_candidates {a : Gfe} {s : Nat} (small : s < prime) (square : element a ^ 2 = (s : ZMod prime) ^ 2) :
    a ∈ candidates s := by
  have below := a.isLt
  have modulus : prime = 2 ^ 127 - 1 := rfl
  have close : a.toNat = s ∨ a.toNat = s + prime ∨ a.toNat = s + 2 * prime ∨ a.toNat = prime - s ∨
      a.toNat = 2 * prime - s ∨ a.toNat = 3 * prime - s := by
    rcases sq_eq_sq_iff_eq_or_eq_neg.mp square with same | opposite
    · rw [cast_eq_iff] at same
      have parts := Nat.mod_add_div a.toNat prime
      rw [same, Nat.mod_eq_of_lt small] at parts
      have quotient : a.toNat / prime < 3 := Nat.div_lt_of_lt_mul (by omega)
      interval_cases a.toNat / prime <;> omega
    · rw [eq_neg_iff_add_eq_zero, ← Nat.cast_add, ZMod.natCast_eq_zero_iff] at opposite
      obtain ⟨k, total⟩ := opposite
      have quotient : k ≤ 3 := by
        by_contra more
        have large : prime * 4 ≤ prime * k := Nat.mul_le_mul_left _ (by omega)
        omega
      interval_cases k <;> omega
  rw [candidates, List.mem_map]
  rcases close with value | value | value | value | value | value
  all_goals exact ⟨_, by simp, (eq_ofNat value).symm⟩

/-- Only four words have a square whose fold is defined. -/
theorem fold_square (a : Gfe) :
    ((squareSum a).toNat = 0 ↔ a.toNat = 0 ∨ a.toNat = vanishing) ∧
      ((squareSum a).toNat = 2 ^ 127 ↔ a.toNat = 2 ^ 127 ∨ a.toNat = prime - 1) := by
  obtain ⟨c1, most1, c2, most2, congruent⟩ := squareSum_modEq a
  obtain ⟨zero, vanishes, top, opposite⟩ := folds
  -- The residue of the square is one of twelve, so the word is one of the candidates.
  have candidate {value : Nat} (sum : (squareSum a).toNat = value) (known : value ∈ [0, 2 ^ 127]) :
      ∃ s ∈ roots, a ∈ candidates s := by
    rw [sum] at congruent
    have square : element a ^ 2 = ((value + 2 * c2 + 2 ^ 65 * c1 : Nat) : ZMod prime) := by
      rw [← (ZMod.natCast_eq_natCast_iff _ _ _).mpr congruent, Nat.cast_pow]
    have carry1 : c1 ∈ [0, 1] := by interval_cases c1 <;> decide
    have carry2 : c2 ∈ [0, 1, 2] := by interval_cases c2 <;> decide
    rcases residues value known c1 carry1 c2 carry2 with ⟨s, member, root⟩ | none
    · have small : ∀ s ∈ roots, s < prime := by decide
      rw [← (cast_eq_iff _ _).mpr root, Nat.cast_pow] at square
      exact ⟨s, member, mem_candidates (small s member) square⟩
    · exact absurd square (not_square_of_euler (by decide) none (element a))
  constructor
  · constructor
    · intro sum
      obtain ⟨s, member, inside⟩ := candidate sum (by simp)
      exact (folded member inside).1 sum
    · rintro (value | value)
      · rw [eq_ofNat value]
        exact zero
      · rw [eq_ofNat value]
        exact vanishes
  · constructor
    · intro sum
      obtain ⟨s, member, inside⟩ := candidate sum (by simp)
      exact (folded member inside).2 sum
    · rintro (value | value)
      · rw [eq_ofNat value]
        exact top
      · rw [eq_ofNat value]
        exact opposite

/-- The elements of the four words. -/
theorem elements : element (BitVec.ofNat 128 vanishing) ≠ 0 ∧ element (BitVec.ofNat 128 (2 ^ 127)) = 1 ∧
    element (BitVec.ofNat 128 (prime - 1)) = -1 := by
  have large : (BitVec.ofNat 128 vanishing).toNat = vanishing := by decide
  have high : (BitVec.ofNat 128 (2 ^ 127)).toNat = prime + 1 := by decide
  have last : (BitVec.ofNat 128 (prime - 1)).toNat + 1 = prime := by decide
  refine ⟨?_, ?_, ?_⟩
  · rw [element, large, Ne, ZMod.natCast_eq_zero_iff, Nat.dvd_iff_mod_eq_zero]
    decide
  · rw [element, high, Nat.cast_add, ZMod.natCast_self, zero_add, Nat.cast_one]
  · rw [eq_neg_iff_add_eq_zero, element, ← Nat.cast_succ, Nat.succ_eq_add_one, last, ZMod.natCast_self]

/-- A square is right for three words. -/
theorem square_right (a : Gfe) :
    Right (gfeSquare a) (element a ^ 2) ↔ a.toNat = 0 ∨ a.toNat = 2 ^ 127 ∨ a.toNat = prime - 1 := by
  obtain ⟨bottom, top⟩ := fold_square a
  obtain ⟨large, one, minus⟩ := elements
  rw [gfeSquare_eq, right_fold, bottom, top]
  constructor
  · rintro (⟨zero | vanishes, value⟩ | ⟨known, -⟩)
    · exact .inl zero
    · rw [eq_ofNat vanishes] at value
      exact absurd (pow_eq_zero_iff (by decide) |>.mp value) large
    · exact .inr known
  · rintro (zero | high | last)
    · exact .inl ⟨.inl zero, by rw [element, zero, Nat.cast_zero, zero_pow (by decide)]⟩
    · exact .inr ⟨.inl high, by rw [eq_ofNat high, one, one_pow]⟩
    · exact .inr ⟨.inr last, by rw [eq_ofNat last, minus, neg_one_sq]⟩

/-- A product is right for four first factors, and for those second ones that their squares happen to fit. -/
theorem mul_right (a b : Gfe) :
    Right (gfeMul a b) (element a * element b) ↔ a.toNat = 0 ∨ a.toNat = vanishing ∧ b.toNat % prime = 0 ∨
      a.toNat = 2 ^ 127 ∧ b.toNat % prime = 1 ∨ a.toNat = prime - 1 ∧ b.toNat % prime = prime - 1 := by
  obtain ⟨bottom, top⟩ := fold_square a
  obtain ⟨large, one, minus⟩ := elements
  have residue (n : Nat) (small : n < prime) : element b = n ↔ b.toNat % prime = n := by
    rw [cast_eq_iff, Nat.mod_eq_of_lt small]
  have zero_iff := residue 0 (by decide)
  have one_iff := residue 1 (by decide)
  have minus_iff := residue (prime - 1) (by decide)
  have minus_cast : ((prime - 1 : Nat) : ZMod prime) = -1 := by
    rw [eq_neg_iff_add_eq_zero, ← Nat.cast_succ, Nat.succ_eq_add_one, Nat.sub_add_cancel (by decide), ZMod.natCast_self]
  rw [Nat.cast_zero] at zero_iff
  rw [Nat.cast_one] at one_iff
  rw [minus_cast] at minus_iff
  rw [gfeMul_eq, right_fold, bottom, top, ← zero_iff, ← one_iff, ← minus_iff]
  constructor
  · rintro (⟨zero | vanishes, value⟩ | ⟨high | last, value⟩)
    · exact .inl zero
    · rw [eq_ofNat vanishes] at value
      exact .inr (.inl ⟨vanishes, (mul_eq_zero.mp value).resolve_left large⟩)
    · rw [eq_ofNat high, one, one_mul] at value
      exact .inr (.inr (.inl ⟨high, value⟩))
    · rw [eq_ofNat last, minus, neg_one_mul] at value
      exact .inr (.inr (.inr ⟨last, by rw [← value, neg_neg]⟩))
  · rintro (zero | ⟨vanishes, value⟩ | ⟨high, value⟩ | ⟨last, value⟩)
    · exact .inl ⟨.inl zero, by rw [element, zero, Nat.cast_zero, zero_mul]⟩
    · exact .inl ⟨.inr vanishes, by rw [value, mul_zero]⟩
    · exact .inr ⟨.inl high, by rw [eq_ofNat high, one, value, mul_one]⟩
    · exact .inr ⟨.inr last, by rw [eq_ofNat last, minus, value, neg_one_mul, neg_neg]⟩

/-- What the chain of squares and products does on the four words whose first square is defined. -/
theorem inverses : gfeInvert 0#128 = some 0#128 ∧ gfeInvert (BitVec.ofNat 128 vanishing) = some 0#128 ∧
    gfeInvert (BitVec.ofNat 128 (2 ^ 127)) = none ∧ gfeInvert (BitVec.ofNat 128 (prime - 1)) = none := by
  decide

/-- The power that is meant to be an inverse is right for zero only. -/
theorem invert_right (a : Gfe) :
    (Right (gfeInvert a) (element a ^ (2 ^ 127 - 3)) ∧
      (element a ≠ 0 → ∃ r, gfeInvert a = some r ∧ element a * element r = 1)) ↔ a.toNat = 0 := by
  obtain ⟨zero, vanishes, high, last⟩ := inverses
  constructor
  · rintro ⟨⟨r, ran, value, -⟩, -⟩
    -- The first square is defined, which leaves four words.
    have start : ∃ x, gfeSquare a = some x := by
      cases first : gfeSquare a with
      | none =>
        have stops : gfeInvert a = none := by
          rw [gfeInvert, first]
          rfl
        rw [stops] at ran
        exact absurd ran (by simp)
      | some x => exact ⟨x, rfl⟩
    obtain ⟨x, square⟩ := start
    rw [gfeSquare_eq, fold_eq_some] at square
    obtain ⟨bottom, top⟩ := fold_square a
    rcases square with ⟨sum, -⟩ | ⟨sum, -⟩
    · rcases bottom.mp sum with none | large
      · exact none
      · rw [eq_ofNat large, vanishes, Option.some_inj] at ran
        rw [eq_ofNat large, ← ran, BitVec.toNat_ofNat, Nat.zero_mod, Nat.cast_zero] at value
        exact absurd value.symm (pow_ne_zero _ elements.1)
    · rcases top.mp sum with one | minus
      · rw [eq_ofNat one, high] at ran
        exact absurd ran (by simp)
      · rw [eq_ofNat minus, last] at ran
        exact absurd ran (by simp)
  · intro none
    have cleared : element a = 0 := by rw [element, none, Nat.cast_zero]
    refine ⟨?_, fun some => absurd cleared some⟩
    have ran : gfeInvert a = some 0#128 := by rw [eq_ofNat none, zero]
    rw [ran, right_some, cleared, zero_pow (by norm_num)]
    exact ⟨Nat.cast_zero, by decide⟩

/-- Where the operations on two words are right. -/
theorem operations_right (a b : Gfe) :
    (Right (some (gfeAdd a b)) (element a + element b) ↔ a.toNat + b.toNat < 2 ^ 128 - 1) ∧
      (Right (gfeSub a b) (element a - element b) ↔ a.toNat = b.toNat + 1 ∨ b.toNat = a.toNat + prime) ∧
      (Right (gfeMul a b) (element a * element b) ↔ a.toNat = 0 ∨ a.toNat = vanishing ∧ b.toNat % prime = 0 ∨
        a.toNat = 2 ^ 127 ∧ b.toNat % prime = 1 ∨ a.toNat = prime - 1 ∧ b.toNat % prime = prime - 1) ∧
      (Right (gfeSquare a) (element a ^ 2) ↔ a.toNat = 0 ∨ a.toNat = 2 ^ 127 ∨ a.toNat = prime - 1) ∧
      ((Right (gfeInvert a) (element a ^ (2 ^ 127 - 3)) ∧
        (element a ≠ 0 → ∃ r, gfeInvert a = some r ∧ element a * element r = 1)) ↔ a.toNat = 0) :=
  ⟨add_right a b, sub_right a b, mul_right a b, square_right a, invert_right a⟩

/-- The product of minus one and zero comes out as one, and the difference of five and three has no value. -/
theorem product_wrong :
    gfeMul (BitVec.ofNat 128 (prime - 1)) 0#128 = some 1#128 ∧ gfeSub 5#128 3#128 = none ∧
      ¬ ∀ a b : Gfe, a.toNat < prime → b.toNat < prime → Right (gfeMul a b) (element a * element b) := by
  refine ⟨by decide, by decide, fun all => ?_⟩
  have wrong := (mul_right _ _).mp (all (BitVec.ofNat 128 (prime - 1)) 0#128 (by decide) (by decide))
  exact absurd wrong (by decide)

end HaclStar.Correctness.Kummer
