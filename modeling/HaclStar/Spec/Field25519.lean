import HaclStar.Lib.Primality
import HaclStar.Spec.Curve25519

/-! The field of Curve25519: its modulus is prime, and the operations of the specification are those of the
integers modulo it. -/

namespace HaclStar.Spec.Curve25519

open Primality

/-- The modulus as a natural. -/
abbrev modulus : Nat := 2 ^ 255 - 19

/-- The modulus is prime. -/
theorem modulus_prime : Nat.Prime modulus := by
  -- The modulus minus one has a large prime factor, and so has that factor minus one.
  have left : Nat.Prime 31757755568855353 :=
    prime_of_lucas 10 [2, 2, 2, 3, 31, 107, 223, 4153, 430751] [] (by norm_num) (by simp) (by decide +kernel)
  have small : Nat.Prime 1919519569386763 :=
    prime_of_lucas 2 [2, 3, 7, 19, 47, 47, 127, 8574133] [] (by norm_num) (by simp) (by decide +kernel)
  have factor : Nat.Prime 2773320623 :=
    prime_of_lucas 5 [2, 2437, 569003] [] (by norm_num) (by simp) (by decide +kernel)
  have large : Nat.Prime 72106336199 :=
    prime_of_lucas 7 [2, 13] [2773320623] (by norm_num)
      (List.forall_mem_singleton.mpr factor) (by decide +kernel)
  have right : Nat.Prime 75445702479781427272750846543864801 :=
    prime_of_lucas 7 [2, 2, 2, 2, 2, 3, 3, 5, 5, 75707] [72106336199, 1919519569386763] (by norm_num)
      (List.forall_mem_cons.mpr ⟨large, List.forall_mem_singleton.mpr small⟩) (by decide +kernel)
  have outer : Nat.Prime 74058212732561358302231226437062788676166966415465897661863160754340907 :=
    prime_of_lucas 2 [2, 3, 353, 57467, 132049, 1923133]
      [31757755568855353, 75445702479781427272750846543864801] (by norm_num)
      (List.forall_mem_cons.mpr ⟨left, List.forall_mem_singleton.mpr right⟩) (by decide +kernel)
  exact prime_of_lucas 2 [2, 2, 3, 65147]
    [74058212732561358302231226437062788676166966415465897661863160754340907] (by norm_num)
    (List.forall_mem_singleton.mpr outer) (by decide +kernel)

instance : Fact (Nat.Prime modulus) := ⟨modulus_prime⟩

theorem two_ne_zero : (2 : ZMod modulus) ≠ 0 := by
  intro zero
  have divides : modulus ∣ 2 := (ZMod.natCast_eq_zero_iff 2 modulus).mp (by exact_mod_cast zero)
  exact absurd (Nat.le_of_dvd two_pos divides) (by decide)

/-! Integers stand for elements of the field. -/

theorem prime_eq : prime = (modulus : Int) := by
  norm_num [prime, modulus]

@[simp] theorem cast_mod (e : Int) : ((e % prime : Int) : ZMod modulus) = e := by
  rw [prime_eq, ZMod.intCast_mod]

@[simp] theorem cast_fadd (e1 e2 : Int) : ((fadd e1 e2 : Int) : ZMod modulus) = e1 + e2 := by
  rw [fadd, cast_mod, Int.cast_add]

@[simp] theorem cast_fsub (e1 e2 : Int) : ((fsub e1 e2 : Int) : ZMod modulus) = e1 - e2 := by
  rw [fsub, cast_mod, Int.cast_sub]

@[simp] theorem cast_fmul (e1 e2 : Int) : ((fmul e1 e2 : Int) : ZMod modulus) = e1 * e2 := by
  rw [fmul, cast_mod, Int.cast_mul]

/-- Exponentiation is that of the field. -/
theorem cast_pow (e : Int) {n : Nat} (positive : 0 < n) : ((pow e n : Int) : ZMod modulus) = (e : ZMod modulus) ^ n := by
  fun_induction pow e n with
  | case1 e n small =>
    have one : n = 1 := by omega
    rw [one, pow_one]
  | case2 e n large even ih =>
    rw [ih (by omega), cast_fmul, ← sq, ← pow_mul, Nat.mul_div_cancel' (Nat.dvd_of_mod_eq_zero even)]
  | case3 e n large odd ih =>
    have parts : 2 * ((n - 1) / 2) + 1 = n := by omega
    rw [cast_fmul, ih (by omega), cast_fmul, ← sq, ← pow_mul, ← pow_succ', parts]

/-- Integers stand for the same element when their residues are equal. -/
theorem cast_eq_iff (e1 e2 : Int) : (e1 : ZMod modulus) = e2 ↔ e1 % prime = e2 % prime := by
  rw [ZMod.intCast_eq_intCast_iff, prime_eq, Int.ModEq]

/-- Residues of the modulus. -/
def Reduced (e : Int) : Prop := 0 ≤ e ∧ e < prime

theorem reduced_mod (e : Int) : Reduced (e % prime) :=
  ⟨Int.emod_nonneg e (by decide), Int.emod_lt_of_pos e (by decide)⟩

theorem reduced_fmul (e1 e2 : Int) : Reduced (fmul e1 e2) := reduced_mod _

theorem Reduced.eq_iff {e1 e2 : Int} (first : Reduced e1) (second : Reduced e2) :
    e1 = e2 ↔ (e1 : ZMod modulus) = e2 := by
  rw [cast_eq_iff, Int.emod_eq_of_lt first.1 first.2, Int.emod_eq_of_lt second.1 second.2]

@[simp] theorem cast_square (e : Int) : ((pow e 2 : Int) : ZMod modulus) = (e : ZMod modulus) ^ 2 :=
  cast_pow e (by decide)

theorem reduced_square (e : Int) : Reduced (pow e 2) := by
  have once : pow e 2 = fmul e e := by
    rw [pow, if_neg (by decide), if_pos (by decide), pow, if_pos (by decide)]
  rw [once]
  exact reduced_fmul e e

/-- Powers of a residue are residues. -/
theorem reduced_pow {e : Int} (reduced : Reduced e) (n : Nat) : Reduced (pow e n) := by
  fun_induction pow e n with
  | case1 e n small => exact reduced
  | case2 e n large even ih => exact ih (reduced_fmul _ _)
  | case3 e n large odd ih => exact reduced_fmul _ _

/-- The power that is two less than the modulus is the inverse, with zero for zero. -/
theorem cast_inverse (e : Int) : ((pow e (prime - 2).toNat : Int) : ZMod modulus) = (e : ZMod modulus)⁻¹ := by
  have exponent : (prime - 2).toNat = modulus - 2 := by decide +kernel
  rw [exponent, cast_pow e (by norm_num)]
  by_cases zero : (e : ZMod modulus) = 0
  · rw [zero, inv_zero, zero_pow (by norm_num)]
  · have fermat := ZMod.pow_card_sub_one_eq_one zero
    have next : modulus - 1 = modulus - 2 + 1 := by norm_num
    rw [next, pow_succ] at fermat
    exact eq_inv_of_mul_eq_one_left fermat

/-- The coordinates of a point are residues. -/
def ProjPoint.Reduced (p : ProjPoint) : Prop := Curve25519.Reduced p.x ∧ Curve25519.Reduced p.z

/-- The step of the ladder yields residues. -/
theorem reduced_addAndDouble (qx : Int) (nq nqp1 : ProjPoint) :
    (addAndDouble qx nq nqp1).1.Reduced ∧ (addAndDouble qx nq nqp1).2.Reduced :=
  ⟨⟨reduced_fmul _ _, reduced_fmul _ _⟩, reduced_square _, reduced_fmul _ _⟩

section Step

variable (qx : Int) (nq nqp1 : ProjPoint)

theorem cast_double_x : ((addAndDouble qx nq nqp1).1.x : ZMod modulus) =
    ((nq.x : ZMod modulus) + nq.z) ^ 2 * ((nq.x : ZMod modulus) - nq.z) ^ 2 := by
  simp [addAndDouble]

theorem cast_double_z : ((addAndDouble qx nq nqp1).1.z : ZMod modulus) =
    (((nq.x : ZMod modulus) + nq.z) ^ 2 - ((nq.x : ZMod modulus) - nq.z) ^ 2) *
      (((nq.x : ZMod modulus) + nq.z) ^ 2 +
        121665 * (((nq.x : ZMod modulus) + nq.z) ^ 2 - ((nq.x : ZMod modulus) - nq.z) ^ 2)) := by
  simp [addAndDouble]

theorem cast_add_x : ((addAndDouble qx nq nqp1).2.x : ZMod modulus) =
    (((nqp1.x : ZMod modulus) - nqp1.z) * ((nq.x : ZMod modulus) + nq.z) +
      ((nqp1.x : ZMod modulus) + nqp1.z) * ((nq.x : ZMod modulus) - nq.z)) ^ 2 := by
  simp [addAndDouble]

theorem cast_add_z : ((addAndDouble qx nq nqp1).2.z : ZMod modulus) =
    (qx : ZMod modulus) * (((nqp1.x : ZMod modulus) - nqp1.z) * ((nq.x : ZMod modulus) + nq.z) -
      ((nqp1.x : ZMod modulus) + nqp1.z) * ((nq.x : ZMod modulus) - nq.z)) ^ 2 := by
  simp [addAndDouble]

end Step

end HaclStar.Spec.Curve25519
