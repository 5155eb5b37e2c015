import HaclStar.Spec.Ed25519Group
import HaclStar.Spec.Ed25519Sign

/-! The base point of Ed25519 generates a group of prime order. -/

namespace HaclStar.Spec.Ed25519

open Endianness Primality
open Curve25519 (modulus)

/-- The order is prime. -/
theorem q_prime : Nat.Prime q := by
  -- The order minus one splits into primes, and each large one among them does so again.
  have first : Nat.Prime 198211423230930754013084525763697 := by
    have factor : Nat.Prime 3044861653679985063343 :=
      prime_of_lucas 5 [2, 3, 11, 30703, 82163, 132667, 137849] [] (by norm_num) (by simp) (by decide)
    exact prime_of_lucas 5 [2, 2, 2, 2, 3, 23, 58964693] [3044861653679985063343] (by norm_num)
      (List.forall_mem_singleton.mpr factor) (by decide +kernel)
  have second : Nat.Prime 213441916511 := by
    have factor : Nat.Prime 292386187 :=
      prime_of_lucas 2 [2, 3, 3, 3, 3, 307, 5879] [] (by norm_num) (by simp) (by decide)
    exact prime_of_lucas 13 [2, 5, 73] [292386187] (by norm_num)
      (List.forall_mem_singleton.mpr factor) (by decide)
  have third : Nat.Prime 172054593956031949258510691 := by
    have inner : Nat.Prime 1257559732178653 :=
      prime_of_lucas 2 [2, 2, 3, 7, 23, 531581, 1224481] [] (by norm_num) (by simp) (by decide)
    have outer : Nat.Prime 4434155615661930479 :=
      prime_of_lucas 17 [2, 41, 43] [1257559732178653] (by norm_num)
        (List.forall_mem_singleton.mpr inner) (by decide)
    exact prime_of_lucas 2 [2, 5, 1361, 2851] [4434155615661930479] (by norm_num)
      (List.forall_mem_singleton.mpr outer) (by decide)
  have last : Nat.Prime 276602624281642239937218680557139826668747 := by
    have factor : Nat.Prime 19757330305831588566944191468367130476339 :=
      prime_of_lucas 2 [2, 269] [213441916511, 172054593956031949258510691] (by norm_num)
        (List.forall_mem_cons.mpr ⟨second, List.forall_mem_singleton.mpr third⟩) (by decide +kernel)
    exact prime_of_lucas 2 [2, 7] [19757330305831588566944191468367130476339] (by norm_num)
      (List.forall_mem_singleton.mpr factor) (by decide +kernel)
  exact prime_of_lucas 2 [2, 2, 3, 11]
    [198211423230930754013084525763697, 276602624281642239937218680557139826668747] (by norm_num)
    (List.forall_mem_cons.mpr ⟨first, List.forall_mem_singleton.mpr last⟩) (by decide +kernel)

instance : Fact (Nat.Prime q) := ⟨q_prime⟩

/-- The coordinates of the base point satisfy the equations of the curve. -/
theorem onCurve_g : OnCurve g where
  some := by decide
  product := by decide
  equation := by decide

/-- The base point, as a point of the curve. -/
noncomputable def base : Edwards.Point curve := Classical.choose ((onCurve_iff g).mp onCurve_g)

theorem denotes_g : Denotes g base := Classical.choose_spec ((onCurve_iff g).mp onCurve_g)

/-- A number below the order is that of its thirty-two bytes. -/
theorem littleEndian_scalar {n : Nat} (small : n ≤ q) : littleEndian (littleBytes 32 n) = n := by
  have width : q < 2 ^ (8 * 32) := by decide
  rw [littleEndian_littleBytes, Nat.mod_eq_of_lt (small.trans_lt width)]

/-- The base point times the order is the neutral point: the ladder of the specification computes it. -/
theorem q_nsmul_base : q • base = 0 := by
  have ladder : pointEqual (pointMul (littleBytes 32 q) g) ⟨0, 1, 1, 0⟩ = true := by decide +kernel
  have product := pointMul_denotes (littleBytes 32 q) denotes_g
  rw [littleEndian_scalar le_rfl] at product
  exact (product.pointEqual_iff denotes_zero).mp ladder

theorem base_ne_zero : base ≠ 0 := by
  intro zero
  have different : pointEqual g ⟨0, 1, 1, 0⟩ = false := by decide
  rw [(denotes_g.pointEqual_iff denotes_zero).mpr zero] at different
  cases different

/-- The order of the base point. -/
theorem addOrderOf_base : addOrderOf base = q := addOrderOf_eq_prime q_nsmul_base base_ne_zero

/-- A scalar counts modulo the order. -/
theorem mod_nsmul_base (n : Nat) : (n % q) • base = n • base := by
  rw [← addOrderOf_base, mod_addOrderOf_nsmul]

/-- Scalars below the order are determined by their multiples of the base point. -/
theorem nsmul_base_injective {m n : Nat} (first : m < q) (second : n < q) (same : m • base = n • base) : m = n := by
  rw [← addOrderOf_base] at first second
  exact nsmul_injOn_Iio_addOrderOf first second same

end HaclStar.Spec.Ed25519
