import HaclStar.Spec.GF128

/-! The field of 2^128 elements on 128-bit words. -/

namespace HaclStar.Impl.GF128

open Endianness Spec.GF128

/-- A 128-bit word. -/
abbrev UInt128 := BitVec 128

def load128Be (b : Bytes) : UInt128 := BitVec.ofNat 128 (bigEndian b)

def store128Be (n : UInt128) : Bytes := bigBytes 16 n.toNat

def gf128Add (a b : UInt128) : UInt128 := a ^^^ b

def zero128 : UInt128 := 0

def one128 : UInt128 := 1

def ones128 : UInt128 := ((0xffffffffffffffff : UInt128) <<< 64) + 0xffffffffffffffff

def rMul : UInt128 := (225 : UInt128) <<< 120

/-- All ones when two words are equal, and zero otherwise. -/
def eqMask (a b : UInt128) : UInt128 := if a = b then ones128 else zero128

/-- All ones when a bit is set, counted from the left, and zero otherwise. -/
def ithBitMask (num : UInt128) (i : Nat) : UInt128 :=
  let mi := 127 - i
  let proj := one128 <<< mi
  let res := num &&& proj
  eqMask res proj

def gf128ShiftReduce (a : UInt128) : UInt128 :=
  let msk0 := ithBitMask a 127
  let mskRMul := rMul &&& msk0
  let av := a >>> 1
  av ^^^ mskRMul

def gf128CondFadd (x y z : UInt128) (i : Nat) : UInt128 :=
  let mski := ithBitMask y i
  let mskX := x &&& mski
  z ^^^ mskX

/-- The loop when `rest` bits of `y` are left. -/
def gf128MulLoop (x y z : UInt128) : Nat → UInt128
  | 0 => z
  | rest + 1 => gf128MulLoop (gf128ShiftReduce x) y (gf128CondFadd x y z (127 - rest)) rest

def gf128Mul (x y : UInt128) : UInt128 := gf128MulLoop x y zero128 128

def addAndMultiply (acc block k : UInt128) : UInt128 := gf128Mul (gf128Add acc block) k

def finish (a : UInt128) (s : Bytes) : UInt128 := a ^^^ load128Be s

theorem ones128_eq : ones128 = BitVec.allOnes 128 := by decide

/-- A mask of all ones selects every bit, and a mask of zeros none. -/
theorem and_mask (a : UInt128) (bit : Bool) :
    (a &&& if bit then BitVec.allOnes 128 else 0) = if bit then a else 0 := by
  cases bit with
  | true => exact BitVec.and_allOnes
  | false => exact BitVec.and_zero

theorem rMul_eq : rMul = irr := by decide

/-- The mask of a set bit is all ones, and that of a clear bit is zero. -/
theorem ithBitMask_eq (num : UInt128) {i : Nat} (inside : i < 128) :
    ithBitMask num i = if num.getMsbD i then BitVec.allOnes 128 else 0 := by
  have bit : (num &&& one128 <<< (127 - i) = one128 <<< (127 - i)) ↔ num.getMsbD i = true := by
    have one : one128 <<< (127 - i) = BitVec.twoPow 128 (127 - i) := rfl
    have position : num.getMsbD i = num.getLsbD (127 - i) := by
      rw [BitVec.getMsbD_eq_getLsbD, decide_eq_true inside, Bool.true_and]
    rw [one, position, BitVec.and_twoPow]
    cases set : num.getLsbD (127 - i) with
    | true => simp
    | false =>
      have nonzero : BitVec.twoPow 128 (127 - i) ≠ 0#128 := by
        intro zero
        have top := congrArg (fun w => w.getLsbD (127 - i)) zero
        simp only [BitVec.getLsbD_twoPow, BitVec.getLsbD_zero] at top
        have small : 127 - i < 128 := by omega
        simp [small] at top
      simpa using fun zero => nonzero zero.symm
  simp only [ithBitMask, eqMask, bit, ones128_eq]
  rfl

theorem gf128ShiftReduce_eq (a : UInt128) : gf128ShiftReduce a = shiftReduce a := by
  rw [gf128ShiftReduce, ithBitMask_eq a (by decide), and_mask, rMul_eq, shiftReduce]
  cases a.getMsbD 127 with
  | true => rfl
  | false => exact fadd_zero _

theorem gf128CondFadd_eq (x y z : UInt128) {i : Nat} (inside : i < 128) :
    gf128CondFadd x y z i = condFadd x y z i := by
  rw [gf128CondFadd, ithBitMask_eq y inside, and_mask, condFadd]
  cases y.getMsbD i with
  | true => rfl
  | false => exact fadd_zero _

/-- The loop adds the multiples that are left to what it has accumulated. -/
theorem gf128MulLoop_eq (x y z : UInt128) {rest : Nat} (inside : rest ≤ 128) :
    gf128MulLoop x y z rest = fadd (fmulLoop x y rest) z := by
  -- Induction on the number of bits that are left.
  induction rest generalizing x z with
  | zero => exact (zero_fadd z).symm
  | succ rest ih =>
    rw [gf128MulLoop, ih _ _ (by omega), gf128ShiftReduce_eq, gf128CondFadd_eq _ _ _ (by omega), fmulLoop]
    simp only [condFadd]
    split
    · simp only [fadd]
      ac_rfl
    · rfl

theorem gf128Mul_eq (x y : UInt128) : gf128Mul x y = fmul x y := by
  rw [gf128Mul, gf128MulLoop_eq x y _ le_rfl]
  exact fadd_zero _

theorem addAndMultiply_eq (acc block k : UInt128) :
    addAndMultiply acc block k = fmul (fadd acc block) k := gf128Mul_eq _ _

/-- A whole block is loaded as its element. -/
theorem load128Be_eq {b : Bytes} (size : b.length = 16) : load128Be b = encode b := (encode_block size).symm

/-- The mask is added, and the sum is stored. -/
theorem finish_eq (a : UInt128) {s : Bytes} (size : s.length = 16) :
    store128Be (finish a s) = Spec.GF128.finish a s := by
  rw [finish, load128Be_eq size]
  rfl

end HaclStar.Impl.GF128
