import HaclStar.Impl.GCM

/-! The polynomial hash on byte strings again, whose loop stops when nothing is left.
The shift, the masks and the loop of the multiplication are those of the other implementation. -/

namespace HaclStar.Impl.GF128Bytes

open Endianness Memory Spec.GF128 GCM

/-- Add the bytes before position `dep`, from the first one on. -/
def gf128AddLoop (a b : Bytes) : Nat → Bytes
  | 0 => a
  | i + 1 =>
    let a := gf128AddLoop a b i
    a.set i (a.getD i 0 ^^^ b.getD i 0)

def gf128Add (a b : Bytes) : Bytes := gf128AddLoop a b 16

def gf128Mul (a b : Bytes) : Bytes :=
  gf128MulLoop gf128Add a b (List.replicate 16 0) (List.replicate 16 0) 128

def addAndMultiply (a e k : Bytes) : Bytes := gf128Mul (gf128Add a e) k

def finish (a s : Bytes) : Bytes := gf128Add a s

/-- Absorb what is left of a string from position `dep` on, with zeros behind it. -/
def ghashLoop_ (tag authKey str : Bytes) (len dep : Nat) : Bytes :=
  let last := splice (List.replicate 16 0) 0 ((str.drop dep).take (len - dep))
  addAndMultiply tag last authKey

/-- Absorb a string from position `dep` on. -/
def ghashLoop (tag authKey str : Bytes) (len dep : Nat) : Bytes :=
  -- Appending zeros if the last block is not a complete one.
  let rest := len - dep
  if rest ≠ 0 then
    if 16 ≥ rest then ghashLoop_ tag authKey str len dep
    else
      let next := dep + 16
      let si := (str.drop dep).take 16
      let tag := addAndMultiply tag si authKey
      ghashLoop tag authKey str len next
  else tag
termination_by len - dep

/-- The hash of additional data and a ciphertext. -/
def ghash (k ad : Bytes) (adlen : UInt32) (ciphertext : Bytes) (len : UInt32) : Bytes :=
  let lenInfo := List.replicate 16 0
  let lenInfo := mkLenInfo lenInfo adlen len
  let tag := List.replicate 16 0
  let tag := ghashLoop tag k ad adlen.toNat 0
  let tag := ghashLoop tag k ciphertext len.toNat 0
  addAndMultiply tag lenInfo k

variable {a b tag authKey str : Bytes}

@[simp] theorem gf128AddLoop_length (a b : Bytes) (dep : Nat) : (gf128AddLoop a b dep).length = a.length := by
  induction dep with
  | zero => rfl
  | succ i ih => rw [gf128AddLoop, List.length_set, ih]

/-- The bytes before position `dep` are added. -/
theorem gf128AddLoop_getD (a b : Bytes) {dep : Nat} (inside : dep ≤ a.length) (j : Nat) :
    (gf128AddLoop a b dep).getD j 0 = if j < dep then a.getD j 0 ^^^ b.getD j 0 else a.getD j 0 := by
  -- Induction on the number of bytes: the last one is added last.
  induction dep generalizing j with
  | zero => rfl
  | succ i ih =>
    have before : (gf128AddLoop a b i).getD i 0 = a.getD i 0 := by
      rw [ih (by omega) i, if_neg (Nat.lt_irrefl i)]
    simp only [gf128AddLoop]
    rw [getD_set _ _ _ (by rw [gf128AddLoop_length]; omega), before, ih (by omega) j]
    by_cases here : i = j
    · subst here
      simp
    · rw [if_neg here]
      by_cases before : j < i
      · rw [if_pos before, if_pos (by omega)]
      · rw [if_neg before, if_neg (by omega)]

/-- Adding from the first byte or from the last one gives the same sum. -/
theorem gf128Add_eq (size : a.length = 16) : gf128Add a b = GCM.gf128Add a b := by
  apply List.ext_getElem (by rw [gf128Add, gf128AddLoop_length, GCM.gf128Add_length])
  intro j inside inside'
  have here := gf128AddLoop_getD a b size.ge j
  have there := GCM.gf128AddLoop_getD a b size.ge j
  rw [List.getElem_eq_getD (0 : UInt8), List.getElem_eq_getD (0 : UInt8), gf128Add, here, GCM.gf128Add, there]

@[simp] theorem gf128Add_length (a b : Bytes) : (gf128Add a b).length = a.length :=
  gf128AddLoop_length a b 16

@[simp] theorem gf128Mul_length (a b : Bytes) : (gf128Mul a b).length = 16 :=
  gf128MulLoop_length gf128Add_length a b _ _ 128

theorem encode_gf128Add (size : a.length = 16) (size' : b.length = 16) :
    encode (gf128Add a b) = fadd (encode a) (encode b) := by
  rw [gf128Add_eq size, GCM.encode_gf128Add size size']

theorem encode_gf128Mul (size : a.length = 16) (size' : b.length = 16) :
    encode (gf128Mul a b) = fmul (encode a) (encode b) := by
  have zeros : encode (List.replicate 16 0) = zero := by decide
  have long : (List.replicate 16 (0 : UInt8)).length = 16 := List.length_replicate
  rw [gf128Mul, gf128MulLoop_encode gf128Add_length (fun x y => encode_gf128Add) size size' long long le_rfl, zeros,
    fadd_zero, fmul]

@[simp] theorem addAndMultiply_length (a e k : Bytes) : (addAndMultiply a e k).length = 16 := gf128Mul_length _ _

theorem encode_addAndMultiply {e k : Bytes} (size : a.length = 16) (size' : e.length = 16) (sizeK : k.length = 16) :
    encode (addAndMultiply a e k) = fmul (fadd (encode e) (encode a)) (encode k) := by
  rw [addAndMultiply, encode_gf128Mul (by rw [gf128Add_length, size]) sizeK, encode_gf128Add size size', fadd_comm]

theorem ghashLoop_length (sizeT : tag.length = 16) (authKey str : Bytes) (len dep : Nat) :
    (ghashLoop tag authKey str len dep).length = 16 := by
  fun_induction ghashLoop tag authKey str len dep with
  | case1 tag dep rest some short => exact addAndMultiply_length _ _ _
  | case2 tag dep rest some long next si multiplied ih => exact ih (addAndMultiply_length _ _ _)
  | case3 tag dep rest none => exact sizeT

/-- A string is absorbed block by block. -/
theorem ghashLoop_encode (sizeT : tag.length = 16) (sizeK : authKey.length = 16) (dep : Nat) :
    encode (ghashLoop tag authKey str str.length dep) =
      polyFrom (encode tag) (encodeBytes (str.drop dep)) (encode authKey) := by
  -- Induction along the loop: it stops when nothing is left, or after the last block.
  fun_induction ghashLoop tag authKey str str.length dep with
  | case1 tag dep rest some short =>
    have left : (str.drop dep).length = rest := List.length_drop
    have nonempty : str.drop dep ≠ [] := fun none => by
      rw [none, List.length_nil] at left
      omega
    have whole : (str.drop dep).take (str.length - dep) = str.drop dep := List.take_of_length_le left.le
    have size : (splice (List.replicate 16 0) 0 (str.drop dep)).length = 16 :=
      splice_length _ 0 _ (by rw [List.length_replicate, left]; omega)
    simp only [ghashLoop_, whole]
    rw [encode_addAndMultiply sizeT size sizeK, encode_splice (left.le.trans short), encodeBytes,
      Spec.Poly1305.encodeBytes_short nonempty (left.le.trans short), polyFrom_cons, polyFrom_nil]
  | case2 tag dep rest some long next si multiplied ih =>
    have size : si.length = 16 := by
      rw [List.length_take, List.length_drop]
      omega
    rw [ih (addAndMultiply_length _ _ _), encode_addAndMultiply sizeT size sizeK, encodeBytes, encodeBytes,
      Spec.Poly1305.encodeBytes_block (show 16 ≤ (str.drop dep).length by rw [List.length_drop]; omega), List.drop_drop,
      polyFrom_concat]
  | case3 tag dep rest none =>
    have empty : str.drop dep = [] := List.drop_of_length_le (by omega)
    rw [empty, encodeBytes, Spec.Poly1305.encodeBytes_nil, polyFrom_nil]

/-- The hash is the one specified, for every length of both strings. -/
theorem ghash_eq {k ad ciphertext : Bytes} {adlen len : UInt32} (sizeK : k.length = 16)
    (sizeA : adlen.toNat = ad.length) (sizeC : len.toNat = ciphertext.length) :
    ghash k ad adlen ciphertext len = decode (Spec.GF128.ghash (encode k) ad ciphertext) := by
  have zeros : encode (List.replicate 16 0) = zero := by decide
  have start : (List.replicate 16 (0 : UInt8)).length = 16 := List.length_replicate
  have block : (mkLenInfo (List.replicate 16 0) adlen len).length = 16 := by rw [mkLenInfo_eq]; simp
  have first := ghashLoop_length start k ad ad.length 0
  have second := ghashLoop_length first k ciphertext ciphertext.length 0
  simp only [ghash, sizeA, sizeC]
  rw [← decode_encode (addAndMultiply_length _ _ _), encode_addAndMultiply second block sizeK,
    ghashLoop_encode first sizeK, ghashLoop_encode start sizeK, List.drop_zero, List.drop_zero, zeros, mkLenInfo_eq,
    sizeA, sizeC, Spec.GF128.ghash_eq]

end HaclStar.Impl.GF128Bytes
