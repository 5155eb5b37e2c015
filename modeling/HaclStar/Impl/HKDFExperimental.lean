import HaclStar.Lib.Stack

/-! The experimental HKDF over an authenticator with hashes of thirty-two bytes. -/

namespace HaclStar.Impl.HKDFExperimental

open Memory

/-- The bytes of a hash. -/
def hashsize : UInt32 := 32

/-- The authenticator that the expansion calls: output, key and its length, data and its length. -/
abbrev Hmac := Buffer → Buffer → UInt32 → Buffer → UInt32 → Stack Unit

/-- Extraction is the authenticator of the input under the salt. -/
def hkdfExtract (hmac : Hmac) (prk salt : Buffer) (saltlen : UInt32) (ikm : Buffer) (ikmlen : UInt32) : Stack Unit :=
  hmac prk salt saltlen ikm ikmlen

/-- Block number one, with the context at the start of the whole input. -/
def hkdfExpandFirst (hmac : Hmac) (ti til t prk : Buffer) (prklen : UInt32) (info : Buffer) (infolen i : UInt32) :
    Stack Unit := do
  let sizeTil := hashsize + infolen + 1
  Buffer.blit info 0 til 0 infolen.toNat
  til.upd (sizeTil - 1).toNat i.toUInt8
  hmac ti prk prklen til sizeTil
  Buffer.blit ti 0 t 0 hashsize.toNat

/-- A block behind another one. Its place is computed with the wrap-around of words. -/
def hkdfExpandNext (hmac : Hmac) (ti til t prk : Buffer) (prklen : UInt32) (info : Buffer) (infolen i : UInt32) :
    Stack Unit := do
  let sizeTil := hashsize + infolen + 1
  Buffer.blit ti 0 til 0 hashsize.toNat
  Buffer.blit info 0 til hashsize.toNat infolen.toNat
  til.upd (sizeTil - 1).toNat i.toUInt8
  hmac ti prk prklen til sizeTil
  let pos := (i - 1) * hashsize
  Buffer.blit ti 0 t pos.toNat hashsize.toNat

/-- Compute the blocks from number `i` to number `n`. -/
def hkdfExpandInner (hmac : Hmac) (state prk : Buffer) (prklen : UInt32) (info : Buffer) (infolen n : UInt32)
    (few : n.toNat ≤ 2 ^ 8) (i : UInt32) : Stack Unit := inFrame do
  let sizeT := n * hashsize
  let sizeTi := hashsize
  let sizeTil := hashsize + infolen + 1
  let posTi : UInt32 := 0
  let posTil := sizeTi
  let posT := posTil + sizeTil
  let ti ← state.sub posTi.toNat sizeTi.toNat
  let til ← state.sub posTil.toNat sizeTil.toNat
  let t ← state.sub posT.toNat sizeT.toNat
  if first : i = 1 then
    hkdfExpandFirst hmac ti til t prk prklen info infolen i
    hkdfExpandInner hmac state prk prklen info infolen n few (i + 1)
  else if more : i ≤ n then
    hkdfExpandNext hmac ti til t prk prklen info infolen i
    hkdfExpandInner hmac state prk prklen info infolen n few (i + 1)
  else pure ()
termination_by n.toNat + 2 - i.toNat
decreasing_by
  · subst first
    show n.toNat + 2 - 2 < n.toNat + 2 - 1
    omega
  · have le := UInt32.le_iff_toNat_le.mp more
    have next : (i + 1).toNat = i.toNat + 1 := by
      rw [UInt32.toNat_add]
      show (i.toNat + 1) % 2 ^ 32 = _
      omega
    omega

/-- An output that is allowed needs few blocks. -/
theorem blocks_few {len : UInt32} (fits : len.toNat ≤ 255 * hashsize.toNat) : (len / hashsize + 1).toNat ≤ 2 ^ 8 := by
  have bound : len.toNat ≤ 255 * 32 := fits
  rw [UInt32.toNat_add, UInt32.toNat_div]
  show (len.toNat / 32 + 1) % 2 ^ 32 ≤ 2 ^ 8
  omega

/-- Compute the blocks from number zero on, and copy `len` bytes of them. -/
def hkdfExpand (hmac : Hmac) (okm prk : Buffer) (prklen : UInt32) (info : Buffer) (infolen len : UInt32)
    (fits : len.toNat ≤ 255 * hashsize.toNat) : Stack Unit := inFrame do
  let n := len / hashsize + 1
  let sizeT := n * hashsize
  let sizeTi := hashsize
  let sizeTil := hashsize + infolen + 1
  let posTil := sizeTi
  let posT := posTil + sizeTil
  let state ← create (sizeTi + sizeTil + sizeT).toNat
  hkdfExpandInner hmac state prk prklen info infolen n (blocks_few fits) 0
  let t ← state.sub posT.toNat sizeT.toNat
  Buffer.blit t 0 okm 0 len.toNat

section Runs

variable {hmac : Hmac} {h : Mem} {ti til t state prk info : Buffer} {prklen infolen n : UInt32}

/-- The place of block number zero is one block below zero, outside of every buffer. -/
theorem hkdfExpandNext_fault (size : t.length < 2 ^ 32) :
    hkdfExpandNext hmac ti til t prk prklen info infolen 0 h = none := by
  have place : (((0 : UInt32) - 1) * hashsize).toNat = 2 ^ 32 - 32 := by decide
  have width : hashsize.toNat = 32 := rfl
  -- Whatever happens before, the copy leaves the buffer.
  refine Stack.bind_fault_of_forall _ fun _ _ => Stack.bind_fault_of_forall _ fun _ _ =>
    Stack.bind_fault_of_forall _ fun _ _ => Stack.bind_fault_of_forall _ fun _ m => ?_
  refine Stack.bind_fault_of_forall _ fun src m => ?_
  exact Stack.bind_fault (Buffer.sub_fault t (by rw [place, width]; omega)) _

/-- Hence the recursion faults when it starts at block number zero. -/
theorem hkdfExpandInner_fault (few : n.toNat ≤ 2 ^ 8) :
    hkdfExpandInner hmac state prk prklen info infolen n few 0 h = none := by
  rw [hkdfExpandInner]
  apply inFrame_fault
  refine Stack.bind_fault_of_forall _ fun ti _ => Stack.bind_fault_of_forall _ fun til _ =>
    Stack.bind_fault_after fun t m found => ?_
  obtain ⟨rfl, -⟩ := Buffer.sub_some found
  -- Number zero is not number one, and it is not beyond the last number.
  have zero : (0 : UInt32) ≤ n := by
    rw [UInt32.le_iff_toNat_le]
    exact Nat.zero_le _
  rw [dif_neg (by decide), dif_pos zero]
  exact Stack.bind_fault (hkdfExpandNext_fault (UInt32.toNat_lt _)) _

/-- Every expansion faults. -/
theorem hkdfExpand_fault (okm : Buffer) {len : UInt32} (fits : len.toNat ≤ 255 * hashsize.toNat) :
    hkdfExpand hmac okm prk prklen info infolen len fits h = none := by
  apply inFrame_fault
  exact Stack.bind_fault_of_forall _ fun state _ => Stack.bind_fault (hkdfExpandInner_fault _) _

end Runs

end HaclStar.Impl.HKDFExperimental
