import HaclStar.Lib.Stack

/-! Machine integers in buffers of any number of bytes up to their own, in both byte orders.

The loaders and the stores recurse on the number of bytes, and differ in the end of the buffer that they treat last. -/

namespace HaclStar.SecureApi.BufferCodecs

open Endianness Memory

/-- Load an integer whose lowest byte comes first; `join` adds that byte to the others. -/
def loadLittle {w : Nat} (join : UInt8 → BitVec w → BitVec w) : Nat → Buffer → Stack (BitVec w)
  | 0, _ => return 0#w
  | len + 1, buf => do
    let rest ← buf.sub 1 len
    let m ← loadLittle join len rest
    let b ← buf.index 0
    return join b m

/-- Load an integer whose lowest byte comes last. -/
def loadBig {w : Nat} (join : UInt8 → BitVec w → BitVec w) : Nat → Buffer → Stack (BitVec w)
  | 0, _ => return 0#w
  | len + 1, buf => do
    let rest ← buf.sub 0 len
    let n ← loadBig join len rest
    let b ← buf.index len
    return join b n

/-- Store an integer with its lowest byte first, which is written after the others. -/
def storeLittle {w : Nat} : Nat → Buffer → BitVec w → Stack Unit
  | 0, _, _ => return ()
  | len + 1, buf, n => do
    let b := UInt8.ofBitVec (n.setWidth 8)
    let n' := n >>> 8
    let buf' ← buf.sub 1 len
    storeLittle len buf' n'
    buf.upd 0 b

/-- Store an integer with its lowest byte last. -/
def storeBig {w : Nat} : Nat → Buffer → BitVec w → Stack Unit
  | 0, _, _ => return ()
  | len + 1, buf, n => do
    let b := UInt8.ofBitVec (n.setWidth 8)
    let n' := n >>> 8
    let buf' ← buf.sub 0 len
    storeBig len buf' n'
    buf.upd len b

/-- A byte below the bytes of a word. -/
def joinUint32 (b : UInt8) (m : BitVec 32) : BitVec 32 := b.toBitVec.setWidth 32 + 256#32 * m

/-- A byte below the bytes of a double word of words, which are shifted. -/
def joinUint128 (b : UInt8) (n : BitVec 128) : BitVec 128 := b.toBitVec.setWidth 128 + n <<< 8

def loadUint32 := loadLittle joinUint32

def loadBig32 := loadBig joinUint32

def loadUint128 := loadLittle joinUint128

def loadBig128 := loadBig joinUint128

def storeUint32 := @storeLittle 32

def storeBig32 := @storeBig 32

def storeUint128 := @storeLittle 128

def storeBig128 := @storeBig 128

/-- A way of joining that puts a byte below a number, as long as the result fits. -/
def Joins {w : Nat} (join : UInt8 → BitVec w → BitVec w) : Prop :=
  ∀ b m, b.toNat + 2 ^ 8 * m.toNat < 2 ^ w → (join b m).toNat = b.toNat + 2 ^ 8 * m.toNat

theorem joins_uint32 : Joins joinUint32 := by
  intro b m fits
  have small := b.toNat_lt
  simp only [joinUint32, BitVec.toNat_add, BitVec.toNat_mul, BitVec.toNat_setWidth, UInt8.toNat_toBitVec,
    BitVec.toNat_ofNat]
  omega

theorem joins_uint128 : Joins joinUint128 := by
  intro b n fits
  have small := b.toNat_lt
  simp only [joinUint128, BitVec.toNat_add, BitVec.toNat_shiftLeft, Nat.shiftLeft_eq, BitVec.toNat_setWidth,
    UInt8.toNat_toBitVec]
  omega

variable {w : Nat} {h : Mem}

/-- The number that the bytes of a buffer stand for is loaded, the lowest byte first. -/
theorem loadLittle_run {join : UInt8 → BitVec w → BitVec w} (joins : Joins join) {buf : Buffer} {len : Nat}
    (live : h.Live buf) (size : buf.length = len) (fits : 8 * len ≤ w) :
    ∃ n, loadLittle join len buf h = some (n, h) ∧ n.toNat = littleEndian (h.read buf) := by
  -- Induction on the number of bytes: the first byte is added to the number that the others stand for.
  induction len generalizing buf with
  | zero =>
    have empty : h.read buf = [] := List.eq_nil_of_length_eq_zero (by rw [Mem.read_length live, size])
    exact ⟨0#w, rfl, by rw [empty, littleEndian, BitVec.toNat_ofNat, Nat.zero_mod]⟩
  | succ len ih =>
    have within : 1 + len ≤ buf.length := by omega
    obtain ⟨m, ran, value⟩ := ih (live.slice within) rfl (by omega)
    have inside : 0 < buf.length := by omega
    have bytes := Mem.read_length live
    have bound := littleEndian_lt (h.read buf)
    have most : 2 ^ (8 * (h.read buf).length) ≤ 2 ^ w := Nat.pow_le_pow_right Nat.two_pos (by omega)
    rw [Mem.read_slice _ _ within] at value
    rw [loadLittle, Stack.bind_run (Buffer.sub_run buf within), Stack.bind_run ran,
      Stack.bind_run (Buffer.index_run live inside)]
    refine ⟨_, rfl, ?_⟩
    generalize h.read buf = read at *
    cases read with
    | nil => simp only [List.length_nil] at bytes; omega
    | cons b rest =>
      have whole : ((b :: rest).drop 1).take len = rest := by
        rw [List.drop_succ_cons, List.drop_zero]
        exact List.take_of_length_le (by simp only [List.length_cons] at bytes; omega)
      rw [whole] at value
      rw [littleEndian] at bound ⊢
      rw [List.getD_cons_zero, joins b m (by rw [value]; omega), value]

/-- The number that the bytes of a buffer stand for is loaded, the lowest byte last. -/
theorem loadBig_run {join : UInt8 → BitVec w → BitVec w} (joins : Joins join) {buf : Buffer} {len : Nat}
    (live : h.Live buf) (size : buf.length = len) (fits : 8 * len ≤ w) :
    ∃ n, loadBig join len buf h = some (n, h) ∧ n.toNat = bigEndian (h.read buf) := by
  -- Induction on the number of bytes: the last byte is added to the number that the others stand for.
  induction len generalizing buf with
  | zero =>
    have empty : h.read buf = [] := List.eq_nil_of_length_eq_zero (by rw [Mem.read_length live, size])
    exact ⟨0#w, rfl, by rw [empty, BitVec.toNat_ofNat, Nat.zero_mod]; rfl⟩
  | succ len ih =>
    have within : 0 + len ≤ buf.length := by omega
    obtain ⟨n, ran, value⟩ := ih (live.slice within) rfl (by omega)
    have inside : len < buf.length := by omega
    have bytes := Mem.read_length live
    have bound := bigEndian_lt (h.read buf)
    have most : 2 ^ (8 * (h.read buf).length) ≤ 2 ^ w := Nat.pow_le_pow_right Nat.two_pos (by omega)
    rw [Mem.read_slice _ _ within, List.drop_zero] at value
    rw [loadBig, Stack.bind_run (Buffer.sub_run buf within), Stack.bind_run ran,
      Stack.bind_run (Buffer.index_run live inside)]
    refine ⟨_, rfl, ?_⟩
    have last : h.read buf = (h.read buf).take len ++ [(h.read buf).getD len 0] := by
      have at_len : len < (h.read buf).length := by omega
      rw [List.getD_eq_getElem _ _ at_len, ← List.take_succ_eq_append_getElem at_len]
      exact (List.take_of_length_le (by omega)).symm
    have total : bigEndian (h.read buf) = ((h.read buf).getD len 0).toNat + 2 ^ 8 * bigEndian ((h.read buf).take len) := by
      rw [← bigEndian_concat, ← last]
    rw [joins _ n (by rw [value]; omega), value, total]

/-- The byte that a store splits off, and what it goes on with. -/
theorem toNat_split (n : BitVec w) :
    UInt8.ofBitVec (n.setWidth 8) = UInt8.ofNat (n.toNat % 256) ∧ (n >>> 8).toNat = n.toNat / 256 := by
  constructor
  · apply UInt8.toNat_inj.mp
    rw [UInt8.toNat_ofBitVec, BitVec.toNat_setWidth, UInt8.toNat_ofNat']
    omega
  · rw [BitVec.toNat_ushiftRight, Nat.shiftRight_eq_div_pow]

/-- The low bytes of a number are stored, the lowest one first. -/
theorem storeLittle_run {buf : Buffer} {len : Nat} (live : h.Live buf) (size : buf.length = len) (fits : 8 * len ≤ w)
    (n : BitVec w) : storeLittle len buf n h = some ((), h.write buf (littleBytes len n.toNat)) := by
  -- Induction on the number of bytes: the recursive call writes behind the first one.
  induction len generalizing buf n with
  | zero => rw [littleBytes, Mem.write_nil live]; rfl
  | succ len ih =>
    have within : 1 + len ≤ buf.length := by omega
    obtain ⟨byte, rest⟩ := toNat_split n
    have behind := live.slice within
    have kept : (littleBytes len (n.toNat / 256)).length ≤ (buf.slice 1 len).length := by
      rw [littleBytes_length]
      exact le_rfl
    have first : 0 < buf.length := by omega
    have ran := ih behind rfl (by omega) (n >>> 8)
    rw [rest] at ran
    rw [storeLittle, Stack.bind_run (Buffer.sub_run buf within), Stack.bind_run ran,
      Buffer.upd_run (live.write behind kept) first, byte]
    -- The two windows are apart, so their order does not matter.
    have front := live.slice (i := 0) (n := 1) (by omega)
    rw [Mem.write_comm behind front kept le_rfl (Buffer.disjoint_slices buf (by omega)).symm,
      Mem.write_slice_zero]
    have joined := Mem.write_append live [UInt8.ofNat (n.toNat % 256)] (littleBytes len (n.toNat / 256)) len
      (by rw [littleBytes_length]; simp only [List.length_singleton]; omega) (by rw [littleBytes_length])
      (by simp only [List.length_singleton]; omega)
    exact congrArg (fun m => some ((), m)) joined

/-- The low bytes of a number are stored, the lowest one last. -/
theorem storeBig_run {buf : Buffer} {len : Nat} (live : h.Live buf) (size : buf.length = len) (fits : 8 * len ≤ w)
    (n : BitVec w) : storeBig len buf n h = some ((), h.write buf (bigBytes len n.toNat)) := by
  -- Induction on the number of bytes: the recursive call writes before the last one.
  induction len generalizing buf n with
  | zero => rw [bigBytes, Mem.write_nil live]; rfl
  | succ len ih =>
    have within : 0 + len ≤ buf.length := by omega
    obtain ⟨byte, rest⟩ := toNat_split n
    have before := live.slice within
    have kept : (bigBytes len (n.toNat / 256)).length ≤ buf.length := by
      rw [bigBytes_length]
      omega
    have last : len < buf.length := by omega
    have ran := ih before rfl (by omega) (n >>> 8)
    rw [rest, Mem.write_slice_zero] at ran
    rw [storeBig, Stack.bind_run (Buffer.sub_run buf within), Stack.bind_run ran,
      Buffer.upd_run (live.write live kept) last, byte]
    have joined := Mem.write_append live (bigBytes len (n.toNat / 256)) [UInt8.ofNat (n.toNat % 256)] 1
      (by rw [bigBytes_length]; simp only [List.length_singleton]; omega) le_rfl (by rw [bigBytes_length]; omega)
    rw [bigBytes_length] at joined
    exact congrArg (fun m => some ((), m)) joined

end HaclStar.SecureApi.BufferCodecs
