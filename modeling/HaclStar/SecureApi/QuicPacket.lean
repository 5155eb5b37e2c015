import HaclStar.SecureApi.AEADReal
import HaclStar.SecureApi.Bytes

/-! The packets of the QUIC provider: a packet number and a static vector make the nonce of a packet. -/

namespace HaclStar.SecureApi.Quic

open Endianness Memory PRF

/-- A key: the instance, and the static vector. -/
structure QuicKey (i : Id) where
  st : AEAD.State i
  staticIv : Bytes
  ivSize : staticIv.length = 12

section

variable {i : Id} (fl : Flags) (coins : Coins)

/-- The key that the two derived strings make. The buffer of the first is as large as the longest key. -/
def coerceKey (i : Id) (dkey staticIv : Bytes) (ivSize : staticIv.length = 12) : Option (QuicKey i × AEAD.World i) :=
  (AEAD.coerce fl i (dkey.take (PRF.keylen i))).map fun (st, w) => (⟨st, staticIv, ivSize⟩, w)

/-- Combine the packet number with the last eight bytes of a vector, its highest byte first. -/
def snToIv (iv : Bytes) (sn : UInt64) : Bytes :=
  (List.range' 4 8).foldl
    (fun iv i => iv.set i (iv.getD i 0 ^^^ ((sn >>> UInt64.ofNat (88 - (i <<< 3))) &&& 255).toUInt8)) iv

/-- The nonce of a packet. -/
def packetNonce (key : QuicKey i) (sn : UInt64) : BitVec 128 :=
  let iv := snToIv key.staticIv sn
  loadUint128 12 iv

/-- Encrypt a packet to the beginning of a buffer. -/
def quicCryptoEncrypt (key : QuicKey i) (cipher : Bytes) (sn : UInt64) (ad plain : Bytes) (w : AEAD.World i) :
    Option (Int × Bytes × AEAD.World i) := do
  let n := packetNonce key sn
  let (sealed, w) ← AEAD.encrypt fl coins key.st (n.setWidth 96) ad plain (cipher.take (plain.length + 16)) w
  return (1, splice cipher 0 sealed, w)

/-- Decrypt a packet to the beginning of a buffer. -/
def quicCryptoDecrypt (key : QuicKey i) (plain : Bytes) (sn : UInt64) (ad cipher : Bytes) (cipherLen : UInt32)
    (w : AEAD.World i) : Option (Int × Bytes × AEAD.World i) :=
  if cipherLen < UInt32.ofNat MAC.taglen then some (0, plain, w)
  else do
    let n := packetNonce key sn
    let plainLen := cipherLen - UInt32.ofNat MAC.taglen
    let (r, opened, w) ← AEAD.decrypt fl coins key.st (n.setWidth 96) ad (plain.take plainLen.toNat)
      (cipher.take cipherLen.toNat) w
    return (if r then 1 else 0, splice plain 0 opened, w)

end

/-- A byte of a packet number, counted from its highest one. -/
def snByte (sn : UInt64) (k : Nat) : UInt8 := ((sn >>> UInt64.ofNat (56 - 8 * k)) &&& 255).toUInt8

variable {i : Id} {fl : Flags} {coins : Coins} {iv plain : Bytes} {sn sn' : UInt64}

/-- A byte of a packet number is one of its digits. -/
theorem snByte_toNat (sn : UInt64) {k : Nat} (inside : k < 8) :
    (snByte sn k).toNat = sn.toNat / 2 ^ (56 - 8 * k) % 256 := by
  have mask (n : Nat) : n &&& 255 = n % 256 := Nat.and_two_pow_sub_one_eq_mod n 8
  have shift : (UInt64.ofNat (56 - 8 * k)).toNat % 64 = 56 - 8 * k := by
    rw [UInt64.toNat_ofNat']
    omega
  rw [snByte, UInt64.toNat_toUInt8, UInt64.toNat_and, UInt64.toNat_shiftRight, shift, Nat.shiftRight_eq_div_pow,
    show (255 : UInt64).toNat = 255 from rfl, mask, Nat.mod_mod]

/-- Its eight bytes determine a packet number. -/
theorem sn_of_bytes (same : ∀ k < 8, snByte sn k = snByte sn' k) : sn = sn' := by
  apply UInt64.toNat.inj
  have digit (k : Nat) (inside : k < 8) :
      sn.toNat / 2 ^ (56 - 8 * k) % 256 = sn'.toNat / 2 ^ (56 - 8 * k) % 256 := by
    rw [← snByte_toNat sn inside, ← snByte_toNat sn' inside, same k inside]
  -- A bit of a packet number is a bit of the byte it lies in.
  apply Nat.eq_of_testBit_eq
  intro j
  by_cases inside : j < 64
  · have byte := congrArg (Nat.testBit · (j % 8)) (digit (7 - j / 8) (by omega))
    have position : 56 - 8 * (7 - j / 8) + j % 8 = j := by omega
    have lower : j % 8 < 8 := Nat.mod_lt j (by decide)
    simpa only [show 256 = 2 ^ 8 from rfl, Nat.testBit_mod_two_pow, Nat.testBit_div_two_pow, Nat.add_comm (j % 8),
      position, lower, decide_true, Bool.true_and] using byte
  · have beyond : 2 ^ 64 ≤ 2 ^ j := Nat.pow_le_pow_right (by decide) (Nat.le_of_not_lt inside)
    rw [Nat.testBit_lt_two_pow (sn.toNat_lt.trans_le beyond), Nat.testBit_lt_two_pow (sn'.toNat_lt.trans_le beyond)]

/-- The packet number is combined with the last eight bytes, and leaves the others. -/
theorem snToIv_eq (size : iv.length = 12) (sn : UInt64) :
    snToIv iv sn = iv.take 4 ++ List.ofFn fun k : Fin 8 => iv.getD (4 + k) 0 ^^^ snByte sn k := by
  match iv, size with
  | [_, _, _, _, _, _, _, _, _, _, _, _], _ => rfl

@[simp] theorem snToIv_length (size : iv.length = 12) (sn : UInt64) : (snToIv iv sn).length = 12 := by
  rw [snToIv_eq size, List.length_append, List.length_take, List.length_ofFn, size]
  rfl

/-- Under one vector, different packet numbers make different vectors. -/
theorem snToIv_injective (size : iv.length = 12) (same : snToIv iv sn = snToIv iv sn') : sn = sn' := by
  rw [snToIv_eq size, snToIv_eq size] at same
  have bytes := List.ofFn_injective (List.append_cancel_left same)
  refine sn_of_bytes fun k inside => ?_
  exact (UInt8.xor_right_inj _).mp (congrFun bytes ⟨k, inside⟩)

section Nonces

variable (key : QuicKey i)

/-- A nonce has 96 bits. -/
theorem packetNonce_lt (sn : UInt64) : (packetNonce key sn).toNat < 2 ^ 96 := by
  have size := snToIv_length key.ivSize sn
  have bound := littleEndian_lt (snToIv key.staticIv sn)
  rw [packetNonce, loadUint128_toNat size.ge (by decide), List.take_of_length_le size.le]
  rw [size] at bound
  exact bound

/-- Under one key, different packets have different nonces. -/
theorem packetNonce_injective : Function.Injective (packetNonce key) := by
  intro sn sn' same
  have size := snToIv_length key.ivSize sn
  have size' := snToIv_length key.ivSize sn'
  have value := congrArg BitVec.toNat same
  rw [packetNonce, packetNonce, loadUint128_toNat size.ge (by decide), loadUint128_toNat size'.ge (by decide),
    List.take_of_length_le size.le, List.take_of_length_le size'.le] at value
  exact snToIv_injective key.ivSize (littleEndian_injective (size.trans size'.symm) value)

/-- No bit of a nonce is lost when it is handed to the encryption. -/
theorem packetNonce_setWidth_injective (different : sn ≠ sn') :
    (packetNonce key sn).setWidth 96 ≠ (packetNonce key sn').setWidth 96 := by
  intro same
  have value := congrArg BitVec.toNat same
  rw [BitVec.toNat_setWidth, BitVec.toNat_setWidth, Nat.mod_eq_of_lt (packetNonce_lt key sn),
    Nat.mod_eq_of_lt (packetNonce_lt key sn')] at value
  exact different (packetNonce_injective key (BitVec.eq_of_toNat_eq value))

end Nonces

end HaclStar.SecureApi.Quic
