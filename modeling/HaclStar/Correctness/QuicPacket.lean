import HaclStar.SecureApi.QuicPacket

/-! Packets of one key use different nonces, and come back as they were sent. -/

namespace HaclStar.Correctness.QuicPacket

open Endianness Memory SecureApi SecureApi.PRF SecureApi.AEAD SecureApi.Quic

variable {i : Id} {fl : Flags} {key ad plain out buffer : Bytes} {sn sn' : UInt64}
  {packet packet' : QuicKey i} {w : AEAD.World i}

/-- A key of the derivation holds the state of its bytes. -/
theorem coerceKey_run (clear : fl.prf i = false) {dkey staticIv : Bytes} (long : PRF.keylen i ≤ dkey.length)
    (ivSize : staticIv.length = 12) :
    coerceKey fl i dkey staticIv ivSize =
      some (⟨realState fl i (dkey.take (PRF.keylen i)), staticIv, ivSize⟩, ⟨⟨[], [], staticPoints i⟩, []⟩) := by
  have size : (dkey.take (PRF.keylen i)).length = PRF.keylen i := by rw [List.length_take]; omega
  rw [coerceKey, coerce_run clear size, Option.map_some]

/-- The bytes that a packet is sealed to. -/
def sealedPacket (fl : Flags) (i : Id) (key : Bytes) (n : Cipher.Iv) (ad plain : Bytes) : Bytes :=
  padded fl i key n plain ++ authTag fl i key n ad (padded fl i key n plain)

@[simp] theorem sealedPacket_length (fl : Flags) (i : Id) (key : Bytes) (n : Cipher.Iv) (ad plain : Bytes) :
    (sealedPacket fl i key n ad plain).length = plain.length + 16 := by
  rw [sealedPacket, List.length_append, padded_length, authTag_length]

/-- A packet is sealed to the beginning of the buffer, at the points of its nonce. -/
theorem encrypt_run (coins : Coins) (clear : fl.prf i = false) (size : key.length = PRF.keylen i)
    (state : packet.st = realState fl i key) (room : plain.length + 16 ≤ out.length) (sn : UInt64) (ad : Bytes)
    (w : AEAD.World i) :
    ∃ w', quicCryptoEncrypt fl coins packet out sn ad plain w =
        some (1, sealedPacket fl i key ((packetNonce packet sn).setWidth 96) ad plain ++ out.drop (plain.length + 16), w') ∧
      w'.prf.requested = w.prf.requested ++ encryptPoints i ((packetNonce packet sn).setWidth 96) plain.length := by
  have space : (out.take (plain.length + 16)).length = plain.length + 16 := by rw [List.length_take]; omega
  obtain ⟨logs, ran⟩ := encrypt_real coins clear size space ((packetNonce packet sn).setWidth 96) ad w
  rw [← sealedPacket] at ran
  refine ⟨⟨⟨w.prf.table, logs, w.prf.requested ++
    encryptPoints i ((packetNonce packet sn).setWidth 96) plain.length⟩, w.log⟩, ?_, rfl⟩
  simp only [quicCryptoEncrypt, state, ran, Option.bind_eq_bind, Option.bind_some, splice_start, sealedPacket_length,
    Option.pure_def]

/-- A packet that is long enough is opened when its tag is right. -/
theorem decrypt_run (coins : Coins) (clear : fl.prf i = false) (size : key.length = PRF.keylen i)
    (state : packet.st = realState fl i key) (fits : plain.length + 16 < 2 ^ 32) (room : plain.length ≤ buffer.length)
    (sn : UInt64) (ad rest : Bytes) (w : AEAD.World i) :
    ∃ w', quicCryptoDecrypt fl coins packet buffer sn ad
        (sealedPacket fl i key ((packetNonce packet sn).setWidth 96) ad plain ++ rest)
        (UInt32.ofNat (plain.length + 16)) w = some (1, plain ++ buffer.drop plain.length, w') := by
  have total : (UInt32.ofNat (plain.length + 16)).toNat = plain.length + 16 := by
    rw [UInt32.toNat_ofNat', Nat.mod_eq_of_lt fits]
  have taglen : (UInt32.ofNat MAC.taglen).toNat = 16 := rfl
  have long : ¬ UInt32.ofNat (plain.length + 16) < UInt32.ofNat MAC.taglen := by
    rw [UInt32.lt_iff_toNat_lt, total, taglen]
    omega
  have plainLen : (UInt32.ofNat (plain.length + 16) - UInt32.ofNat MAC.taglen).toNat = plain.length := by
    rw [UInt32.toNat_sub_of_le _ _ (UInt32.not_lt.mp long), total, taglen, Nat.add_sub_cancel]
  have space : (buffer.take plain.length).length = plain.length := by rw [List.length_take]; omega
  obtain ⟨w', ran⟩ := decrypt_real coins clear size
    (space.trans (padded_length fl i key ((packetNonce packet sn).setWidth 96) plain).symm)
    (authTag_length fl i key ((packetNonce packet sn).setWidth 96) ad
      (padded fl i key ((packetNonce packet sn).setWidth 96) plain)) ((packetNonce packet sn).setWidth 96) ad w
  rw [if_pos rfl, padded_padded, decide_eq_true rfl, ← sealedPacket] at ran
  have whole : (sealedPacket fl i key ((packetNonce packet sn).setWidth 96) ad plain ++ rest).take (plain.length + 16) =
      sealedPacket fl i key ((packetNonce packet sn).setWidth 96) ad plain :=
    List.take_left' (sealedPacket_length fl i key _ ad plain)
  refine ⟨w', ?_⟩
  rw [quicCryptoDecrypt, if_neg long]
  simp only [plainLen, total, whole, state, ran, Option.bind_eq_bind, Option.bind_some, splice_start, if_true,
    Option.pure_def]

/-- The points of different nonces are different. -/
theorem encryptPoints_disjoint {n n' : Cipher.Iv} (different : n ≠ n') (l l' : Nat) :
    List.Disjoint (encryptPoints i n l) (encryptPoints i n' l') := by
  have iv (n : Cipher.Iv) (l : Nat) : ∀ x ∈ encryptPoints i n l, x.iv = n := by
    intro x member
    rcases List.mem_cons.mp member with rfl | later
    · rfl
    · obtain ⟨j, -, rfl⟩ := List.mem_map.mp later
      rfl
  intro x first second
  exact different ((iv n l x first).symm.trans (iv n' l' x second))

/--
With every derived key, different packet numbers have different nonces of 96 bits, and packets share no point
of the block function.

A packet is opened under its number and additional data to what was sealed, and one without room for a tag is
refused with nothing written.
-/
theorem quic_packets (clear : fl.prf i = false) (coins : Coins) {dkey staticIv : Bytes}
    (long : PRF.keylen i ≤ dkey.length) (ivSize : staticIv.length = 12) :
    ∃ packet w0, coerceKey fl i dkey staticIv ivSize = some (packet, w0) ∧
      (∀ sn sn', sn ≠ sn' → packetNonce packet sn ≠ packetNonce packet sn' ∧ (packetNonce packet sn).toNat < 2 ^ 96) ∧
      (∀ sn sn' ad ad' plain plain' out out' w w', sn ≠ sn' → plain.length + 16 ≤ out.length →
        plain'.length + 16 ≤ out'.length → ∃ cipher cipher' used used' w1 w1',
          quicCryptoEncrypt fl coins packet out sn ad plain w = some (1, cipher, w1) ∧
          quicCryptoEncrypt fl coins packet out' sn' ad' plain' w' = some (1, cipher', w1') ∧
          w1.prf.requested = w.prf.requested ++ used ∧ w1'.prf.requested = w'.prf.requested ++ used' ∧
          List.Disjoint used used') ∧
      (∀ sn ad plain out buffer w w', plain.length + 16 < 2 ^ 32 → plain.length + 16 ≤ out.length →
        plain.length ≤ buffer.length → ∃ cipher w1 w2,
          quicCryptoEncrypt fl coins packet out sn ad plain w = some (1, cipher, w1) ∧
          quicCryptoDecrypt fl coins packet buffer sn ad cipher (UInt32.ofNat (plain.length + 16)) w' =
            some (1, plain ++ buffer.drop plain.length, w2)) ∧
      (∀ sn ad cipher (cipherLen : UInt32) buffer w, cipherLen < 16 →
        quicCryptoDecrypt fl coins packet buffer sn ad cipher cipherLen w = some (0, buffer, w)) := by
  have size : (dkey.take (PRF.keylen i)).length = PRF.keylen i := by rw [List.length_take]; omega
  obtain ⟨packet, isKey⟩ : ∃ packet : QuicKey i, packet = ⟨realState fl i (dkey.take (PRF.keylen i)), staticIv, ivSize⟩ :=
    ⟨_, rfl⟩
  have state : packet.st = realState fl i (dkey.take (PRF.keylen i)) := by rw [isKey]
  refine ⟨packet, _, isKey ▸ coerceKey_run clear long ivSize, ?_, ?_, ?_, ?_⟩
  · intro sn sn' different
    exact ⟨fun same => different (packetNonce_injective _ same), packetNonce_lt _ sn⟩
  · intro sn sn' ad ad' plain plain' out out' w w' different room room'
    obtain ⟨w1, ran, used⟩ := encrypt_run coins clear size state room sn ad w
    obtain ⟨w1', ran', used'⟩ := encrypt_run coins clear size state room' sn' ad' w'
    exact ⟨_, _, _, _, w1, w1', ran, ran', used, used',
      encryptPoints_disjoint (packetNonce_setWidth_injective _ different) _ _⟩
  · intro sn ad plain out buffer w w' fits room room'
    obtain ⟨w1, ran, -⟩ := encrypt_run coins clear size state room sn ad w
    obtain ⟨w2, ran'⟩ := decrypt_run coins clear size state fits room' sn ad (out.drop (plain.length + 16)) w'
    exact ⟨_, w1, w2, ran, ran'⟩
  · intro sn ad cipher cipherLen buffer w short
    exact if_pos short

/-- A packet of three bytes, sealed and opened under a key of zeros. -/
theorem quic_packets_short :
    ∃ (packet : QuicKey .chacha20Poly1305) (w0 : AEAD.World .chacha20Poly1305),
      coerceKey Flags.real .chacha20Poly1305 (List.replicate 32 0) (List.replicate 12 0) List.length_replicate =
        some (packet, w0) ∧ packetNonce packet 1 ≠ packetNonce packet 2 ∧
      ∃ cipher w1 w2,
        quicCryptoEncrypt Flags.real (fun _ _ => 0) packet (List.replicate 19 0) 1 [4] [1, 2, 3] w0 =
          some (1, cipher, w1) ∧
        quicCryptoDecrypt Flags.real (fun _ _ => 0) packet (List.replicate 3 0) 1 [4] cipher (UInt32.ofNat 19) w0 =
          some (1, [1, 2, 3] ++ (List.replicate 3 0).drop 3, w2) := by
  obtain ⟨packet, w0, made, nonces, -, opened, -⟩ := @quic_packets .chacha20Poly1305 Flags.real rfl
    (fun _ _ => 0) (List.replicate 32 0) (List.replicate 12 0) (by decide) List.length_replicate
  obtain ⟨cipher, w1, w2, ran, ran'⟩ :=
    opened 1 [4] [1, 2, 3] (List.replicate 19 0) (List.replicate 3 0) w0 w0 (by decide) (by decide) (by decide)
  exact ⟨packet, w0, made, (nonces 1 2 (by decide)).1, cipher, w1, w2, ran, ran'⟩

end HaclStar.Correctness.QuicPacket
