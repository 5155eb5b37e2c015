import HaclStar.Api.Chacha20Poly1305
import HaclStar.Correctness.SecretBox

/-! Authenticated encryption against its specification, and its round trip. -/

namespace HaclStar.Correctness.Aead

open Endianness Memory Api.Chacha20Poly1305 Spec.Chacha20Poly1305 Correctness.SecretBox

/-- The buffers of a message that is encrypted and decrypted again: what encryption writes overlaps
nothing that decryption needs. -/
structure RoundTrip (h : Mem) (c mac m m' aad k n : Buffer) (mlen aadlen : UInt32) : Prop where
  encryptArgs : EncryptArgs h c mac m aad k n mlen aadlen
  liveM' : h.Live m'
  sizeM' : m'.length = mlen.toNat
  views' : SameOrDisjoint m' c
  apartC : mac.Disjoint c
  apartAad : mac.Disjoint aad
  apartK : mac.Disjoint k
  apartN : mac.Disjoint n

variable {h h' : Mem} {c mac m m' aad k n c' mac' p aad' k' n' : Buffer} {mlen aadlen : UInt32}
  {mlen' aadlen' : UInt32}

/-- The memory after encryption holds the ciphertext, the tag and the arguments of decryption. -/
theorem encrypted (views : RoundTrip h c mac m m' aad k n mlen aadlen) :
    ∃ h1, aeadEncrypt c mac m mlen aad aadlen k n h = some (0, h1) ∧
      DecryptArgs h1 m' c mac aad k n mlen aadlen ∧
      (h1.read c, h1.read mac) = encrypt (h.read k) (h.read n) (h.read m) (h.read aad) ∧
      h1.read k = h.read k ∧ h1.read n = h.read n ∧ h1.read aad = h.read aad := by
  obtain ⟨args, liveM', sizeM', views', apartC, apartAad, apartK, apartN⟩ := views
  have ran := aeadEncrypt_run args
  have bytesM := Mem.read_length args.liveM
  set cipher := (encrypt (h.read k) (h.read n) (h.read m) (h.read aad)).1 with cipher_def
  set t := (encrypt (h.read k) (h.read n) (h.read m) (h.read aad)).2 with t_def
  have cipherSize : cipher.length = c.length := by
    rw [cipher_def, encrypt, Spec.Chacha20.chacha20EncryptBytes_length, bytesM, args.sizeM, args.sizeC]
  have tSize : t.length = mac.length := by
    rw [t_def, encrypt, poly1305Aad_length, args.macSize]
  have liveMac : (h.write c cipher).Live mac := args.liveMac.write args.liveC cipherSize.le
  have live (b : Buffer) (other : h.Live b) : ((h.write c cipher).write mac t).Live b :=
    (other.write args.liveC cipherSize.le).write liveMac tSize.le
  -- What neither of the two writes touches reads as before.
  have kept (b : Buffer) (first : c.Disjoint b) (second : mac.Disjoint b) :
      ((h.write c cipher).write mac t).read b = h.read b := by
    rw [Mem.read_write_disjoint liveMac tSize.le second,
      Mem.read_write_disjoint args.liveC cipherSize.le first]
  refine ⟨_, ran, ⟨live m' liveM', live c args.liveC, live mac args.liveMac, live aad args.liveAad,
    live k args.liveK, live n args.liveN, sizeM', args.sizeC, args.sizeAad, args.macSize, args.keySize,
    args.nonceSize, views'⟩, ?_, kept k args.apartK apartK, kept n args.apartN apartN,
    kept aad args.apartAad apartAad⟩
  rw [Mem.read_write_same liveMac tSize, Mem.read_write_disjoint liveMac tSize.le apartC,
    Mem.read_write_same args.liveC cipherSize]

/-- Decryption accepts exactly the tag of the ciphertext, and writes the message only then. -/
theorem decrypted (args : DecryptArgs h m c mac aad k n mlen aadlen) :
    ∃ r h1, aeadDecrypt m c mlen mac aad aadlen k n h = some (r, h1) ∧
      (r = 0 ↔ h.read mac = poly1305Aad (h.read k) (h.read n) (h.read c) (h.read aad)) ∧
      (r = 0 → decrypt (h.read k) (h.read n) (h.read c) (h.read mac) (h.read aad) = some (h1.read m)) ∧
      (r ≠ 0 → r = 1 ∧ h1.read m = h.read m) := by
  have bytesC := Mem.read_length args.liveC
  by_cases right : poly1305Aad (h.read k) (h.read n) (h.read c) (h.read aad) = h.read mac
  · have size : (Spec.Chacha20.chacha20EncryptBytes (h.read k) (h.read n) 1 (h.read c)).length =
        m.length := by
      rw [Spec.Chacha20.chacha20EncryptBytes_length, bytesC, args.sizeC, args.sizeM]
    refine ⟨0, _, aeadDecrypt_accept args right, ⟨fun _ => right.symm, fun _ => rfl⟩, fun _ => ?_,
      fun nonzero => absurd rfl nonzero⟩
    rw [decrypt, if_pos right, Mem.read_write_same args.liveM size]
  · exact ⟨1, h, aeadDecrypt_reject args right,
      ⟨fun zero => absurd zero (by decide), fun same => absurd same.symm right⟩,
      fun zero => absurd zero (by decide), fun _ => ⟨rfl, rfl⟩⟩

/-- Encryption writes the specification's ciphertext and tag, decryption accepts exactly the right tag,
and it undoes encryption. -/
theorem aead_correct (views : RoundTrip h c mac m m' aad k n mlen aadlen)
    (args : DecryptArgs h' p c' mac' aad' k' n' mlen' aadlen') :
    (∃ h1, aeadEncrypt c mac m mlen aad aadlen k n h = some (0, h1) ∧
      (h1.read c, h1.read mac) = encrypt (h.read k) (h.read n) (h.read m) (h.read aad) ∧
      ∃ h2, aeadDecrypt m' c mlen mac aad aadlen k n h1 = some (0, h2) ∧ h2.read m' = h.read m) ∧
    ∃ r h1, aeadDecrypt p c' mlen' mac' aad' aadlen' k' n' h' = some (r, h1) ∧
      (r = 0 ↔ h'.read mac' = poly1305Aad (h'.read k') (h'.read n') (h'.read c') (h'.read aad')) ∧
      (r = 0 → decrypt (h'.read k') (h'.read n') (h'.read c') (h'.read mac') (h'.read aad') =
        some (h1.read p)) ∧
      (r ≠ 0 → r = 1 ∧ h1.read p = h'.read p) := by
  refine ⟨?_, decrypted args⟩
  obtain ⟨h1, ran, args', written, readK, readN, readAad⟩ := encrypted views
  obtain ⟨r, h2, ran', accepts, restores, -⟩ := decrypted args'
  obtain ⟨readC, readMac⟩ := Prod.mk.inj written
  -- The tag that encryption has written is the one that decryption computes.
  have zero : r = 0 := accepts.mpr (by rw [readMac, readC, readK, readN, readAad])
  have restored := restores zero
  rw [readC, readMac, readK, readN, readAad] at restored
  have whole := (decrypt_encrypt (h.read k) (h.read n) (h.read m) (h.read aad)).symm.trans restored
  exact ⟨h1, ran, written, h2, zero ▸ ran', (Option.some.inj whole).symm⟩

/-- A zero message of seventeen bytes with five bytes of additional data, and a forged tag. -/
theorem aead_correct_zero :
    (∃ h1, aeadEncrypt (whole 0 17) (whole 1 16) (whole 2 17) 17 (whole 4 5) 5 (whole 5 32) (whole 6 12)
        (zeroMem [17, 16, 17, 17, 5, 32, 12]) = some (0, h1) ∧
      (h1.read (whole 0 17), h1.read (whole 1 16)) =
        encrypt ((zeroMem [17, 16, 17, 17, 5, 32, 12]).read (whole 5 32))
          ((zeroMem [17, 16, 17, 17, 5, 32, 12]).read (whole 6 12))
          ((zeroMem [17, 16, 17, 17, 5, 32, 12]).read (whole 2 17))
          ((zeroMem [17, 16, 17, 17, 5, 32, 12]).read (whole 4 5)) ∧
      ∃ h2, aeadDecrypt (whole 3 17) (whole 0 17) 17 (whole 1 16) (whole 4 5) 5 (whole 5 32)
          (whole 6 12) h1 = some (0, h2) ∧
        h2.read (whole 3 17) = (zeroMem [17, 16, 17, 17, 5, 32, 12]).read (whole 2 17)) ∧
    ∃ r h1, aeadDecrypt (whole 0 17) (whole 2 17) 17 (whole 1 16) (whole 4 5) 5 (whole 5 32) (whole 6 12)
        (zeroMem [17, 16, 17, 17, 5, 32, 12]) = some (r, h1) ∧
      (r = 0 ↔ (zeroMem [17, 16, 17, 17, 5, 32, 12]).read (whole 1 16) =
        poly1305Aad ((zeroMem [17, 16, 17, 17, 5, 32, 12]).read (whole 5 32))
          ((zeroMem [17, 16, 17, 17, 5, 32, 12]).read (whole 6 12))
          ((zeroMem [17, 16, 17, 17, 5, 32, 12]).read (whole 2 17))
          ((zeroMem [17, 16, 17, 17, 5, 32, 12]).read (whole 4 5))) ∧
      (r = 0 → decrypt ((zeroMem [17, 16, 17, 17, 5, 32, 12]).read (whole 5 32))
          ((zeroMem [17, 16, 17, 17, 5, 32, 12]).read (whole 6 12))
          ((zeroMem [17, 16, 17, 17, 5, 32, 12]).read (whole 2 17))
          ((zeroMem [17, 16, 17, 17, 5, 32, 12]).read (whole 1 16))
          ((zeroMem [17, 16, 17, 17, 5, 32, 12]).read (whole 4 5)) = some (h1.read (whole 0 17))) ∧
      (r ≠ 0 → r = 1 ∧ h1.read (whole 0 17) =
        (zeroMem [17, 16, 17, 17, 5, 32, 12]).read (whole 0 17)) :=
  aead_correct (by constructor <;> first | decide | (constructor <;> decide))
    (by constructor <;> decide)

end HaclStar.Correctness.Aead
