import HaclStar.Impl.AeadPoly1305
import HaclStar.Impl.Chacha20
import HaclStar.Impl.Policies

/-! Authenticated encryption with ChaCha20 and Poly1305. -/

namespace HaclStar.Api.Chacha20Poly1305

open Endianness Memory Impl.AeadPoly1305 Impl.Chacha20 Impl.Policies Spec.Chacha20Poly1305

/-- Write the tag of a ciphertext and its additional data: the one-time key is at the start of `tmp`, and
the lengths are behind the sixty-four bytes of its block. -/
def aeadEncryptPoly (c : Buffer) (mlen : UInt32) (mac aad : Buffer) (aadlen : UInt32) (tmp : Buffer) :
    Stack Unit := do
  let b ← tmp.sub 0 64
  let lb ← tmp.sub 64 16
  let mk ← b.sub 0 32
  let keyS ← mk.sub 16 16
  let st ← blocksInit aad aadlen mk
  let st ← blocksContinue st c mlen
  blocksFinish st lb mac keyS

/-- Write both lengths as 64-bit words. -/
def encodeLength (lb : Buffer) (aadLen mlen : UInt32) : Stack Unit := do
  let first ← lb.sub 0 8
  first.store (littleBytes 8 aadLen.toUInt64.toNat)
  let second ← lb.sub 8 8
  second.store (littleBytes 8 mlen.toUInt64.toNat)

/-- Encrypt a message, and write the tag. -/
def aeadEncrypt_ (c mac m : Buffer) (mlen : UInt32) (aad : Buffer) (aadlen : UInt32) (k n : Buffer) :
    Stack UInt32 := inFrame do
  let tmp ← create 80
  let b ← tmp.sub 0 64
  let lb ← tmp.sub 64 16
  encodeLength lb aadlen mlen
  chacha20 c m mlen k n 1
  chacha20KeyBlock b k n 0
  aeadEncryptPoly c mlen mac aad aadlen tmp
  return 0

/-- Encrypt a message, and write the tag. -/
def aeadEncrypt (c mac m : Buffer) (mlen : UInt32) (aad : Buffer) (aadlen : UInt32) (k n : Buffer) :
    Stack UInt32 := do
  let z ← aeadEncrypt_ c mac m mlen aad aadlen k n
  return z

/-- Check the tag, and decrypt the ciphertext when it is right. -/
def aeadDecrypt (m c : Buffer) (mlen : UInt32) (mac aad : Buffer) (aadlen : UInt32) (k n : Buffer) :
    Stack UInt32 := inFrame do
  let tmp ← create 96
  let b ← tmp.sub 0 64
  let lb ← tmp.sub 64 16
  encodeLength lb aadlen mlen
  let rmac ← tmp.sub 80 16
  chacha20KeyBlock b k n 0
  let tmp' ← tmp.sub 0 80
  aeadEncryptPoly c mlen rmac aad aadlen tmp'
  let result ← cmpBytes mac rmac 16
  if result = 0 then
    chacha20 m c mlen k n 1
    return 0
  else return 1

variable {h : Mem} {c mac m aad k n tmp lb : Buffer} {mlen aadlen : UInt32}

/-- The tag covers the padded additional data, the padded ciphertext and the lengths. -/
theorem aeadEncryptPoly_run (liveC : h.Live c) (liveMac : h.Live mac) (liveAad : h.Live aad)
    (liveTmp : h.Live tmp) (sizeC : c.length = mlen.toNat) (sizeAad : aad.length = aadlen.toNat)
    (macSize : mac.length = 16) (room : 80 ≤ tmp.length) :
    aeadEncryptPoly c mlen mac aad aadlen tmp h = some ((), h.write mac (Spec.Poly1305.poly1305
      (pad16 (h.read aad) ++ (pad16 (h.read c) ++ h.read (tmp.slice 64 16)))
      (h.read (tmp.slice 0 32)))) := by
  have liveKey := liveTmp.slice (i := 0) (n := 32) (by omega)
  have liveHalf := liveTmp.slice (i := 16) (n := 16) (by omega)
  have liveLast := liveTmp.slice (i := 64) (n := 16) (by omega)
  -- Each call absorbs one more padded string.
  obtain ⟨st, absorbed, ran⟩ := blocksInit_run (Impl.Poly1305.absorbed_tracks _) (fun started _ => started) liveAad liveKey sizeAad
    (show 16 ≤ 32 by decide)
  obtain ⟨st', absorbed', ran'⟩ := blocksContinue_run (Impl.Poly1305.absorbed_tracks _) (pad16_length _) absorbed liveC sizeC
  have whole : (pad16 (h.read aad) ++ pad16 (h.read c)).length % 16 = 0 := by
    have first := pad16_length (h.read aad)
    have second := pad16_length (h.read c)
    rw [List.length_append]
    omega
  have ran'' := blocksFinish_run whole absorbed' liveLast liveMac liveHalf rfl (by omega) rfl
  -- The mask is the second half of the one-time key.
  have half : h.read (tmp.slice 16 16) = ((h.read (tmp.slice 0 32)).drop 16).take 16 := by
    rw [Mem.read_slice _ _ (by omega), Mem.read_slice _ _ (by omega), List.drop_zero, List.drop_take,
      List.take_take]
    rfl
  rw [half, List.append_assoc] at ran''
  rw [aeadEncryptPoly, Stack.bind_run (Buffer.sub_run _ (by omega)),
    Stack.bind_run (Buffer.sub_run _ (by omega)),
    Stack.bind_run (Buffer.sub_run _ (show 0 + 32 ≤ 64 by decide)), Buffer.slice_slice,
    Stack.bind_run (Buffer.sub_run _ (show 16 + 16 ≤ 32 by decide)), Buffer.slice_slice,
    Stack.bind_run ran, Stack.bind_run ran', ran'', Spec.Poly1305.poly1305]

/-- Both lengths are written. -/
theorem encodeLength_run (live : h.Live lb) (size : lb.length = 16) (first second : UInt32) :
    encodeLength lb first second h =
      some ((), h.write lb (littleBytes 8 first.toNat ++ littleBytes 8 second.toNat)) := by
  have one := littleBytes_length 8 first.toNat
  have two := littleBytes_length 8 second.toNat
  have live1 : (h.write lb (littleBytes 8 first.toNat)).Live lb := live.write live (by omega)
  have joined := Mem.write_append live (littleBytes 8 first.toNat) (littleBytes 8 second.toNat) 8
    (by omega) (by omega) (by omega)
  rw [one] at joined
  -- The second word is stored right behind the first.
  rw [encodeLength, Stack.bind_run (Buffer.sub_run _ (by omega)), UInt32.toNat_toUInt64,
    UInt32.toNat_toUInt64,
    Stack.bind_run (Buffer.store_run (live.slice (by omega)) (by rw [one]; exact le_rfl)),
    Mem.write_slice_zero, Stack.bind_run (Buffer.sub_run _ (by omega)),
    Buffer.store_run (live1.slice (by omega)) (by rw [two]; exact le_rfl), joined]

/-- What encryption relies on: live views of the sizes the types state, where the ciphertext may overlap
neither the tag nor what is read after it is written. -/
structure EncryptArgs (h : Mem) (c mac m aad k n : Buffer) (mlen aadlen : UInt32) : Prop where
  liveC : h.Live c
  liveMac : h.Live mac
  liveM : h.Live m
  liveAad : h.Live aad
  liveK : h.Live k
  liveN : h.Live n
  sizeC : c.length = mlen.toNat
  sizeM : m.length = mlen.toNat
  sizeAad : aad.length = aadlen.toNat
  macSize : mac.length = 16
  keySize : k.length = 32
  nonceSize : n.length = 12
  views : SameOrDisjoint c m
  apartAad : c.Disjoint aad
  apartK : c.Disjoint k
  apartN : c.Disjoint n

/-- Encryption writes the ciphertext and the tag of the specification. -/
theorem aeadEncrypt_run (args : EncryptArgs h c mac m aad k n mlen aadlen) :
    aeadEncrypt c mac m mlen aad aadlen k n h = some (0,
      (h.write c (encrypt (h.read k) (h.read n) (h.read m) (h.read aad)).1).write mac
        (encrypt (h.read k) (h.read n) (h.read m) (h.read aad)).2) := by
  obtain ⟨liveC, liveMac, liveM, liveAad, liveK, liveN, sizeC, sizeM, sizeAad, macSize, keySize,
    nonceSize, views, apartAad, apartK, apartN⟩ := args
  have bytesM := Mem.read_length liveM
  have bytesAad := Mem.read_length liveAad
  set cipher := Spec.Chacha20.chacha20EncryptBytes (h.read k) (h.read n) 1 (h.read m) with cipher_def
  have cipherSize : cipher.length = c.length := by
    rw [cipher_def, Spec.Chacha20.chacha20EncryptBytes_length]; omega
  -- One local block holds the block of the one-time key and the lengths.
  set tmp := h.fresh 80 with tmp_def
  have new : h.length ≤ tmp.base := le_rfl
  have room : tmp.length = 80 := rfl
  have outer0 : h.Outer (h.alloc 80) := (Mem.Outer.refl h).alloc 80
  have live0 : (h.alloc 80).Live tmp := Mem.fresh_live h 80
  have lb0 := live0.slice (i := 64) (n := 16) (by omega)
  have step1 := encodeLength_run lb0 rfl aadlen mlen
  set last := littleBytes 8 aadlen.toNat ++ littleBytes 8 mlen.toNat with last_def
  have lastSize : last.length = (tmp.slice 64 16).length := by simp [last_def]
  set m1 := (h.alloc 80).write (tmp.slice 64 16) last with m1_def
  have outer1 : h.Outer m1 := outer0.write_new (b := tmp.slice 64 16) new last
  have live1 : m1.Live tmp := live0.write lb0 lastSize.le
  have read1 : m1.read (tmp.slice 64 16) = last := Mem.read_write_same lb0 lastSize
  -- The ciphertext is written outside.
  have step2 : chacha20 c m mlen k n 1 m1 = _ := chacha20_run views (outer1.live liveC)
    (outer1.live liveM) (outer1.live liveK) (outer1.live liveN) keySize nonceSize sizeC.ge sizeM.ge
  rw [outer1.read liveK, outer1.read liveN, outer1.read liveM,
    List.take_of_length_le (l := h.read m) (by omega)] at step2
  change _ = some ((), m1.write c cipher) at step2
  set m2 := m1.write c cipher with m2_def
  have outer2 : (h.write c cipher).Outer m2 := outer1.write_old liveC cipher
  have kept (b : Buffer) (live : h.Live b) : (h.write c cipher).Live b := live.write liveC cipherSize.le
  have live2 : m2.Live tmp := live1.write (outer1.live liveC) cipherSize.le
  have read2 : m2.read (tmp.slice 64 16) = last := by
    rw [m2_def, outer1.read_local liveC cipherSize.le (tmp.slice 64 16) new, read1]
  -- The block of the one-time key is local again.
  have block2 := live2.slice (i := 0) (n := 64) (by omega)
  have step3 : chacha20KeyBlock (tmp.slice 0 64) k n 0 m2 = _ := chacha20KeyBlock_run block2
    (outer2.live (kept k liveK)) (outer2.live (kept n liveN)) keySize nonceSize le_rfl
  rw [outer2.read (kept k liveK), outer2.read (kept n liveN),
    Mem.read_write_disjoint liveC cipherSize.le apartK,
    Mem.read_write_disjoint liveC cipherSize.le apartN] at step3
  change _ = some ((), m2.write (tmp.slice 0 64) (Spec.Chacha20.chacha20Block (h.read k) (h.read n) 0))
    at step3
  set block := Spec.Chacha20.chacha20Block (h.read k) (h.read n) 0 with block_def
  have blockSize : block.length = (tmp.slice 0 64).length := Spec.Chacha20.chacha20Block_length _ _ _
  set m3 := m2.write (tmp.slice 0 64) block with m3_def
  have outer3 : (h.write c cipher).Outer m3 := outer2.write_new (b := tmp.slice 0 64) (by
    rw [Mem.write_length]; exact new) block
  have live3 : m3.Live tmp := live2.write block2 blockSize.le
  have read3 : m3.read (tmp.slice 64 16) = last := by
    rw [m3_def, Mem.read_write_disjoint block2 blockSize.le (Buffer.disjoint_slices _ (by omega)), read2]
  have key3 : m3.read (tmp.slice 0 32) = macKey (h.read k) (h.read n) := by
    have part := Mem.read_write_slice block2 (i := 0) (n := 32) (by
      rw [blockSize, Buffer.slice_length]; decide) blockSize.le
    rw [Buffer.slice_slice] at part
    exact part
  -- The tag covers what was written.
  have step4 := aeadEncryptPoly_run (outer3.live (kept c liveC)) (outer3.live (kept mac liveMac))
    (outer3.live (kept aad liveAad)) live3 sizeC sizeAad macSize room.ge
  rw [outer3.read (kept c liveC), outer3.read (kept aad liveAad), read3, key3,
    Mem.read_write_same liveC cipherSize, Mem.read_write_disjoint liveC cipherSize.le apartAad] at step4
  have tag : Spec.Poly1305.poly1305 (pad16 (h.read aad) ++ (pad16 cipher ++ last))
      (macKey (h.read k) (h.read n)) = poly1305Aad (h.read k) (h.read n) cipher (h.read aad) := by
    rw [poly1305Aad, lengths, bytesAad, sizeAad, cipherSize, sizeC]
  rw [tag] at step4
  have outer4 := outer3.write_old (kept mac liveMac)
    (poly1305Aad (h.read k) (h.read n) cipher (h.read aad))
  have ran : aeadEncrypt_ c mac m mlen aad aadlen k n h = some (0, (h.write c cipher).write mac
      (poly1305Aad (h.read k) (h.read n) cipher (h.read aad))) :=
    inFrame_outer (by
      rw [Stack.bind_run (create_run 80), ← tmp_def, Stack.bind_run (Buffer.sub_run _ (by omega)),
        Stack.bind_run (Buffer.sub_run _ (by omega)), Stack.bind_run step1, Stack.bind_run step2,
        Stack.bind_run step3, Stack.bind_run step4, Stack.pure_run]) outer4
      (by rw [Mem.write_length, Mem.write_length])
  rw [aeadEncrypt, ran]
  rfl

/-- What decryption relies on: live views of the sizes the types state. -/
structure DecryptArgs (h : Mem) (m c mac aad k n : Buffer) (mlen aadlen : UInt32) : Prop where
  liveM : h.Live m
  liveC : h.Live c
  liveMac : h.Live mac
  liveAad : h.Live aad
  liveK : h.Live k
  liveN : h.Live n
  sizeM : m.length = mlen.toNat
  sizeC : c.length = mlen.toNat
  sizeAad : aad.length = aadlen.toNat
  macSize : mac.length = 16
  keySize : k.length = 32
  nonceSize : n.length = 12
  views : SameOrDisjoint m c

/-- Decryption computes the tag in local memory, and compares it. -/
theorem aeadDecrypt_verify (args : DecryptArgs h m c mac aad k n mlen aadlen) :
    ∃ inner, h.Outer inner ∧ aeadDecrypt m c mlen mac aad aadlen k n h =
      inFrame (fun _ => (if poly1305Aad (h.read k) (h.read n) (h.read c) (h.read aad) = h.read mac then do
          chacha20 m c mlen k n 1
          return 0
        else return 1 : Stack UInt32) inner) h := by
  obtain ⟨liveM, liveC, liveMac, liveAad, liveK, liveN, sizeM, sizeC, sizeAad, macSize, keySize,
    nonceSize, views⟩ := args
  have bytesC := Mem.read_length liveC
  have bytesAad := Mem.read_length liveAad
  have bytesMac := Mem.read_length liveMac
  -- One local block holds the block of the one-time key, the lengths and the computed tag.
  set tmp := h.fresh 96 with tmp_def
  have new : h.length ≤ tmp.base := le_rfl
  have room : tmp.length = 96 := rfl
  have outer0 : h.Outer (h.alloc 96) := (Mem.Outer.refl h).alloc 96
  have live0 : (h.alloc 96).Live tmp := Mem.fresh_live h 96
  have lb0 := live0.slice (i := 64) (n := 16) (by omega)
  have step1 := encodeLength_run lb0 rfl aadlen mlen
  set last := littleBytes 8 aadlen.toNat ++ littleBytes 8 mlen.toNat with last_def
  have lastSize : last.length = (tmp.slice 64 16).length := by simp [last_def]
  set m1 := (h.alloc 96).write (tmp.slice 64 16) last with m1_def
  have outer1 : h.Outer m1 := outer0.write_new (b := tmp.slice 64 16) new last
  have live1 : m1.Live tmp := live0.write lb0 lastSize.le
  have read1 : m1.read (tmp.slice 64 16) = last := Mem.read_write_same lb0 lastSize
  have block1 := live1.slice (i := 0) (n := 64) (by omega)
  have step2 : chacha20KeyBlock (tmp.slice 0 64) k n 0 m1 = _ := chacha20KeyBlock_run block1
    (outer1.live liveK) (outer1.live liveN) keySize nonceSize le_rfl
  rw [outer1.read liveK, outer1.read liveN] at step2
  change _ = some ((), m1.write (tmp.slice 0 64) (Spec.Chacha20.chacha20Block (h.read k) (h.read n) 0))
    at step2
  set block := Spec.Chacha20.chacha20Block (h.read k) (h.read n) 0 with block_def
  have blockSize : block.length = (tmp.slice 0 64).length := Spec.Chacha20.chacha20Block_length _ _ _
  set m2 := m1.write (tmp.slice 0 64) block with m2_def
  have outer2 : h.Outer m2 := outer1.write_new (b := tmp.slice 0 64) new block
  have live2 : m2.Live tmp := live1.write block1 blockSize.le
  have read2 : m2.read (tmp.slice 64 16) = last := by
    rw [m2_def, Mem.read_write_disjoint block1 blockSize.le (Buffer.disjoint_slices _ (by omega)), read1]
  have key2 : m2.read (tmp.slice 0 32) = macKey (h.read k) (h.read n) := by
    have part := Mem.read_write_slice block1 (i := 0) (n := 32) (by
      rw [blockSize, Buffer.slice_length]; decide) blockSize.le
    rw [Buffer.slice_slice] at part
    exact part
  have rmac2 := live2.slice (i := 80) (n := 16) (by omega)
  have step3 := aeadEncryptPoly_run (outer2.live liveC) rmac2 (outer2.live liveAad)
    (live2.slice (i := 0) (n := 80) (by omega)) sizeC sizeAad rfl le_rfl
  rw [Buffer.slice_slice, Buffer.slice_slice, outer2.read liveC, outer2.read liveAad, read2, key2] at step3
  have tag : Spec.Poly1305.poly1305 (pad16 (h.read aad) ++ (pad16 (h.read c) ++ last))
      (macKey (h.read k) (h.read n)) = poly1305Aad (h.read k) (h.read n) (h.read c) (h.read aad) := by
    rw [poly1305Aad, lengths, bytesAad, sizeAad, bytesC, sizeC]
  rw [tag] at step3
  set t := poly1305Aad (h.read k) (h.read n) (h.read c) (h.read aad) with t_def
  have tSize : t.length = (tmp.slice 80 16).length := poly1305Aad_length _ _ _ _
  have outer3 : h.Outer (m2.write (tmp.slice 80 16) t) :=
    outer2.write_new (b := tmp.slice 80 16) new t
  have rmac3 : (m2.write (tmp.slice 80 16) t).Live (tmp.slice 80 16) := rmac2.write rmac2 tSize.le
  have step4 := cmpBytes_run 16 (outer3.live liveMac) rmac3 macSize.ge le_rfl
  rw [outer3.read liveMac, Mem.read_write_same rmac2 tSize, List.take_of_length_le (by omega),
    List.take_of_length_le (by rw [tSize]; exact le_rfl)] at step4
  refine ⟨_, outer3, inFrame_reached ?_⟩
  rw [Stack.bind_run (create_run 96), ← tmp_def, Stack.bind_run (Buffer.sub_run _ (by omega)),
    Stack.bind_run (Buffer.sub_run _ (by omega)), Stack.bind_run step1,
    Stack.bind_run (Buffer.sub_run _ (by omega)), Stack.bind_run step2,
    Stack.bind_run (Buffer.sub_run _ (by omega)), Stack.bind_run step3, Stack.bind_run step4]
  -- The comparison is zero exactly for the right tag.
  by_cases right : t = h.read mac
  · rw [if_pos right, if_pos right.symm, if_pos rfl]
  · rw [if_neg right, if_neg (Ne.symm right), if_neg (by decide)]

/-- The right tag is accepted, and the message is written. -/
theorem aeadDecrypt_accept (args : DecryptArgs h m c mac aad k n mlen aadlen)
    (right : poly1305Aad (h.read k) (h.read n) (h.read c) (h.read aad) = h.read mac) :
    aeadDecrypt m c mlen mac aad aadlen k n h = some (0, h.write m
      (Spec.Chacha20.chacha20EncryptBytes (h.read k) (h.read n) 1 (h.read c))) := by
  obtain ⟨inner, outer, ran⟩ := aeadDecrypt_verify args
  have bytesC := Mem.read_length args.liveC
  have size := args.sizeC
  have step : chacha20 m c mlen k n 1 inner = _ := chacha20_run args.views (outer.live args.liveM)
    (outer.live args.liveC) (outer.live args.liveK) (outer.live args.liveN) args.keySize args.nonceSize
    args.sizeM.ge args.sizeC.ge
  rw [outer.read args.liveK, outer.read args.liveN, outer.read args.liveC,
    List.take_of_length_le (l := h.read c) (by omega)] at step
  rw [ran, if_pos right]
  exact inFrame_finish (by rw [Stack.bind_run step, Stack.pure_run]; rfl)
    (outer.write_old args.liveM _) (by rw [Mem.write_length])

/-- A wrong tag is rejected, and nothing is written. -/
theorem aeadDecrypt_reject (args : DecryptArgs h m c mac aad k n mlen aadlen)
    (wrong : poly1305Aad (h.read k) (h.read n) (h.read c) (h.read aad) ≠ h.read mac) :
    aeadDecrypt m c mlen mac aad aadlen k n h = some (1, h) := by
  obtain ⟨inner, outer, ran⟩ := aeadDecrypt_verify args
  rw [ran, if_neg wrong]
  exact inFrame_finish rfl outer rfl

end HaclStar.Api.Chacha20Poly1305
