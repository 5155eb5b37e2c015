import HaclStar.Impl.Salsa20

/-! The NaCl stream cipher: the C functions in front of HSalsa20 and Salsa20. -/

namespace HaclStar.Api.Haclnacl

open Endianness Keystream Memory Impl

/-- Clear the destination, derive a subkey from the first sixteen bytes of the nonce, and encrypt with the
rest of the nonce. The length of the cipher has 32 bits. -/
def streamInto (cipher plain : Buffer) (cipherLen : UInt64) (nonce key : Buffer) : Stack Int := inFrame do
  let subkey ← create 32
  (cipher.slice 0 cipherLen.toNat).store (List.replicate cipherLen.toNat 0)
  HSalsa20.hsalsa20 subkey (key.slice 0 32) (nonce.slice 0 16)
  let len := cipherLen.toUInt32
  Salsa20.salsa20 (cipher.slice 0 len.toNat) (plain.slice 0 len.toNat) len subkey (nonce.slice 16 8) 0
  return 0

/-- The cipher encrypts its own cleared destination. -/
def cryptoStream (cipher : Buffer) (cipherLen : UInt64) (nonce key : Buffer) : Stack Int :=
  streamInto cipher cipher cipherLen nonce key

/-- The cipher encrypts the message, after the destination has been cleared. -/
def cryptoStreamXor (cipher msg : Buffer) (cipherLen : UInt64) (nonce key : Buffer) : Stack Int :=
  streamInto cipher msg cipherLen nonce key

/-- Buffers of the length given, which coincide or do not overlap, and a nonce and a key apart from the
destination. -/
structure StreamArgs (h : Mem) (cipher msg : Buffer) (cipherLen : UInt64) (nonce key : Buffer) : Prop where
  liveCipher : h.Live cipher
  liveMsg : h.Live msg
  liveNonce : h.Live nonce
  liveKey : h.Live key
  cipherSize : cipher.length = cipherLen.toNat
  msgSize : msg.length = cipherLen.toNat
  nonceSize : nonce.length = 24
  keySize : key.length = 32
  views : SameOrDisjoint cipher msg
  apartNonce : cipher.Disjoint nonce
  apartKey : cipher.Disjoint key

/-- The keystream of a key and a 24-byte nonce. -/
def stream (key nonce : Bytes) : Nat → UInt8 :=
  keystream (Spec.Salsa20.salsa20Block (Spec.HSalsa20.hsalsa20 key (nonce.take 16)) (nonce.drop 16)) 64 0

/-- What the cipher makes of a message: the part that its length counts is combined with the keystream,
and the rest stays cleared. -/
def ciphered (key nonce : Bytes) (cipherLen : UInt64) (message : Bytes) : Bytes :=
  xorStream (stream key nonce) (message.take cipherLen.toUInt32.toNat) ++
    List.replicate (cipherLen.toNat - cipherLen.toUInt32.toNat) 0

variable {h : Mem} {cipher msg nonce key : Buffer} {cipherLen : UInt64}

/-- The 32-bit length is at most the length. -/
theorem cast_le (cipherLen : UInt64) : cipherLen.toUInt32.toNat ≤ cipherLen.toNat := by
  rw [UInt64.toNat_toUInt32]
  exact Nat.mod_le _ _

/-- The result is as long as the message. -/
theorem ciphered_length {message : Bytes} (size : message.length = cipherLen.toNat) (key nonce : Bytes) :
    (ciphered key nonce cipherLen message).length = cipherLen.toNat := by
  have bound := cast_le cipherLen
  simp only [ciphered, List.length_append, xorStream_length, List.length_take, List.length_replicate]
  omega

/-- The cipher reads the message after the destination has been cleared. -/
theorem streamInto_run (args : StreamArgs h cipher msg cipherLen nonce key) :
    streamInto cipher msg cipherLen nonce key h =
      some (0, h.write cipher (ciphered (h.read key) (h.read nonce) cipherLen
        (Mem.read (h.write cipher (List.replicate cipherLen.toNat 0)) msg))) := by
  have bound := cast_le cipherLen
  have liveCipher := args.liveCipher
  have cipherSize := args.cipherSize
  have nonceSize := args.nonceSize
  have cipherFits : (List.replicate cipherLen.toNat (0 : UInt8)).length ≤ cipher.length := by
    rw [List.length_replicate, cipherSize]
  have keyView : key.slice 0 32 = key := by rw [← args.keySize, Buffer.slice_all]
  set zeros := List.replicate cipherLen.toNat (0 : UInt8) with zeros_def
  set cleared := h.write cipher zeros with cleared_def
  set subkey := h.fresh 32 with subkey_def
  -- The destination is cleared outside, and the subkey is local.
  have outer1 : h.Outer (h.alloc 32) := (Mem.Outer.refl h).alloc 32
  set m2 := (h.alloc 32).write cipher zeros with m2_def
  have outer2 : cleared.Outer m2 := outer1.write_old liveCipher zeros
  have kept {b : Buffer} (live : h.Live b) : cleared.Live b := live.write liveCipher cipherFits
  have readKey : m2.read key = h.read key := by
    rw [outer2.read (kept args.liveKey), Mem.read_write_disjoint liveCipher cipherFits args.apartKey]
  have nonceFirst : m2.read (nonce.slice 0 16) = (h.read nonce).take 16 := by
    rw [Mem.read_slice _ _ (by omega), outer2.read (kept args.liveNonce),
      Mem.read_write_disjoint liveCipher cipherFits args.apartNonce, List.drop_zero]
  have liveSub : (h.alloc 32).Live subkey := Mem.fresh_live h 32
  have liveSub2 : m2.Live subkey := liveSub.write (outer1.live liveCipher) cipherFits
  have derived := HSalsa20.hsalsa20_run (h := m2) liveSub2 (outer2.live (kept args.liveKey))
    (outer2.live ((kept args.liveNonce).slice (i := 0) (n := 16) (by omega))) le_rfl args.keySize rfl
  rw [readKey, nonceFirst] at derived
  set sk := Spec.HSalsa20.hsalsa20 (h.read key) ((h.read nonce).take 16) with sk_def
  have skSize : sk.length = subkey.length := Spec.HSalsa20.hsalsa20_length _ _
  set m3 := m2.write subkey sk with m3_def
  have outer3 : cleared.Outer m3 := outer2.write_new (by rw [cleared_def, Mem.write_length]; exact le_rfl) sk
  have readSub : m3.read subkey = sk := Mem.read_write_same liveSub2 skSize
  have liveSub3 : m3.Live subkey := liveSub2.write liveSub2 skSize.le
  have nonceRest : m3.read (nonce.slice 16 8) = (h.read nonce).drop 16 := by
    rw [Mem.read_slice _ _ (by omega), outer3.read (kept args.liveNonce),
      Mem.read_write_disjoint liveCipher cipherFits args.apartNonce, List.take_of_length_le]
    rw [List.length_drop, Mem.read_length args.liveNonce, nonceSize]
  have msgSize := args.msgSize
  -- The message is read where the destination has been cleared already.
  have plainRead : (m3.read (msg.slice 0 cipherLen.toUInt32.toNat)).take cipherLen.toUInt32.toNat =
      (cleared.read msg).take cipherLen.toUInt32.toNat := by
    rw [Mem.read_slice _ _ (by omega), outer3.read (kept args.liveMsg), List.drop_zero, List.take_take,
      Nat.min_self]
  have encrypted := @Salsa20.salsa20_run m3 _ _ subkey (nonce.slice 16 8) cipherLen.toUInt32 0
    (args.views.slice (i := 0) (n := cipherLen.toUInt32.toNat) (by omega) (by omega))
    (outer3.live ((kept liveCipher).slice (by omega))) (outer3.live ((kept args.liveMsg).slice (by omega)))
    liveSub3 (outer3.live ((kept args.liveNonce).slice (i := 16) (n := 8) (by omega))) rfl rfl le_rfl le_rfl
  rw [readSub, nonceRest, plainRead, Mem.write_slice_zero] at encrypted
  set ct := xorStream (stream (h.read key) (h.read nonce))
    ((cleared.read msg).take cipherLen.toUInt32.toNat) with ct_def
  have ctSize : ct.length = cipherLen.toUInt32.toNat := by
    rw [ct_def, xorStream_length, List.length_take, Mem.read_length (kept args.liveMsg), msgSize]
    omega
  have outer4 : (cleared.write cipher ct).Outer (m3.write cipher ct) := outer3.write_old (kept liveCipher) ct
  -- What lies behind the encrypted part stays cleared.
  have result : cleared.write cipher ct = h.write cipher (ct ++
      List.replicate (cipherLen.toNat - cipherLen.toUInt32.toNat) 0) := by
    rw [cleared_def, Mem.write_prefix liveCipher cipherFits (by rw [ctSize, zeros_def]; simpa using bound),
      zeros_def, List.drop_replicate, ctSize]
  have storedAt : (cipher.slice 0 cipherLen.toNat).store zeros (h.alloc 32) = some ((), m2) := by
    rw [Buffer.store_run ((outer1.live liveCipher).slice (by omega)) (by simp [zeros_def]),
      Mem.write_slice_zero]
  rw [ciphered, ← ct_def, ← result]
  refine inFrame_outer ?_ outer4 (by simp [cleared_def])
  rw [Stack.bind_run (create_run 32), ← subkey_def, Stack.bind_run storedAt, keyView,
    Stack.bind_run derived, Stack.bind_run encrypted, Stack.pure_run]
  rfl

/-- A message apart from the destination is still there when the cipher reads it. -/
theorem cryptoStreamXor_apart (args : StreamArgs h cipher msg cipherLen nonce key)
    (apart : cipher.Disjoint msg) :
    cryptoStreamXor cipher msg cipherLen nonce key h =
      some (0, h.write cipher (ciphered (h.read key) (h.read nonce) cipherLen (h.read msg))) := by
  have fits : (List.replicate cipherLen.toNat (0 : UInt8)).length ≤ cipher.length := by
    rw [List.length_replicate, args.cipherSize]
  rw [cryptoStreamXor, streamInto_run args, Mem.read_write_disjoint args.liveCipher fits apart]

/-- A message in the destination has been cleared when the cipher reads it. -/
theorem cryptoStreamXor_same (args : StreamArgs h cipher cipher cipherLen nonce key) :
    cryptoStreamXor cipher cipher cipherLen nonce key h =
      some (0, h.write cipher (ciphered (h.read key) (h.read nonce) cipherLen
        (List.replicate cipherLen.toNat 0))) := by
  have size : (List.replicate cipherLen.toNat (0 : UInt8)).length = cipher.length := by
    rw [List.length_replicate, args.cipherSize]
  rw [cryptoStreamXor, streamInto_run args, Mem.read_write_same args.liveCipher size]

/-- The stream is what the cipher makes of zeros, wherever the message is. -/
theorem cryptoStream_run (args : StreamArgs h cipher msg cipherLen nonce key) :
    cryptoStream cipher cipherLen nonce key h =
      some (0, h.write cipher (ciphered (h.read key) (h.read nonce) cipherLen
        (List.replicate cipherLen.toNat 0))) :=
  cryptoStreamXor_same { args with
    liveMsg := args.liveCipher, msgSize := args.cipherSize, views := Or.inl rfl }

end HaclStar.Api.Haclnacl
