import HaclStar.Api.Stream
import HaclStar.Correctness.SecretBox

/-! The NaCl stream cipher with a message against the cipher without one. -/

namespace HaclStar.Correctness.Stream

open Endianness Keystream Memory Api.Haclnacl SecretBox

/-- The cipher with a message writes the message combined with what the cipher without one writes. -/
def XorsStream (h : Mem) (cipher msg : Buffer) (cipherLen : UInt64) (nonce key : Buffer) : Prop :=
  ∃ h1 h2, cryptoStream cipher cipherLen nonce key h = some (0, h1) ∧
    cryptoStreamXor cipher msg cipherLen nonce key h = some (0, h2) ∧
    h2 = h.write cipher (Keystream.xor (h.read msg) (h1.read cipher))

/-- Applying the cipher twice gives back the message. -/
def Restores (h : Mem) (back cipher msg : Buffer) (cipherLen : UInt64) (nonce key : Buffer) : Prop :=
  ∃ h1 h2, cryptoStreamXor cipher msg cipherLen nonce key h = some (0, h1) ∧
    cryptoStreamXor back cipher cipherLen nonce key h1 = some (0, h2) ∧ h2.read back = h.read msg

/-- The part of a message that the 32-bit length does not count is zero. -/
def TailZero (cipherLen : UInt64) (message : Bytes) : Prop :=
  message.drop cipherLen.toUInt32.toNat =
    List.replicate (cipherLen.toNat - cipherLen.toUInt32.toNat) 0

section Bytes

variable {cipherLen : UInt64} {message other : Bytes} (key nonce : Bytes)

/-- Combining with zeros changes nothing. -/
theorem xor_zeros (message : Bytes) : Keystream.xor message (List.replicate message.length 0) = message := by
  -- Byte by byte.
  induction message with
  | nil => rfl
  | cons a message ih =>
    simp only [Keystream.xor, List.length_cons, List.replicate_succ, List.zipWith_cons_cons, UInt8.xor_zero]
    rw [← Keystream.xor, ih]

/-- Combining with encrypted zeros is encrypting. -/
theorem xor_xorStream_zeros (mask : Nat → UInt8) (message : Bytes) :
    Keystream.xor message (xorStream mask (List.replicate message.length 0)) = xorStream mask message := by
  apply List.ext_getElem?
  intro i
  rw [Keystream.xor, List.getElem?_zipWith, xorStream_getElem?, xorStream_getElem?, List.getElem?_replicate]
  -- Beyond the message both sides have no position.
  by_cases inside : i < message.length
  · simp [inside]
  · simp [inside]

/-- A message combined with the stream: its tail meets the zeros behind the stream. -/
theorem xor_ciphered_zeros (size : message.length = cipherLen.toNat) :
    Keystream.xor message (ciphered key nonce cipherLen (List.replicate cipherLen.toNat 0)) =
      xorStream (stream key nonce) (message.take cipherLen.toUInt32.toNat) ++
        message.drop cipherLen.toUInt32.toNat := by
  have bound := cast_le cipherLen
  set counted := message.take cipherLen.toUInt32.toNat with counted_def
  set tail := message.drop cipherLen.toUInt32.toNat with tail_def
  have countedSize : counted.length = cipherLen.toUInt32.toNat := by
    rw [counted_def, List.length_take]; omega
  have tailSize : tail.length = cipherLen.toNat - cipherLen.toUInt32.toNat := by
    rw [tail_def, List.length_drop, size]
  have parts : message = counted ++ tail := (List.take_append_drop ..).symm
  -- Both halves of the stream are encrypted zeros, the second one under no key.
  rw [ciphered, List.take_replicate, Nat.min_eq_left bound, ← tailSize, ← countedSize, parts,
    Keystream.xor, List.zipWith_append (by rw [xorStream_length, List.length_replicate])]
  exact congrArg₂ (· ++ ·) (xor_xorStream_zeros _ _) (xor_zeros _)

/-- Combining with a mask keeps the mask exactly when the message is zero. -/
theorem xor_eq_right_iff (size : message.length = other.length) :
    Keystream.xor message other = other ↔ message = List.replicate message.length 0 := by
  -- Byte by byte, a mask is kept by zero only.
  induction message generalizing other with
  | nil =>
    cases other with
    | nil => simp [Keystream.xor]
    | cons b other => simp at size
  | cons a message ih =>
    cases other with
    | nil => simp at size
    | cons b other =>
      have kept : a ^^^ b = b ↔ a = 0 := by
        constructor
        · intro same
          have cancelled := congrArg (· ^^^ b) same
          simpa [UInt8.xor_assoc] using cancelled
        · rintro rfl
          simp
      have rest := @ih other (by simpa using size)
      simp only [Keystream.xor, List.zipWith_cons_cons, List.cons.injEq, List.length_cons, List.replicate_succ, kept]
      rw [← Keystream.xor, rest]

/-- The result agrees with the combined message exactly when the tail of the message is zero. -/
theorem ciphered_eq_xor_iff (size : message.length = cipherLen.toNat) :
    ciphered key nonce cipherLen message =
        Keystream.xor message (ciphered key nonce cipherLen (List.replicate cipherLen.toNat 0)) ↔
      TailZero cipherLen message := by
  rw [xor_ciphered_zeros key nonce size, ciphered, List.append_right_inj, TailZero]
  exact eq_comm

/-- Encrypting twice keeps the counted part of the message and clears its tail. -/
theorem ciphered_ciphered_iff (size : message.length = cipherLen.toNat) :
    ciphered key nonce cipherLen (ciphered key nonce cipherLen message) = message ↔
      TailZero cipherLen message := by
  have bound := cast_le cipherLen
  have counted : (xorStream (stream key nonce) (message.take cipherLen.toUInt32.toNat)).length =
      cipherLen.toUInt32.toNat := by
    rw [xorStream_length, List.length_take]; omega
  have twice : ciphered key nonce cipherLen (ciphered key nonce cipherLen message) =
      message.take cipherLen.toUInt32.toNat ++
        List.replicate (cipherLen.toNat - cipherLen.toUInt32.toNat) 0 := by
    rw [ciphered, ciphered, List.take_append_of_le_length counted.ge, List.take_of_length_le counted.le,
      xorStream_involutive]
  -- The message is its counted part and its tail.
  rw [twice, TailZero]
  constructor
  · intro same
    have tail := congrArg (List.drop cipherLen.toUInt32.toNat) same
    rw [List.drop_append_of_le_length (by rw [List.length_take]; omega), List.drop_take, Nat.sub_self,
      List.take_zero, List.nil_append] at tail
    exact tail.symm
  · intro tail
    rw [← tail, List.take_append_drop]

end Bytes

variable {h : Mem} {back cipher msg nonce key : Buffer} {cipherLen : UInt64}

/-- Two writes of the whole destination are equal when their bytes are. -/
theorem write_inj (live : h.Live cipher) {first second : Bytes} (size : first.length = cipher.length)
    (size' : second.length = cipher.length) : h.write cipher first = h.write cipher second ↔ first = second := by
  constructor
  · intro same
    rw [← Mem.read_write_same live size, same, Mem.read_write_same live size']
  · rintro rfl
    rfl

/-- What the cipher without a message leaves in the destination. -/
theorem streamBytes (args : StreamArgs h cipher msg cipherLen nonce key) :
    Mem.read (h.write cipher (ciphered (h.read key) (h.read nonce) cipherLen
        (List.replicate cipherLen.toNat 0))) cipher =
      ciphered (h.read key) (h.read nonce) cipherLen (List.replicate cipherLen.toNat 0) :=
  Mem.read_write_same args.liveCipher (by
    rw [ciphered_length (List.length_replicate ..), args.cipherSize])

/-- Apart from the destination, the message is combined with the stream as far as the 32-bit length goes. -/
theorem xorsStream_apart (args : StreamArgs h cipher msg cipherLen nonce key) (apart : cipher.Disjoint msg) :
    XorsStream h cipher msg cipherLen nonce key ↔ TailZero cipherLen (h.read msg) := by
  have size : (h.read msg).length = cipherLen.toNat := (Mem.read_length args.liveMsg).trans args.msgSize
  have zeros : (List.replicate cipherLen.toNat (0 : UInt8)).length = cipherLen.toNat := List.length_replicate
  rw [XorsStream]
  simp only [cryptoStream_run args, cryptoStreamXor_apart args apart, Option.some.injEq, Prod.mk.injEq,
    true_and, exists_and_left, exists_eq_left', streamBytes args]
  rw [write_inj args.liveCipher (by rw [ciphered_length size, args.cipherSize])
    (by rw [xor_length, ciphered_length zeros, size, args.cipherSize, Nat.min_self]),
    ciphered_eq_xor_iff _ _ size]

/-- In the destination, the message is lost before it is combined. -/
theorem xorsStream_same (args : StreamArgs h cipher cipher cipherLen nonce key) :
    XorsStream h cipher cipher cipherLen nonce key ↔ h.read cipher = List.replicate cipherLen.toNat 0 := by
  have size : (h.read cipher).length = cipherLen.toNat :=
    (Mem.read_length args.liveCipher).trans args.cipherSize
  have zeros : (List.replicate cipherLen.toNat (0 : UInt8)).length = cipherLen.toNat := List.length_replicate
  have width := ciphered_length zeros (h.read key) (h.read nonce)
  rw [XorsStream]
  simp only [cryptoStream_run args, cryptoStreamXor_same args, Option.some.injEq, Prod.mk.injEq,
    true_and, exists_and_left, exists_eq_left', streamBytes args]
  rw [write_inj args.liveCipher (by rw [width, args.cipherSize])
    (by rw [xor_length, width, size, args.cipherSize, Nat.min_self]), eq_comm,
    xor_eq_right_iff (by rw [size, width]), size]

/-- Apart from the message, the second application gives back what the 32-bit length counts. -/
theorem restores_apart (args : StreamArgs h cipher msg cipherLen nonce key)
    (args' : StreamArgs h back cipher cipherLen nonce key) (apart : cipher.Disjoint msg)
    (apart' : back.Disjoint cipher) :
    Restores h back cipher msg cipherLen nonce key ↔ TailZero cipherLen (h.read msg) := by
  have size : (h.read msg).length = cipherLen.toNat := (Mem.read_length args.liveMsg).trans args.msgSize
  set ct := ciphered (h.read key) (h.read nonce) cipherLen (h.read msg) with ct_def
  have ctSize : ct.length = cipher.length := by rw [ct_def, ciphered_length size, args.cipherSize]
  have live {b : Buffer} (live : h.Live b) : (h.write cipher ct).Live b :=
    live.write args.liveCipher ctSize.le
  -- The first application changes neither the key nor the nonce.
  have again : StreamArgs (h.write cipher ct) back cipher cipherLen nonce key :=
    { args' with
      liveCipher := live args'.liveCipher, liveMsg := live args'.liveMsg
      liveNonce := live args'.liveNonce, liveKey := live args'.liveKey }
  have ran := cryptoStreamXor_apart again apart'
  rw [Mem.read_write_disjoint args.liveCipher ctSize.le args.apartKey,
    Mem.read_write_disjoint args.liveCipher ctSize.le args.apartNonce,
    Mem.read_write_same args.liveCipher ctSize] at ran
  rw [Restores]
  simp only [cryptoStreamXor_apart args apart, ← ct_def, Option.some.injEq, Prod.mk.injEq,
    true_and, exists_and_left, exists_eq_left', ran]
  rw [Mem.read_write_same again.liveCipher (by
    rw [ciphered_length (by rw [ctSize, args.cipherSize]), args'.cipherSize]), ct_def,
    ciphered_ciphered_iff _ _ size]

/-- In place, both applications leave the stream. -/
theorem restores_same (args : StreamArgs h cipher cipher cipherLen nonce key) :
    Restores h cipher cipher cipher cipherLen nonce key ↔
      h.read cipher = ciphered (h.read key) (h.read nonce) cipherLen (List.replicate cipherLen.toNat 0) := by
  have zeros : (List.replicate cipherLen.toNat (0 : UInt8)).length = cipherLen.toNat := List.length_replicate
  set ct := ciphered (h.read key) (h.read nonce) cipherLen (List.replicate cipherLen.toNat 0) with ct_def
  have ctSize : ct.length = cipher.length := by rw [ct_def, ciphered_length zeros, args.cipherSize]
  have live {b : Buffer} (live : h.Live b) : (h.write cipher ct).Live b :=
    live.write args.liveCipher ctSize.le
  have again : StreamArgs (h.write cipher ct) cipher cipher cipherLen nonce key :=
    { args with
      liveCipher := live args.liveCipher, liveMsg := live args.liveMsg
      liveNonce := live args.liveNonce, liveKey := live args.liveKey }
  have ran := cryptoStreamXor_same again
  rw [Mem.read_write_disjoint args.liveCipher ctSize.le args.apartKey,
    Mem.read_write_disjoint args.liveCipher ctSize.le args.apartNonce, ← ct_def] at ran
  rw [Restores]
  simp only [cryptoStreamXor_same args, ← ct_def, Option.some.injEq, Prod.mk.injEq,
    true_and, exists_and_left, exists_eq_left', ran]
  rw [Mem.read_write_same again.liveCipher ctSize]
  exact eq_comm

/-- Out of place, the cipher combines the message with the stream, and is its own inverse, exactly when the
bytes that the 32-bit length does not count are zero. In place, it combines only a zero message with the
stream, and gives back only the stream itself. -/
theorem stream_xor_iff (args : StreamArgs h cipher msg cipherLen nonce key)
    (args' : StreamArgs h back cipher cipherLen nonce key) :
    (cipher.Disjoint msg → back.Disjoint cipher →
      (XorsStream h cipher msg cipherLen nonce key ↔ TailZero cipherLen (h.read msg)) ∧
      (Restores h back cipher msg cipherLen nonce key ↔ TailZero cipherLen (h.read msg))) ∧
    (cipher = msg → back = cipher →
      (XorsStream h cipher msg cipherLen nonce key ↔ h.read msg = List.replicate cipherLen.toNat 0) ∧
      (Restores h back cipher msg cipherLen nonce key ↔
        h.read msg = ciphered (h.read key) (h.read nonce) cipherLen (List.replicate cipherLen.toNat 0))) := by
  constructor
  · intro apart apart'
    exact ⟨xorsStream_apart args apart, restores_apart args args' apart apart'⟩
  · rintro rfl rfl
    exact ⟨xorsStream_same args, restores_same args⟩

/-- A message of one byte, with room for its encryption and for the message again, under zeros. -/
def byteMem : Mem := [[1], [0], [0], List.replicate 24 0, List.replicate 32 0]

theorem byteArgs_apart : StreamArgs byteMem (whole 1 1) (whole 0 1) 1 (whole 3 24) (whole 4 32) := by
  constructor <;> decide

theorem byteArgs_back : StreamArgs byteMem (whole 2 1) (whole 1 1) 1 (whole 3 24) (whole 4 32) := by
  constructor <;> decide

theorem byteArgs_same : StreamArgs byteMem (whole 0 1) (whole 0 1) 1 (whole 3 24) (whole 4 32) := by
  constructor <;> decide

theorem stream_xor_byte :
    (XorsStream byteMem (whole 1 1) (whole 0 1) 1 (whole 3 24) (whole 4 32) ↔
      TailZero 1 (byteMem.read (whole 0 1))) ∧
    (Restores byteMem (whole 2 1) (whole 1 1) (whole 0 1) 1 (whole 3 24) (whole 4 32) ↔
      TailZero 1 (byteMem.read (whole 0 1))) :=
  (stream_xor_iff byteArgs_apart byteArgs_back).1 (by decide) (by decide)

/-- In place, a message of the byte one is not combined with the stream. -/
theorem xorsStream_fails : ¬ ∀ (h : Mem) (cipher msg : Buffer) (cipherLen : UInt64) (nonce key : Buffer),
    StreamArgs h cipher msg cipherLen nonce key → XorsStream h cipher msg cipherLen nonce key := by
  intro claimed
  have zero := (xorsStream_same byteArgs_same).mp (claimed _ _ _ _ _ _ byteArgs_same)
  revert zero
  decide

end HaclStar.Correctness.Stream
