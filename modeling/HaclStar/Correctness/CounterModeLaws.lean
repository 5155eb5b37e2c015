import HaclStar.Correctness.Ciphers

/-! Counter mode decrypts what it encrypted, and goes on from one chunk of a message to the next. -/

namespace HaclStar.Correctness.CounterModeLaws

open Endianness Keystream Memory Spec Correctness.SecretBox Correctness.Ciphers

/-! The laws of the specification. -/

section Specification

variable {ctx : BlockCipherCtx} {blockEnc : BlockCipher} {key nonce : Bytes} {counter : Nat}

/-- Within the range of the counter, counter mode combines a message with one keystream. -/
theorem counterMode_stream (single : ctx.incr = 1) (positive : 0 < ctx.blocklen)
    (sizes : ∀ c < 2 ^ ctx.counterbits, (blockEnc key nonce c).length = ctx.blocklen) {plain : Bytes}
    (room : counter + plain.length / ctx.blocklen < 2 ^ ctx.counterbits) :
    counterMode ctx blockEnc key nonce counter plain =
      xorStream (keystream (blockEnc key nonce) ctx.blocklen counter) plain := by
  -- The counter of a block that the message reaches is at most that of its end.
  have reached : ∀ j, ctx.blocklen * j < plain.length → counter + j < 2 ^ ctx.counterbits := by
    intro j inside
    have most : j ≤ plain.length / ctx.blocklen :=
      (Nat.le_div_iff_mul_le positive).mpr (by rw [Nat.mul_comm]; exact inside.le)
    omega
  rw [counterMode_masks positive (by omega)]
  · apply xorStream_congr
    intro i inside
    have block : ctx.blocklen * (i / ctx.blocklen) < plain.length :=
      (Nat.mul_div_le i ctx.blocklen).trans_lt inside
    simp only [keystream, single, Nat.mul_one, Nat.zero_add,
      maskCounter_single single counter block positive]
  · intro j inside
    rw [single, Nat.mul_one] at inside ⊢
    rw [maskCounter_single single counter inside positive]
    exact sizes _ (reached j inside)

/-- Counter mode undoes itself. -/
theorem counterMode_twice (single : ctx.incr = 1) (positive : 0 < ctx.blocklen)
    (sizes : ∀ c < 2 ^ ctx.counterbits, (blockEnc key nonce c).length = ctx.blocklen) {plain : Bytes}
    (room : counter + plain.length / ctx.blocklen < 2 ^ ctx.counterbits) :
    counterMode ctx blockEnc key nonce counter
      (counterMode ctx blockEnc key nonce counter plain) = plain := by
  have once := counterMode_stream single positive sizes room
  have again : counterMode ctx blockEnc key nonce counter
      (xorStream (keystream (blockEnc key nonce) ctx.blocklen counter) plain) = _ :=
    counterMode_stream single positive sizes (by rw [xorStream_length]; exact room)
  rw [once, again, xorStream_involutive]

/-- After whole blocks, counter mode starts again with the counter advanced by their number. -/
theorem counterMode_append (single : ctx.incr = 1) (positive : 0 < ctx.blocklen)
    (sizes : ∀ c < 2 ^ ctx.counterbits, (blockEnc key nonce c).length = ctx.blocklen)
    {first second : Bytes} (whole : first.length % ctx.blocklen = 0)
    (room : counter + (first ++ second).length / ctx.blocklen < 2 ^ ctx.counterbits) :
    counterMode ctx blockEnc key nonce counter (first ++ second) =
      counterMode ctx blockEnc key nonce counter first ++
        counterMode ctx blockEnc key nonce (counter + first.length / ctx.blocklen) second := by
  obtain ⟨blocks, size⟩ := Nat.dvd_of_mod_eq_zero whole
  have number : first.length / ctx.blocklen = blocks := by
    rw [size, Nat.mul_div_cancel_left _ positive]
  have total : (first ++ second).length / ctx.blocklen = blocks + second.length / ctx.blocklen := by
    rw [List.length_append, size, Nat.mul_add_div positive]
  -- From a block boundary on, the keystream is the one of the advanced counter.
  have shifted : (fun i => keystream (blockEnc key nonce) ctx.blocklen counter (first.length + i)) =
      keystream (blockEnc key nonce) ctx.blocklen (counter + blocks) := by
    funext i
    rw [size, keystream_shift positive]
  have both := counterMode_stream single positive sizes room
  rw [total] at room
  have before : counter + first.length / ctx.blocklen < 2 ^ ctx.counterbits := by
    rw [number]
    exact (Nat.add_le_add_left (Nat.le_add_right _ _) _).trans_lt room
  have after : counter + blocks + second.length / ctx.blocklen < 2 ^ ctx.counterbits := by
    rw [Nat.add_assoc]
    exact room
  rw [number, both, counterMode_stream single positive sizes before,
    counterMode_stream single positive sizes after, xorStream_append, shifted]

end Specification

/-! The laws of the buffers that a stream cipher writes. -/

section Buffers

variable {Counter : Type} {call : Buffer → Buffer → UInt32 → Buffer → Buffer → Counter → Stack Unit}
  {nonceSize : Nat} {stream : Bytes → Bytes → Counter → Nat → UInt8}

/-- A cipher call writes the input combined with the keystream of its key, nonce and counter. -/
def Streams (call : Buffer → Buffer → UInt32 → Buffer → Buffer → Counter → Stack Unit)
    (nonceSize : Nat) (stream : Bytes → Bytes → Counter → Nat → UInt8) : Prop :=
  ∀ {h : Mem} {output plain k n : Buffer} {len : UInt32} (ctr : Counter),
    CipherViews h output plain k n nonceSize len →
      call output plain len k n ctr h =
        some ((), h.write output (xorStream (stream (h.read k) (h.read n) ctr) (h.read plain)))

/-- The two laws of a cipher with blocks of 64 bytes: a second call on the output restores the input,
and calls on consecutive chunks, the first of them whole blocks, do what one call on both does. A
later call finds the key and the nonce as they were. -/
structure BufferLaws (call : Buffer → Buffer → UInt32 → Buffer → Buffer → Counter → Stack Unit)
    (nonceSize : Nat) (toNat : Counter → Nat) : Prop where
  twice : ∀ {h : Mem} {output plain k n : Buffer} {len : UInt32} (ctr : Counter),
    CipherViews h output plain k n nonceSize len →
      ∃ h', call output plain len k n ctr h = some ((), h') ∧
        ∀ {restored : Buffer}, CipherViews h' restored output k n nonceSize len →
          h'.read k = h.read k → h'.read n = h.read n →
            call restored output len k n ctr h' = some ((), h'.write restored (h.read plain))
  chunks : ∀ {h : Mem} {output plain k n : Buffer} {len len' : UInt32} {ctr ctr' : Counter},
    CipherViews h output plain k n nonceSize (len + len') → len.toNat + len'.toNat < 2 ^ 32 →
      len.toNat % 64 = 0 → toNat ctr' = toNat ctr + len.toNat / 64 →
        ∃ h', call (output.slice 0 len.toNat) (plain.slice 0 len.toNat) len k n ctr h =
            some ((), h') ∧
          (h'.read k = h.read k → h'.read n = h.read n →
            call (output.slice len.toNat len'.toNat) (plain.slice len.toNat len'.toNat) len' k n ctr'
              h' = call output plain (len + len') k n ctr h)

/-- What a call relies on holds of the corresponding parts of its input and its output. -/
theorem part {h : Mem} {output plain k n : Buffer} {total : UInt32}
    (args : CipherViews h output plain k n nonceSize total) (start : Nat) (len : UInt32)
    (within : start + len.toNat ≤ total.toNat) :
    CipherViews h (output.slice start len.toNat) (plain.slice start len.toNat) k n nonceSize len := by
  obtain ⟨live, live', liveK, liveN, keySize, nonceSize', views, outputSize, plainSize⟩ := args
  exact ⟨live.slice (by omega), live'.slice (by omega), liveK, liveN, keySize, nonceSize',
    views.slice (by omega) (by omega), rfl, rfl⟩

/-- What a call relies on still holds after a prefix of its output has been written. -/
theorem continued {h : Mem} {output plain k n : Buffer} {total : UInt32}
    (args : CipherViews h output plain k n nonceSize total) {done : Nat} (before : done ≤ total.toNat)
    (stream : Nat → UInt8) :
    CipherViews (streamed h stream output plain done) output plain k n nonceSize total := by
  obtain ⟨live, live', liveK, liveN, keySize, nonceSize', views, outputSize, plainSize⟩ := args
  have stays {b : Buffer} (other : h.Live b) :=
    streamed_live stream plain done other live (by omega)
  exact ⟨stays live, stays live', stays liveK, stays liveN, keySize, nonceSize', views, outputSize,
    plainSize⟩

/-- A call that combines with a keystream satisfies both laws. -/
theorem Streams.laws (streams : Streams call nonceSize stream) {toNat : Counter → Nat}
    (advances : ∀ (key nonce : Bytes) (ctr ctr' : Counter) (blocks : Nat),
      toNat ctr' = toNat ctr + blocks →
        (fun i => stream key nonce ctr (64 * blocks + i)) = stream key nonce ctr') :
    BufferLaws call nonceSize toNat where
  twice := by
    intro h output plain k n len ctr args
    have bytes := Mem.read_length args.livePlain
    have fits : (xorStream (stream (h.read k) (h.read n) ctr) (h.read plain)).length =
        output.length := by
      rw [xorStream_length, bytes, args.plainSize, args.outputSize]
    refine ⟨_, streams ctr args, ?_⟩
    intro restored args' sameKey sameNonce
    rw [streams ctr args', sameKey, sameNonce, Mem.read_write_same args.liveOutput fits,
      xorStream_involutive]
  chunks := by
    intro h output plain k n len len' ctr ctr' args fits whole next
    obtain ⟨blocks, size⟩ := Nat.dvd_of_mod_eq_zero whole
    have total : (len + len').toNat = len.toNat + len'.toNat := by
      rw [UInt32.toNat_add, Nat.mod_eq_of_lt fits]
    have bytes := Mem.read_length args.livePlain
    have outputSize := args.outputSize
    have plainSize := args.plainSize
    -- The first call encrypts the first part of the input.
    have start := streams ctr (part args 0 len (by omega))
    rw [Mem.write_slice_zero, Mem.read_slice _ _ (by omega), List.drop_zero, ← streamed] at start
    refine ⟨_, start, ?_⟩
    intro sameKey sameNonce
    -- The second call goes on with the same keystream, and both parts are the whole input.
    have shifted : (fun i => stream (h.read k) (h.read n) ctr (len.toNat + i)) =
        stream (h.read k) (h.read n) ctr' := by
      rw [size, advances]
      rw [next, size, Nat.mul_div_cancel_left _ (by decide)]
    have before : len.toNat ≤ (len + len').toNat := by omega
    have args' := continued args before (stream (h.read k) (h.read n) ctr)
    have covered : (h.read plain).take (len.toNat + len'.toNat) = h.read plain :=
      List.take_of_length_le (by omega)
    have rest := streams ctr' (part args' len.toNat len' (by omega))
    rw [sameKey, sameNonce, ← shifted, streamed_next args.views args.liveOutput args.livePlain
      (by omega) (by omega)] at rest
    rw [rest, streams ctr args, streamed, covered]

/-- A call leaves every view as it was that is disjoint from its output, so the key and the nonce when
they are. -/
theorem Streams.keeps (streams : Streams call nonceSize stream) {h h' : Mem}
    {output plain k n b : Buffer} {len : UInt32} {ctr : Counter}
    (args : CipherViews h output plain k n nonceSize len)
    (ran : call output plain len k n ctr h = some ((), h')) (apart : output.Disjoint b) :
    h'.read b = h.read b := by
  have bytes := Mem.read_length args.livePlain
  rw [streams ctr args] at ran
  obtain rfl : _ = h' := (Prod.mk.inj (Option.some.inj ran)).2
  refine Mem.read_write_disjoint args.liveOutput ?_ apart
  rw [xorStream_length, bytes, args.plainSize, args.outputSize]

end Buffers

/-- ChaCha20 combines its input with the keystream of its 32-bit counter. -/
theorem chacha20_streams : Streams Impl.Chacha20.chacha20 12 (fun key nonce ctr =>
    keystream (Spec.Chacha20.chacha20Block key nonce) 64 ctr.toNat) := by
  intro h output plain k n len ctr args
  obtain ⟨live, live', liveK, liveN, keySize, nonceSize, views, outputSize, plainSize⟩ := args
  have bytes := Mem.read_length live'
  rw [Impl.Chacha20.chacha20_run views live live' liveK liveN keySize nonceSize outputSize.ge
    plainSize.ge, List.take_of_length_le (by omega), Spec.Chacha20.chacha20EncryptBytes_keystream]

/-- Salsa20 combines its input with the keystream of its 64-bit counter. -/
theorem salsa20_streams : Streams Impl.Salsa20.salsa20 8 (fun key nonce ctr =>
    keystream (Spec.Salsa20.salsa20Block key nonce) 64 ctr.toNat) := by
  intro h output plain k n len ctr args
  obtain ⟨live, live', liveK, liveN, keySize, nonceSize, views, outputSize, plainSize⟩ := args
  have bytes := Mem.read_length live'
  rw [Impl.Salsa20.salsa20_run views live live' liveK liveN keySize nonceSize outputSize.ge
    plainSize.ge, List.take_of_length_le (by omega)]

/-- A keystream from a counter that is some blocks further on. -/
theorem keystream_advance (block : Nat → Bytes) {start start' blocks : Nat}
    (next : start' = start + blocks) :
    (fun i => keystream block 64 start (64 * blocks + i)) = keystream block 64 start' := by
  funext i
  rw [keystream_shift (by decide), next]

/-- Counter mode with single steps is an involution and goes on from one chunk of a message to the
next. The same holds of the buffers that ChaCha20 and Salsa20 write. -/
theorem counterMode_laws {ctx : BlockCipherCtx} {blockEnc : BlockCipher} {key nonce : Bytes}
    {counter : Nat} (single : ctx.incr = 1) (positive : 0 < ctx.blocklen)
    (sizes : ∀ c < 2 ^ ctx.counterbits, (blockEnc key nonce c).length = ctx.blocklen) :
    (∀ plain : Bytes, counter + plain.length / ctx.blocklen < 2 ^ ctx.counterbits →
      counterMode ctx blockEnc key nonce counter
        (counterMode ctx blockEnc key nonce counter plain) = plain) ∧
    (∀ first second : Bytes, first.length % ctx.blocklen = 0 →
      counter + (first ++ second).length / ctx.blocklen < 2 ^ ctx.counterbits →
        counterMode ctx blockEnc key nonce counter (first ++ second) =
          counterMode ctx blockEnc key nonce counter first ++
            counterMode ctx blockEnc key nonce (counter + first.length / ctx.blocklen) second) ∧
    BufferLaws Impl.Chacha20.chacha20 12 UInt32.toNat ∧
    BufferLaws Impl.Salsa20.salsa20 8 UInt64.toNat := by
  refine ⟨?_, ?_, ?_, ?_⟩
  · intro plain room
    exact counterMode_twice single positive sizes room
  · intro first second whole room
    exact counterMode_append single positive sizes whole room
  · apply chacha20_streams.laws
    intro key nonce ctr ctr' blocks next
    exact keystream_advance _ next
  · apply salsa20_streams.laws
    intro key nonce ctr ctr' blocks next
    exact keystream_advance _ next

/-- A message of one block and one byte, encrypted in two chunks. -/
theorem counterMode_laws_zero :
    counterMode Spec.Chacha20.chacha20Ctx Spec.Chacha20.chacha20Block [] [] 1
      (counterMode Spec.Chacha20.chacha20Ctx Spec.Chacha20.chacha20Block [] [] 1 [7]) = [7] ∧
    counterMode Spec.Chacha20.chacha20Ctx Spec.Chacha20.chacha20Block [] [] 1
        (List.replicate 64 0 ++ [7]) =
      counterMode Spec.Chacha20.chacha20Ctx Spec.Chacha20.chacha20Block [] [] 1
          (List.replicate 64 0) ++
        counterMode Spec.Chacha20.chacha20Ctx Spec.Chacha20.chacha20Block [] [] (1 + 64 / 64) [7] ∧
    (∃ h', Impl.Chacha20.chacha20 (whole 0 64) (whole 1 64) 64 (whole 2 32) (whole 3 12) 1
        (zeroMem [65, 65, 32, 12, 8]) = some ((), h') ∧
      Impl.Chacha20.chacha20 ⟨0, 64, 1⟩ ⟨1, 64, 1⟩ 1 (whole 2 32) (whole 3 12) 2 h' =
        Impl.Chacha20.chacha20 (whole 0 65) (whole 1 65) 65 (whole 2 32) (whole 3 12) 1
          (zeroMem [65, 65, 32, 12, 8])) ∧
    ∃ h', Impl.Salsa20.salsa20 (whole 0 64) (whole 1 64) 64 (whole 2 32) (whole 4 8) 1
        (zeroMem [65, 65, 32, 12, 8]) = some ((), h') ∧
      Impl.Salsa20.salsa20 ⟨0, 64, 1⟩ ⟨1, 64, 1⟩ 1 (whole 2 32) (whole 4 8) 2 h' =
        Impl.Salsa20.salsa20 (whole 0 65) (whole 1 65) 65 (whole 2 32) (whole 4 8) 1
          (zeroMem [65, 65, 32, 12, 8]) := by
  obtain ⟨twice, append, chacha20, salsa20⟩ := @counterMode_laws Spec.Chacha20.chacha20Ctx
    Spec.Chacha20.chacha20Block [] [] 1 rfl (by decide)
    fun c _ => Spec.Chacha20.chacha20Block_length [] [] c
  refine ⟨twice [7] (by decide), append (List.replicate 64 0) [7] (by decide) (by decide), ?_, ?_⟩
  · have args : CipherViews (zeroMem [65, 65, 32, 12, 8]) (whole 0 65) (whole 1 65) (whole 2 32)
        (whole 3 12) 12 (64 + 1) := by constructor <;> decide
    have advanced : (2 : UInt32).toNat = (1 : UInt32).toNat + (64 : UInt32).toNat / 64 := by decide
    obtain ⟨h', ran, next⟩ := chacha20.chunks args (by decide) (by decide) advanced
    have keeps {b : Buffer} (apart : (whole 0 64).Disjoint b) :=
      chacha20_streams.keeps (by constructor <;> decide) ran apart
    exact ⟨h', ran, next (keeps (by decide)) (keeps (by decide))⟩
  · have args : CipherViews (zeroMem [65, 65, 32, 12, 8]) (whole 0 65) (whole 1 65) (whole 2 32)
        (whole 4 8) 8 (64 + 1) := by constructor <;> decide
    have advanced : (2 : UInt64).toNat = (1 : UInt64).toNat + (64 : UInt32).toNat / 64 := by decide
    obtain ⟨h', ran, next⟩ := salsa20.chunks args (by decide) (by decide) advanced
    have keeps {b : Buffer} (apart : (whole 0 64).Disjoint b) :=
      salsa20_streams.keeps (by constructor <;> decide) ran apart
    exact ⟨h', ran, next (keeps (by decide)) (keeps (by decide))⟩

end HaclStar.Correctness.CounterModeLaws
