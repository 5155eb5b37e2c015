import HaclStar.Api.SecretBoxZeroPad

/-! Secret-key boxes over buffers without padding. -/

namespace HaclStar.Api.SecretBox

open Endianness Keystream Memory Impl Impl.HSalsa20 Impl.Salsa20 Impl.Poly1305 Impl.Policies
open Spec.SecretBox

/-- The bytes of a message that share the first block with the one-time key. -/
def firstLen (len : UInt64) : UInt64 := if len > 64 - 32 then 64 - 32 else len

/-- Encrypt `rest` bytes beyond the first block when there are any, from counter one on. -/
def salsa20Rest (output input : Buffer) (len len0 : UInt64) (rest : UInt32) (subkey n2 : Buffer) :
    Stack Unit :=
  if len > len0 then do
    let output' ← output.offset len0.toUInt32.toNat
    let input' ← input.offset len0.toUInt32.toNat
    salsa20 output' input' rest subkey n2 1
  else return ()

/-- Seal a message, and write the tag to a buffer of its own. -/
def cryptoSecretboxDetached (c mac m : Buffer) (mlen : UInt64) (n k : Buffer) : Stack UInt32 :=
  inFrame do
    let mlen_32 := mlen.toUInt32
    let hsalsaState ← create 96
    let subkey ← hsalsaState.sub 0 32
    let block0 ← hsalsaState.sub 32 64
    let mlen0 := firstLen mlen
    let mlen0_32 := mlen0.toUInt32
    Buffer.blit m 0 block0 32 mlen0_32.toNat
    let n1 ← n.sub 0 16
    hsalsa20 subkey k n1
    let n2 ← n.sub 16 8
    salsa20 block0 block0 (mlen0_32 + 32) subkey n2 0
    Buffer.blit block0 32 c 0 mlen0_32.toNat
    salsa20Rest c m mlen mlen0 (mlen_32 - mlen0_32) subkey n2
    let mackey ← block0.sub 0 32
    cryptoOnetimeauth mac c mlen mackey
    return 0

/-- Decrypt when the comparison of the tags has succeeded. -/
def cryptoSecretboxOpenDetachedDecrypt (m c : Buffer) (clen : UInt64) (n2 subkey block0 : Buffer) :
    Stack UInt32 := do
  let clen0 := firstLen clen
  let clen0_32 := clen0.toUInt32
  Buffer.blit c 0 block0 32 clen0_32.toNat
  salsa20 block0 block0 (clen0_32 + 32) subkey n2 0
  Buffer.blit block0 32 m 0 clen0_32.toNat
  let clen_32 := clen.toUInt32
  salsa20Rest m c clen clen0 (clen_32 + clen0_32) subkey n2
  return 0

/-- Open a ciphertext whose tag is in a buffer of its own. -/
def cryptoSecretboxOpenDetached (m c mac : Buffer) (clen : UInt64) (n k : Buffer) : Stack UInt32 :=
  inFrame do
    let hsalsaState ← create 112
    let subkey ← hsalsaState.sub 0 32
    let block0 ← hsalsaState.sub 32 64
    let tmpMac ← hsalsaState.sub 96 16
    let n1 ← n.sub 0 16
    hsalsa20 subkey k n1
    let n2 ← n.sub 16 8
    salsa20 block0 block0 32 subkey n2 0
    let mackey ← block0.sub 0 32
    cryptoOnetimeauth tmpMac c clen mackey
    let verify ← cmpBytes mac tmpMac 16
    if verify = 0 then cryptoSecretboxOpenDetachedDecrypt m c clen n2 subkey block0
    else return 0xffffffff

/-- What sealing and opening rely on: live views of the right sizes, and a nonce that is not overwritten
between the two parts of the message. -/
structure Args (h : Mem) (output input n k : Buffer) (len : UInt64) : Prop where
  liveOutput : h.Live output
  liveInput : h.Live input
  liveNonce : h.Live n
  liveKey : h.Live k
  nonceSize : n.length = 24
  keySize : k.length = 32
  views : SameOrDisjoint output input
  apart : output.Disjoint n
  bounded : len.toNat < 2 ^ 32
  outputSize : output.length = len.toNat
  inputSize : input.length = len.toNat

/-- The keystream that meets the message. -/
def messageStream (h : Mem) (n k : Buffer) (i : Nat) : UInt8 := boxStream (h.read k) (h.read n) (32 + i)

variable {h : Mem} {c mac m n k subkey block0 output input : Buffer} {len : UInt64}

/-- At most thirty-two bytes share the first block. -/
theorem firstLen_toNat (len : UInt64) : (firstLen len).toNat = min len.toNat 32 := by
  unfold firstLen
  have limit : ((64 : UInt64) - 32).toNat = 32 := rfl
  split
  · next long =>
    rw [gt_iff_lt, UInt64.lt_iff_toNat_lt, limit] at long
    rw [limit, Nat.min_eq_right long.le]
  · next short =>
    rw [gt_iff_lt, UInt64.lt_iff_toNat_lt, limit] at short
    rw [Nat.min_eq_left (by omega)]

theorem firstLen_toUInt32 (len : UInt64) : (firstLen len).toUInt32.toNat = min len.toNat 32 := by
  rw [UInt64.toNat_toUInt32, firstLen_toNat]
  omega

theorem firstLen_padded (len : UInt64) :
    ((firstLen len).toUInt32 + 32).toNat = min len.toNat 32 + 32 := by
  rw [UInt32.toNat_add, firstLen_toUInt32]
  show (min len.toNat 32 + 32) % 2 ^ 32 = _
  omega

/-- The rest is encrypted with the keystream from the second block on. -/
theorem salsa20Rest_run (key : Bytes) (rest : UInt32) (views : SameOrDisjoint output input)
    (live : h.Live output) (live' : h.Live input) (liveN : h.Live n) (liveSk : h.Live subkey)
    (nonceSize : n.length = 24) (skSize : subkey.length = 32)
    (derived : h.read subkey = Spec.HSalsa20.hsalsa20 key ((h.read n).take 16))
    (long : 32 < len.toNat) (fits : 32 + rest.toNat ≤ output.length)
    (fits' : 32 + rest.toNat ≤ input.length) :
    salsa20Rest output input len (firstLen len) rest subkey (n.slice 16 8) h =
      some ((), h.write (output.slice 32 rest.toNat)
        (xorStream (fun i => boxStream key (h.read n) (64 + i))
          (h.read (input.slice 32 rest.toNat)))) := by
  have bytes := Mem.read_length liveN
  have more : len > firstLen len := by
    rw [gt_iff_lt, UInt64.lt_iff_toNat_lt, firstLen_toNat]
    omega
  have first : (firstLen len).toUInt32.toNat = 32 := by rw [firstLen_toUInt32]; omega
  have nonce : ((h.read n).drop 16).take 8 = (h.read n).drop 16 :=
    List.take_of_length_le (by rw [List.length_drop]; omega)
  have views' : SameOrDisjoint (output.slice 32 (output.length - 32))
      (input.slice 32 (input.length - 32)) := by
    rcases views with rfl | apart
    · exact Or.inl rfl
    · exact Or.inr ((apart.slice_left (by omega)).slice_right (by omega))
  -- Counter one is the keystream from its sixty-fifth byte on.
  have stream : keystream (Spec.Salsa20.salsa20Block (Spec.HSalsa20.hsalsa20 key ((h.read n).take 16))
      ((h.read n).drop 16)) 64 1 = fun i => boxStream key (h.read n) (64 + i) := by
    funext i
    exact (keystream_shift (by decide) 1 i).symm
  rw [salsa20Rest, if_pos more, first, Stack.bind_run (Buffer.offset_run _ (by omega)),
    Stack.bind_run (Buffer.offset_run _ (by omega)),
    salsa20_run views' (live.slice (by omega)) (live'.slice (by omega)) liveSk
      (liveN.slice (by omega)) skSize rfl (by rw [Buffer.slice_length]; omega)
      (by rw [Buffer.slice_length]; omega), derived, Mem.read_slice _ n (by omega), nonce]
  rw [show (1 : UInt64).toNat = 1 from rfl, stream, Mem.read_slice _ input (by omega),
    Mem.read_slice _ input (by omega), List.take_take, Nat.min_eq_left (by omega)]
  rfl

/-- A rest that leaves one of the views faults. -/
theorem salsa20Rest_fault (rest : UInt32) (liveN : h.Live n) (liveSk : h.Live subkey)
    (nonceSize : n.length = 24) (skSize : subkey.length = 32) (long : 32 < len.toNat)
    (reaches : 32 ≤ output.length) (reaches' : 32 ≤ input.length)
    (beyond : output.length < 32 + rest.toNat ∨ input.length < 32 + rest.toNat) :
    salsa20Rest output input len (firstLen len) rest subkey (n.slice 16 8) h = none := by
  have more : len > firstLen len := by
    rw [gt_iff_lt, UInt64.lt_iff_toNat_lt, firstLen_toNat]
    omega
  have first : (firstLen len).toUInt32.toNat = 32 := by rw [firstLen_toUInt32]; omega
  rw [salsa20Rest, if_pos more, first, Stack.bind_run (Buffer.offset_run _ (by omega)),
    Stack.bind_run (Buffer.offset_run _ (by omega)),
    salsa20_fault liveSk (liveN.slice (by omega)) skSize rfl (by
      simp only [Buffer.slice_length]
      omega)]

/-- A message of one block has no rest. -/
theorem salsa20Rest_none (rest : UInt32) (n2 : Buffer) (short : len.toNat ≤ 32) :
    salsa20Rest output input len (firstLen len) rest subkey n2 h = some ((), h) := by
  have none : ¬ len > firstLen len := by
    rw [gt_iff_lt, UInt64.lt_iff_toNat_lt, firstLen_toNat]
    omega
  rw [salsa20Rest, if_neg none, Stack.pure_run]

/-- The part of the message in the first block is enciphered in place and copied to the output. -/
theorem firstBlock_run (len : UInt64) (key : Bytes) {pre part post : Bytes} (live : h.Live block0)
    (liveOutput : h.Live output) (liveN : h.Live n) (liveSk : h.Live subkey)
    (blockSize : block0.length = 64) (nonceSize : n.length = 24) (skSize : subkey.length = 32)
    (derived : h.read subkey = Spec.HSalsa20.hsalsa20 key ((h.read n).take 16))
    (preSize : pre.length = 32) (partSize : part.length = min len.toNat 32)
    (filled : h.read block0 = pre ++ part ++ post) (fits : min len.toNat 32 ≤ output.length) :
    salsa20 block0 block0 ((firstLen len).toUInt32 + 32) subkey (n.slice 16 8) 0 h =
      some ((), h.write block0 (xorStream (boxStream key (h.read n)) (pre ++ part))) ∧
    Buffer.blit block0 32 output 0 (firstLen len).toUInt32.toNat
        (h.write block0 (xorStream (boxStream key (h.read n)) (pre ++ part))) =
      some ((), (h.write block0 (xorStream (boxStream key (h.read n)) (pre ++ part))).write output
        (encipher key (h.read n) part)) := by
  have padded := firstLen_padded len
  have short := firstLen_toUInt32 len
  have joined : (pre ++ part).length = min len.toNat 32 + 32 := by rw [List.length_append]; omega
  have bytes : (h.read block0).take (min len.toNat 32 + 32) = pre ++ part := by
    rw [filled, List.take_left' joined]
  have step := ZeroPad.salsa20_boxStream key ((firstLen len).toUInt32 + 32) (Or.inl rfl) live live liveN
    liveSk nonceSize skSize derived (by rw [padded]; omega) (by rw [padded]; omega)
  rw [padded, bytes] at step
  have xSize : (xorStream (boxStream key (h.read n)) (pre ++ part)).length = min len.toNat 32 + 32 := by
    rw [xorStream_length, joined]
  have xFits : (xorStream (boxStream key (h.read n)) (pre ++ part)).length ≤ block0.length := by omega
  refine ⟨step, ?_⟩
  rw [short, Buffer.blit_run (live.write live xFits) (liveOutput.write live xFits) (by omega) (by omega),
    Mem.write_slice_zero, Mem.read_write_prefix live xFits,
    List.drop_append_of_le_length (by omega), List.take_left' (by rw [List.length_drop]; omega),
    drop_boxStream, List.drop_left' preSize]

/-- Sealing or opening, the bytes beyond the first block extend those of the first block. -/
theorem salsa20Rest_streamed {inner : Mem} (len : UInt64) (rest : UInt32) (views : SameOrDisjoint output input)
    (live : h.Live output) (live' : h.Live input) (liveN : h.Live n) (liveSk : inner.Live subkey)
    (nonceSize : n.length = 24) (skSize : subkey.length = 32)
    (outer : (streamed h (messageStream h n k) output input 32).Outer inner)
    (apart : output.Disjoint n)
    (derived : inner.read subkey = Spec.HSalsa20.hsalsa20 (h.read k) ((h.read n).take 16))
    (long : 32 < len.toNat) (fits : 32 + rest.toNat ≤ output.length)
    (fits' : 32 + rest.toNat ≤ input.length) :
    ∃ bytes, bytes.length = rest.toNat ∧
      (streamed h (messageStream h n k) output input (32 + rest.toNat)).Outer
        (inner.write (output.slice 32 rest.toNat) bytes) ∧
      salsa20Rest output input len (firstLen len) rest subkey (n.slice 16 8) inner =
        some ((), inner.write (output.slice 32 rest.toNat) bytes) := by
  have within (b : Buffer) (other : h.Live b) :
      (streamed h (messageStream h n k) output input 32).Live b :=
    streamed_live _ _ _ other live (by omega)
  have liveInput := outer.live (within input live')
  have nonce : inner.read n = h.read n := by
    rw [outer.read (within n liveN), streamed, Mem.read_write_disjoint live (by
      rw [xorStream_length, List.length_take]; omega) apart]
  have ran := salsa20Rest_run (h.read k) rest views (outer.live (within output live)) liveInput
    (outer.live (within n liveN)) liveSk nonceSize skSize (by rw [derived, nonce]) long fits fits'
  rw [nonce, outer.read ((within input live').slice fits')] at ran
  have shifted : (fun i => boxStream (h.read k) (h.read n) (64 + i)) =
      fun i => messageStream h n k (32 + i) := by
    funext i
    rw [messageStream, ← Nat.add_assoc]
  rw [shifted] at ran
  have next := outer.write_old ((within output live).slice fits)
    (xorStream (fun i => messageStream h n k (32 + i))
      ((streamed h (messageStream h n k) output input 32).read (input.slice 32 rest.toNat)))
  -- The next part meets the keystream where the first block left it.
  rw [streamed_next views live live' fits fits'] at next
  refine ⟨_, ?_, next, ran⟩
  rw [xorStream_length, Mem.read_length ((within input live').slice fits'), Buffer.slice_length]

/-- Sealing first enciphers what shares a block with the one-time key. -/
theorem cryptoSecretboxDetached_first (args : Args h c m n k len) (mac : Buffer) :
    ∃ inner st, (streamed h (messageStream h n k) c m (min len.toNat 32)).Outer inner ∧
      inner.Live st ∧ h.length ≤ st.base ∧ st.length = 96 ∧
      inner.read (st.slice 0 32) = Spec.HSalsa20.hsalsa20 (h.read k) ((h.read n).take 16) ∧
      inner.read (st.slice 32 32) = macKey (h.read k) (h.read n) ∧
      cryptoSecretboxDetached c mac m len n k h = inFrame (fun _ => (do
        salsa20Rest c m len (firstLen len) (len.toUInt32 - (firstLen len).toUInt32) (st.slice 0 32)
          (n.slice 16 8)
        let mackey ← (st.slice 32 64).sub 0 32
        cryptoOnetimeauth mac c len mackey
        return 0 : Stack UInt32) inner) h := by
  obtain ⟨liveC, liveM, liveN, liveK, nonceSize, keySize, views, apart, bounded, sizeC, sizeM⟩ := args
  have bytes := Mem.read_length liveM
  have short := firstLen_toUInt32 len
  set st := h.fresh 96 with st_def
  have new : h.length ≤ st.base := le_rfl
  have room : st.length = 96 := rfl
  have outer0 : h.Outer (h.alloc 96) := (Mem.Outer.refl h).alloc 96
  have live0 : (h.alloc 96).Live st := Mem.fresh_live h 96
  set stream := messageStream h n k with stream_def
  set first := min len.toNat 32 with first_def
  set part := (h.read m).take first with part_def
  have partSize : part.length = first := by rw [part_def, List.length_take]; omega
  -- The first part of the message is copied to the zero block.
  have block0 := live0.slice (i := 32) (n := 64) (by omega)
  have zeros0 : (h.alloc 96).read (st.slice 32 64) = List.replicate 64 0 := by
    rw [Mem.read_slice _ _ (by omega), Mem.read_fresh, List.drop_replicate, List.take_replicate]
    rfl
  have step0 : Buffer.blit m 0 (st.slice 32 64) 32 first (h.alloc 96) = some ((), _) :=
    Buffer.blit_run (outer0.live liveM) block0 (by omega) (by rw [Buffer.slice_length]; omega)
  rw [outer0.read liveM, List.drop_zero, ← part_def,
    Mem.write_slice block0 partSize (by rw [Buffer.slice_length]; omega), zeros0] at step0
  have splice0 : splice (List.replicate 64 0) 32 part =
      List.replicate 32 0 ++ part ++ List.replicate (64 - (32 + first)) 0 := by
    rw [splice, List.take_replicate, List.drop_replicate, partSize]
    rfl
  rw [splice0] at step0
  set filled := List.replicate 32 0 ++ part ++ List.replicate (64 - (32 + first)) 0 with filled_def
  have filledSize : filled.length = 64 := by
    rw [filled_def, List.length_append, List.length_append, List.length_replicate,
      List.length_replicate, partSize]
    omega
  set m1 := (h.alloc 96).write (st.slice 32 64) filled with m1_def
  have outer1 : h.Outer m1 := outer0.write_new (b := st.slice 32 64) new filled
  have live1 : m1.Live st := live0.write block0 filledSize.le
  have read1 : m1.read (st.slice 32 64) = filled := Mem.read_write_same block0 filledSize
  -- The derived key goes next to it.
  set derived := Spec.HSalsa20.hsalsa20 (h.read k) ((h.read n).take 16) with derived_def
  have derivedSize : derived.length = 32 := Spec.HSalsa20.hsalsa20_length _ _
  have sk1 := live1.slice (i := 0) (n := 32) (by omega)
  have step1 := ZeroPad.hsalsa20_derive sk1 (outer1.live liveK) (outer1.live liveN) rfl keySize nonceSize
  rw [outer1.read liveK, outer1.read liveN, ← derived_def] at step1
  set m2 := m1.write (st.slice 0 32) derived with m2_def
  have outer2 : h.Outer m2 := outer1.write_new (b := st.slice 0 32) new derived
  have live2 : m2.Live st := live1.write sk1 derivedSize.le
  have sk2 := live2.slice (i := 0) (n := 32) (by omega)
  have block2 := live2.slice (i := 32) (n := 64) (by omega)
  have key2 : m2.read (st.slice 0 32) = derived := Mem.read_write_same sk1 derivedSize
  have read2 : m2.read (st.slice 32 64) = filled := by
    rw [m2_def, Mem.read_write_disjoint sk1 derivedSize.le (Buffer.disjoint_slices _ (by omega)), read1]
  -- The first block is enciphered, and its second half is the first part of the ciphertext.
  obtain ⟨step2, step3⟩ := firstBlock_run len (h.read k) block2 (outer2.live liveC)
    (outer2.live liveN) sk2 rfl nonceSize rfl (by rw [key2, outer2.read liveN])
    (List.length_replicate (n := 32) (a := 0)) partSize (by rw [read2, filled_def]) (by omega)
  rw [outer2.read liveN] at step2 step3
  set x := xorStream (boxStream (h.read k) (h.read n)) (List.replicate 32 0 ++ part) with x_def
  have xSize : x.length = 32 + first := by
    rw [x_def, xorStream_length, List.length_append, List.length_replicate, partSize]
  have xFits : x.length ≤ (st.slice 32 64).length := by rw [Buffer.slice_length]; omega
  set m3 := m2.write (st.slice 32 64) x with m3_def
  have outer3 : h.Outer m3 := outer2.write_new (b := st.slice 32 64) new x
  have live3 : m3.Live st := live2.write block2 xFits
  have key3 : m3.read (st.slice 0 32) = derived := by
    rw [m3_def, Mem.read_write_disjoint block2 xFits
      (Buffer.disjoint_slices st (by omega : 0 + 32 ≤ 32)).symm, key2]
  have mackey3 : m3.read (st.slice 32 32) = macKey (h.read k) (h.read n) := by
    have part3 := Mem.read_write_slice block2 (i := 0) (n := 32) (by omega) xFits
    rw [Buffer.slice_slice, ← m3_def, List.drop_zero] at part3
    rw [part3, x_def, take_boxStream (List.take_left' List.length_replicate)]
  set y := encipher (h.read k) (h.read n) part with y_def
  have yFits : y.length ≤ c.length := by rw [y_def, encipher_length]; omega
  refine ⟨m3.write c y, st, outer3.write_old liveC y, live3.write (outer3.live liveC) yFits, new, room,
    ?_, ?_, inFrame_reached ?_⟩
  · rw [outer3.read_local liveC yFits (st.slice 0 32) new, key3]
  · rw [outer3.read_local liveC yFits (st.slice 32 32) new, mackey3]
  · rw [Stack.bind_run (create_run 96), ← st_def, Stack.bind_run (Buffer.sub_run _ (by omega)),
      Stack.bind_run (Buffer.sub_run _ (by omega)), short, Stack.bind_run step0,
      Stack.bind_run (Buffer.sub_run _ (by omega)), Stack.bind_run step1,
      Stack.bind_run (Buffer.sub_run _ (by omega)), Stack.bind_run step2, ← short,
      Stack.bind_run step3]

/-- Sealing writes the ciphertext and its tag. -/
theorem cryptoSecretboxDetached_run (args : Args h c m n k len) (liveMac : h.Live mac)
    (size : mac.length = 16) :
    cryptoSecretboxDetached c mac m len n k h =
      some (0, (h.write c (encipher (h.read k) (h.read n) (h.read m))).write mac
        (tag (h.read k) (h.read n) (encipher (h.read k) (h.read n) (h.read m)))) := by
  obtain ⟨m4, st, outer4, live4, new, room, key4, mackey4, ran⟩ :=
    cryptoSecretboxDetached_first args mac
  obtain ⟨liveC, liveM, liveN, liveK, nonceSize, keySize, views, apart, bounded, sizeC, sizeM⟩ := args
  have bytes := Mem.read_length liveM
  have short := firstLen_toUInt32 len
  set stream := messageStream h n k with stream_def
  have within (done : Nat) (b : Buffer) (other : h.Live b) (fits : done ≤ len.toNat) :
      (streamed h stream c m done).Live b := streamed_live _ _ _ other liveC (by omega)
  -- What lies beyond the first block follows.
  obtain ⟨m5, outer5, live5, mackey5, step4⟩ : ∃ m5, (streamed h stream c m len.toNat).Outer m5 ∧
      m5.Live st ∧ m5.read (st.slice 32 32) = macKey (h.read k) (h.read n) ∧
      salsa20Rest c m len (firstLen len) (len.toUInt32 - (firstLen len).toUInt32) (st.slice 0 32)
        (n.slice 16 8) m4 = some ((), m5) := by
    rcases Nat.lt_or_ge 32 len.toNat with long | none
    · rw [Nat.min_eq_right long.le] at outer4 short
      have rest : (len.toUInt32 - (firstLen len).toUInt32).toNat = len.toNat - 32 := by
        have whole : len.toUInt32.toNat = len.toNat := by rw [UInt64.toNat_toUInt32]; omega
        rw [UInt32.toNat_sub_of_le _ _ (UInt32.le_iff_toNat_le.mpr (by omega)), whole, short]
      obtain ⟨rest', size', outer5, step4⟩ := salsa20Rest_streamed len _ views liveC liveM liveN
        (live4.slice (by omega)) nonceSize rfl outer4 apart key4 long (by rw [rest]; omega)
        (by rw [rest]; omega)
      rw [rest] at size' step4 outer5
      rw [Nat.add_sub_cancel' long.le] at outer5
      have liveRest := (outer4.live (within 32 c liveC long.le)).slice (i := 32) (n := len.toNat - 32)
        (by omega)
      have local' := Mem.Outer.apart (c := st.slice 32 32) new liveC
      refine ⟨_, outer5, live4.write liveRest size'.le, ?_, step4⟩
      rw [Mem.read_write_disjoint liveRest size'.le (local'.symm.slice_left (by omega)), mackey4]
    · rw [Nat.min_eq_left none] at outer4
      exact ⟨m4, outer4, live4, mackey4, salsa20Rest_none _ _ none⟩
  have written : (streamed h stream c m len.toNat).read c =
      encipher (h.read k) (h.read n) (h.read m) := by
    rw [streamed, List.take_of_length_le (by omega), Mem.read_write_same liveC (by
      rw [xorStream_length]; omega)]
    rfl
  have cipher : (m5.read c).take len.toNat = encipher (h.read k) (h.read n) (h.read m) := by
    rw [outer5.read (within _ c liveC le_rfl), written,
      List.take_of_length_le (by rw [encipher_length]; omega)]
  have liveMac5 := within len.toNat mac liveMac le_rfl
  have step5 := cryptoOnetimeauth_run len (outer5.live liveMac5) (outer5.live (within _ c liveC le_rfl))
    (live5.slice (i := 32) (n := 32) (by omega)) size.ge rfl bounded sizeC.ge
  rw [cipher, mackey5, ← tag] at step5
  have outer6 := outer5.write_old liveMac5
    (tag (h.read k) (h.read n) (encipher (h.read k) (h.read n) (h.read m)))
  have tail : (do
      salsa20Rest c m len (firstLen len) (len.toUInt32 - (firstLen len).toUInt32) (st.slice 0 32)
        (n.slice 16 8)
      let mackey ← (st.slice 32 64).sub 0 32
      cryptoOnetimeauth mac c len mackey
      return 0 : Stack UInt32) m4 = some (0, m5.write mac
        (tag (h.read k) (h.read n) (encipher (h.read k) (h.read n) (h.read m)))) := by
    rw [Stack.bind_run step4, Stack.bind_run (Buffer.sub_run _ (by rw [Buffer.slice_length]; omega)),
      Buffer.slice_slice, Stack.bind_run step5, Stack.pure_run]
  rw [ran]
  refine (inFrame_finish tail outer6 (by rw [Mem.write_length, streamed, Mem.write_length])).trans ?_
  rw [streamed, List.take_of_length_le (by omega)]
  rfl

/-- Whether a buffer holds the tag of a ciphertext. -/
def Authentic (h : Mem) (c mac n k : Buffer) : Prop :=
  h.read mac = tag (h.read k) (h.read n) (h.read c)

instance (h : Mem) (c mac n k : Buffer) : Decidable (Authentic h c mac n k) :=
  inferInstanceAs (Decidable (_ = _))

/-- Opening first derives the keys in local memory, and compares the tags. -/
theorem cryptoSecretboxOpenDetached_verify (args : Args h m c n k len) (liveMac : h.Live mac)
    (size : mac.length = 16) :
    ∃ inner st, h.Outer inner ∧ inner.Live st ∧ h.length ≤ st.base ∧ st.length = 112 ∧
      inner.read (st.slice 0 32) = Spec.HSalsa20.hsalsa20 (h.read k) ((h.read n).take 16) ∧
      inner.read (st.slice 32 64) = macKey (h.read k) (h.read n) ++ List.replicate 32 0 ∧
      (Authentic h c mac n k → cryptoSecretboxOpenDetached m c mac len n k h =
        inFrame (fun _ => cryptoSecretboxOpenDetachedDecrypt m c len (n.slice 16 8) (st.slice 0 32)
          (st.slice 32 64) inner) h) ∧
      (¬ Authentic h c mac n k →
        cryptoSecretboxOpenDetached m c mac len n k h = some (0xffffffff, h)) := by
  obtain ⟨liveM, liveC, liveN, liveK, nonceSize, keySize, views, apart, bounded, sizeM, sizeC⟩ := args
  have bytes := Mem.read_length liveC
  set st := h.fresh 112 with st_def
  have new : h.length ≤ st.base := le_rfl
  have room : st.length = 112 := rfl
  have outer0 : h.Outer (h.alloc 112) := (Mem.Outer.refl h).alloc 112
  have live0 : (h.alloc 112).Live st := Mem.fresh_live h 112
  have zeros0 : (h.alloc 112).read (st.slice 32 64) = List.replicate 64 0 := by
    rw [Mem.read_slice _ _ (by omega), Mem.read_fresh, List.drop_replicate, List.take_replicate]
    rfl
  -- The derived key.
  set derived := Spec.HSalsa20.hsalsa20 (h.read k) ((h.read n).take 16) with derived_def
  have derivedSize : derived.length = 32 := Spec.HSalsa20.hsalsa20_length _ _
  have sk0 := live0.slice (i := 0) (n := 32) (by omega)
  have step1 := ZeroPad.hsalsa20_derive sk0 (outer0.live liveK) (outer0.live liveN) rfl keySize nonceSize
  rw [outer0.read liveK, outer0.read liveN, ← derived_def] at step1
  set m1 := (h.alloc 112).write (st.slice 0 32) derived with m1_def
  have outer1 : h.Outer m1 := outer0.write_new (b := st.slice 0 32) new derived
  have live1 : m1.Live st := live0.write sk0 derivedSize.le
  have block1 := live1.slice (i := 32) (n := 64) (by omega)
  have key1 : m1.read (st.slice 0 32) = derived := Mem.read_write_same sk0 derivedSize
  have read1 : m1.read (st.slice 32 64) = List.replicate 64 0 := by
    rw [m1_def, Mem.read_write_disjoint sk0 derivedSize.le (Buffer.disjoint_slices _ (by omega)), zeros0]
  -- The one-time key is the keystream over the zero block.
  have step2 := ZeroPad.salsa20_boxStream (h.read k) 32 (Or.inl rfl) block1 block1 (outer1.live liveN)
    (live1.slice (i := 0) (n := 32) (by omega)) nonceSize rfl (by rw [key1, outer1.read liveN])
    (by rw [Buffer.slice_length]; decide) (by rw [Buffer.slice_length]; decide)
  rw [outer1.read liveN, read1, show (32 : UInt32).toNat = 32 from rfl, List.take_replicate,
    show min 32 64 = 32 from rfl, ← macKey] at step2
  set mk := macKey (h.read k) (h.read n) with mk_def
  have mkSize : mk.length = 32 := macKey_length _ _
  have mkFits : mk.length ≤ (st.slice 32 64).length := by rw [mkSize, Buffer.slice_length]; omega
  set m2 := m1.write (st.slice 32 64) mk with m2_def
  have outer2 : h.Outer m2 := outer1.write_new (b := st.slice 32 64) new mk
  have live2 : m2.Live st := live1.write block1 mkFits
  have key2 : m2.read (st.slice 0 32) = derived := by
    rw [m2_def, Mem.read_write_disjoint block1 mkFits
      (Buffer.disjoint_slices st (by omega : 0 + 32 ≤ 32)).symm, key1]
  have read2 : m2.read (st.slice 32 64) = mk ++ List.replicate 32 0 := by
    rw [m2_def, Mem.read_write_prefix block1 mkFits, read1, List.drop_replicate, mkSize]
  have mackey2 : m2.read (st.slice 32 32) = mk := by
    have part2 := Mem.read_write_slice block1 (i := 0) (n := 32) mkSize.ge mkFits
    rw [Buffer.slice_slice, ← m2_def, List.drop_zero, List.take_of_length_le mkSize.le] at part2
    exact part2
  -- The tag of the ciphertext goes next to the block.
  have cmac2 := live2.slice (i := 96) (n := 16) (by omega)
  have step3 := cryptoOnetimeauth_run len cmac2 (outer2.live liveC)
    (live2.slice (i := 32) (n := 32) (by omega)) le_rfl rfl bounded sizeC.ge
  rw [outer2.read liveC, List.take_of_length_le (by omega), mackey2, mk_def, ← tag] at step3
  set t := tag (h.read k) (h.read n) (h.read c) with t_def
  have tFits : t.length ≤ (st.slice 96 16).length := (tag_length _ _ _).le
  set m3 := m2.write (st.slice 96 16) t with m3_def
  have outer3 : h.Outer m3 := outer2.write_new (b := st.slice 96 16) new t
  have live3 : m3.Live st := live2.write cmac2 tFits
  have macBytes := Mem.read_length liveMac
  have step4 := cmpBytes_run 16 (outer3.live liveMac) (live3.slice (i := 96) (n := 16) (by omega)) size.ge
    le_rfl
  rw [outer3.read liveMac, Mem.read_write_same cmac2 (tag_length _ _ _),
    List.take_of_length_le (by omega), List.take_of_length_le (l := t) (by
      rw [t_def, tag_length])] at step4
  have reached : (do
      let hsalsaState ← create 112
      let subkey ← hsalsaState.sub 0 32
      let block0 ← hsalsaState.sub 32 64
      let tmpMac ← hsalsaState.sub 96 16
      let n1 ← n.sub 0 16
      hsalsa20 subkey k n1
      let n2 ← n.sub 16 8
      salsa20 block0 block0 32 subkey n2 0
      let mackey ← block0.sub 0 32
      cryptoOnetimeauth tmpMac c len mackey
      let verify ← cmpBytes mac tmpMac 16
      if verify = 0 then cryptoSecretboxOpenDetachedDecrypt m c len n2 subkey block0
      else return 0xffffffff : Stack UInt32) h =
        (if (if Authentic h c mac n k then (0 : UInt8) else 255) = 0 then
          cryptoSecretboxOpenDetachedDecrypt m c len (n.slice 16 8) (st.slice 0 32) (st.slice 32 64)
        else return 0xffffffff : Stack UInt32) m3 := by
    rw [Stack.bind_run (create_run 112), ← st_def, Stack.bind_run (Buffer.sub_run _ (by omega)),
      Stack.bind_run (Buffer.sub_run _ (by omega)), Stack.bind_run (Buffer.sub_run _ (by omega)),
      Stack.bind_run (Buffer.sub_run _ (by omega)), Stack.bind_run step1,
      Stack.bind_run (Buffer.sub_run _ (by omega)), Stack.bind_run step2,
      Stack.bind_run (Buffer.sub_run _ (by rw [Buffer.slice_length]; omega)), Buffer.slice_slice,
      Stack.bind_run step3, Stack.bind_run step4]
    rfl
  refine ⟨m3, st, outer3, live3, new, room, ?_, ?_, ?_, ?_⟩
  · rw [m3_def, Mem.read_write_disjoint cmac2 tFits
      (Buffer.disjoint_slices st (by omega : 0 + 32 ≤ 96)).symm, key2]
  · rw [m3_def, Mem.read_write_disjoint cmac2 tFits
      (Buffer.disjoint_slices st (by omega : 32 + 64 ≤ 96)).symm, read2]
  · intro authentic
    rw [if_pos authentic, if_pos rfl] at reached
    exact inFrame_reached reached
  · intro forged
    rw [if_neg forged] at reached
    exact (inFrame_reached reached).trans (inFrame_finish rfl outer3 rfl)

/-- Decryption first enciphers what shares a block with the one-time key. -/
theorem cryptoSecretboxOpenDetachedDecrypt_first {inner : Mem} {st : Buffer} (args : Args h m c n k len)
    (outer : h.Outer inner) (live : inner.Live st) (new : h.length ≤ st.base) (room : 96 ≤ st.length)
    (key : inner.read (st.slice 0 32) = Spec.HSalsa20.hsalsa20 (h.read k) ((h.read n).take 16))
    (block : inner.read (st.slice 32 64) = macKey (h.read k) (h.read n) ++ List.replicate 32 0) :
    ∃ inner', (streamed h (messageStream h n k) m c (min len.toNat 32)).Outer inner' ∧
      inner'.Live st ∧
      inner'.read (st.slice 0 32) = Spec.HSalsa20.hsalsa20 (h.read k) ((h.read n).take 16) ∧
      cryptoSecretboxOpenDetachedDecrypt m c len (n.slice 16 8) (st.slice 0 32) (st.slice 32 64) inner =
        (do
          salsa20Rest m c len (firstLen len) (len.toUInt32 + (firstLen len).toUInt32) (st.slice 0 32)
            (n.slice 16 8)
          return 0 : Stack UInt32) inner' := by
  obtain ⟨liveM, liveC, liveN, liveK, nonceSize, keySize, views, apart, bounded, sizeM, sizeC⟩ := args
  have bytes := Mem.read_length liveC
  have short := firstLen_toUInt32 len
  set first := min len.toNat 32 with first_def
  set part := (h.read c).take first with part_def
  have partSize : part.length = first := by rw [part_def, List.length_take]; omega
  have block0 := live.slice (i := 32) (n := 64) (by omega)
  have sk0 := live.slice (i := 0) (n := 32) (by omega)
  set mk := macKey (h.read k) (h.read n) with mk_def
  have mkSize : mk.length = 32 := macKey_length _ _
  -- The first part of the ciphertext is copied behind the one-time key.
  have step0 : Buffer.blit c 0 (st.slice 32 64) 32 first inner = some ((), _) :=
    Buffer.blit_run (outer.live liveC) block0 (by omega) (by rw [Buffer.slice_length]; omega)
  have spliced : splice (mk ++ List.replicate 32 0) 32 part =
      mk ++ part ++ List.replicate (32 - first) 0 := by
    rw [splice, List.take_left' mkSize, partSize, List.drop_append, mkSize,
      List.drop_eq_nil_of_le (by omega), List.nil_append, List.drop_replicate,
      Nat.add_sub_cancel_left]
  rw [outer.read liveC, List.drop_zero, ← part_def,
    Mem.write_slice block0 partSize (by rw [Buffer.slice_length]; omega), block, spliced] at step0
  set filled := mk ++ part ++ List.replicate (32 - first) 0 with filled_def
  have filledSize : filled.length = 64 := by
    rw [filled_def, List.length_append, List.length_append, List.length_replicate, partSize, mkSize]
    omega
  set m1 := inner.write (st.slice 32 64) filled with m1_def
  have outer1 : h.Outer m1 := outer.write_new (b := st.slice 32 64) new filled
  have live1 : m1.Live st := live.write block0 filledSize.le
  have key1 : m1.read (st.slice 0 32) = inner.read (st.slice 0 32) := by
    rw [m1_def, Mem.read_write_disjoint block0 filledSize.le
      (Buffer.disjoint_slices st (by omega : 0 + 32 ≤ 32)).symm]
  have block1 := live1.slice (i := 32) (n := 64) (by omega)
  -- The block is enciphered, and its second half is the first part of the message.
  obtain ⟨step1, step2⟩ := firstBlock_run len (h.read k) block1 (outer1.live liveM)
    (outer1.live liveN) (live1.slice (i := 0) (n := 32) (by omega)) rfl nonceSize rfl
    (by rw [key1, key, outer1.read liveN]) mkSize partSize
    (by rw [Mem.read_write_same block0 filledSize, filled_def]) (by omega)
  rw [outer1.read liveN] at step1 step2
  set x := xorStream (boxStream (h.read k) (h.read n)) (mk ++ part) with x_def
  have xFits : x.length ≤ (st.slice 32 64).length := by
    rw [x_def, xorStream_length, List.length_append, mkSize, partSize, Buffer.slice_length]
    omega
  have outer2 := outer1.write_new (b := st.slice 32 64) new x
  set y := encipher (h.read k) (h.read n) part with y_def
  have yFits : y.length ≤ m.length := by rw [y_def, encipher_length]; omega
  refine ⟨(m1.write (st.slice 32 64) x).write m y, outer2.write_old liveM y,
    (live1.write block1 xFits).write (outer2.live liveM) yFits, ?_, ?_⟩
  · rw [outer2.read_local liveM yFits (st.slice 0 32) new, Mem.read_write_disjoint block1 xFits
      (Buffer.disjoint_slices st (by omega : 0 + 32 ≤ 32)).symm, key1, key]
  · rw [cryptoSecretboxOpenDetachedDecrypt, short, Stack.bind_run step0, Stack.bind_run step1, ← short,
      Stack.bind_run step2]

/-- A message of one block is opened. -/
theorem cryptoSecretboxOpenDetached_short (args : Args h m c n k len) (liveMac : h.Live mac)
    (size : mac.length = 16) (authentic : Authentic h c mac n k) (short : len.toNat ≤ 32) :
    cryptoSecretboxOpenDetached m c mac len n k h =
      some (0, h.write m (encipher (h.read k) (h.read n) (h.read c))) := by
  obtain ⟨inner, st, outer, live, new, room, key, block, accept, -⟩ :=
    cryptoSecretboxOpenDetached_verify args liveMac size
  obtain ⟨inner', outer', live', key', ran⟩ :=
    cryptoSecretboxOpenDetachedDecrypt_first args outer live new (by omega) key block
  have bytes := Mem.read_length args.liveInput
  have sizes := args.inputSize
  rw [Stack.bind_run (salsa20Rest_none _ _ short), Stack.pure_run] at ran
  rw [accept authentic, inFrame_finish ran outer' (by rw [streamed, Mem.write_length]),
    Nat.min_eq_left short, streamed, List.take_of_length_le (by omega)]
  rfl

/-- What the call for the rest asks for: the length of the message and thirty-two bytes more. -/
theorem rest_toNat (len : UInt64) (long : 32 < len.toNat) (bounded : len.toNat < 2 ^ 32) :
    (len.toUInt32 + (firstLen len).toUInt32).toNat = (len.toNat + 32) % 2 ^ 32 := by
  have whole : len.toUInt32.toNat = len.toNat := by rw [UInt64.toNat_toUInt32]; omega
  rw [UInt32.toNat_add, whole, firstLen_toUInt32, Nat.min_eq_right long.le]

/-- Opening a longer message leaves the buffers, unless the length wraps around. -/
theorem cryptoSecretboxOpenDetached_fault (args : Args h m c n k len) (liveMac : h.Live mac)
    (size : mac.length = 16) (authentic : Authentic h c mac n k) (long : 32 < len.toNat)
    (fits : len.toNat + 32 < 2 ^ 32) : cryptoSecretboxOpenDetached m c mac len n k h = none := by
  obtain ⟨inner, st, outer, live, new, room, key, block, accept, -⟩ :=
    cryptoSecretboxOpenDetached_verify args liveMac size
  obtain ⟨inner', outer', live', key', ran⟩ :=
    cryptoSecretboxOpenDetachedDecrypt_first args outer live new (by omega) key block
  obtain ⟨liveM, liveC, liveN, liveK, nonceSize, keySize, views, apart, bounded, sizeM, sizeC⟩ := args
  have asked := rest_toNat len long bounded
  have liveN' : (streamed h (messageStream h n k) m c (min len.toNat 32)).Live n :=
    streamed_live _ _ _ liveN liveM (by omega)
  rw [Stack.bind_fault (salsa20Rest_fault _ (outer'.live liveN') (live'.slice (by omega)) nonceSize rfl
    long (by omega) (by omega) (Or.inl (by omega)))] at ran
  rw [accept authentic, inFrame_finish_fault ran]

/-- When the length wraps around, only the beginning of the message is decrypted. -/
theorem cryptoSecretboxOpenDetached_wrapped (args : Args h m c n k len) (liveMac : h.Live mac)
    (size : mac.length = 16) (authentic : Authentic h c mac n k) (wraps : 2 ^ 32 ≤ len.toNat + 32) :
    cryptoSecretboxOpenDetached m c mac len n k h =
      some (0, streamed h (messageStream h n k) m c (len.toNat + 64 - 2 ^ 32)) := by
  obtain ⟨inner, st, outer, live, new, room, key, block, accept, -⟩ :=
    cryptoSecretboxOpenDetached_verify args liveMac size
  obtain ⟨inner', outer', live', key', ran⟩ :=
    cryptoSecretboxOpenDetachedDecrypt_first args outer live new (by omega) key block
  obtain ⟨liveM, liveC, liveN, liveK, nonceSize, keySize, views, apart, bounded, sizeM, sizeC⟩ := args
  have asked := rest_toNat len (by omega) bounded
  rw [Nat.min_eq_right (by omega)] at outer'
  obtain ⟨bytes, -, outer'', ran'⟩ := salsa20Rest_streamed len _ views liveM liveC liveN
    (live'.slice (i := 0) (n := 32) (by omega)) nonceSize rfl outer' apart key' (by omega)
    (show 32 + (len.toUInt32 + (firstLen len).toUInt32).toNat ≤ m.length by omega) (by omega)
  rw [Stack.bind_run ran', Stack.pure_run] at ran
  have done : 32 + (len.toUInt32 + (firstLen len).toUInt32).toNat = len.toNat + 64 - 2 ^ 32 := by omega
  rw [done] at outer''
  rw [accept authentic, inFrame_finish ran outer'' (by rw [streamed, Mem.write_length])]

end HaclStar.Api.SecretBox
