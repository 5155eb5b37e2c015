import HaclStar.Correctness.SHA2
import HaclStar.Impl.HMAC

/-! The incremental interface of HMAC-SHA2-256 against the authenticator at once. -/

namespace HaclStar.Correctness.HMAC

open Endianness Keystream Memory Impl.HMAC Impl.SHA2 Spec.SHA2 Correctness.SecretBox

/-- The state after one call on whole blocks. -/
def feed (st : Impl.HMAC.State) : SHA2.Piece → Stack Impl.HMAC.State
  | .update data => Impl.HMAC.update st data
  | .updateMulti data blocks => Impl.HMAC.updateMulti st data blocks.toNat

/-- The state after one call after another. -/
def feedAll (st : Impl.HMAC.State) : List SHA2.Piece → Stack Impl.HMAC.State
  | [] => return st
  | piece :: pieces => do
    let st ← feed st piece
    feedAll st pieces

/-- The state after the calls before the last one. -/
def started (key : Buffer) (pieces : List SHA2.Piece) (last : Buffer) (len : UInt32) :
    Stack Impl.HMAC.State := do
  let st ← Impl.HMAC.init ⟨Vector.replicate 16 0, alloc⟩ key
  let st ← feedAll st pieces
  Impl.HMAC.updateLast st last len

/-- The authenticator of data that are given in pieces and a rest. -/
def incremental (mac key : Buffer) (pieces : List SHA2.Piece) (last : Buffer) (len : UInt32) :
    Stack Unit := do
  let st ← started key pieces last len
  Impl.HMAC.finish st mac

/-- The bytes of the pieces and of the rest. -/
def concatenation (h : Mem) (pieces : List SHA2.Piece) (last : Buffer) : Bytes :=
  pieces.flatMap (SHA2.Piece.bytes h) ++ h.read last

/-- The arguments that the calls accept, for data that are the concatenation of the pieces. -/
structure Args (h : Mem) (mac key : Buffer) (pieces : List SHA2.Piece) (last : Buffer) (len : UInt32)
    (data : Buffer) (datalen : UInt32) : Prop where
  liveMac : h.Live mac
  liveKey : h.Live key
  liveLast : h.Live last
  liveData : h.Live data
  macSize : mac.length = 32
  keySize : key.length = 64
  accepts : ∀ piece ∈ pieces, piece.Accepts 4 h
  lastSize : last.length = len.toNat
  short : len.toNat ≤ 64
  dataSize : data.length = datalen.toNat
  joined : h.read data = concatenation h pieces last
  bounded : data.length + 64 < 2 ^ 32

/-- The incremental interface returns, without reading beyond any part of the state, with the memory
that the authenticator at once leaves. -/
def Agrees (h : Mem) (mac key : Buffer) (pieces : List SHA2.Piece) (last : Buffer) (len : UInt32)
    (data : Buffer) (datalen : UInt32) : Prop :=
  ∃ h', incremental mac key pieces last len h = some ((), h') ∧
    hmacCore mac key data datalen h = some ((), h')

variable {h : Mem} {st : Impl.HMAC.State} {done : Bytes}

/-- Starting keeps the key, and the inner hash has digested the inner pad. -/
theorem init_run {key : Buffer} (live : h.Live key) (size : key.length = 64) (st : Impl.HMAC.State) :
    ∃ st', (wordBe 4).toBytes 16 st'.key = h.read key ∧
      Digests Spec.SHA2.sha256 (xor (List.replicate 64 0x36) (h.read key)) st'.hash ∧
      Impl.HMAC.init st key h = some (st', h) := by
  set ipad := h.fresh 64 with ipad_def
  set m1 := (h.alloc 64).write ipad (List.replicate 64 0x36) with m1_def
  have filled : (List.replicate 64 (0x36 : UInt8)).length = ipad.length := List.length_replicate
  have outer1 : h.Outer m1 := ((Mem.Outer.refl h).alloc 64).write_new le_rfl _
  have liveI : m1.Live ipad := (Mem.fresh_live h 64).write (Mem.fresh_live h 64) filled.le
  have readI : m1.read ipad = List.replicate 64 0x36 :=
    Mem.read_write_same (Mem.fresh_live h 64) filled
  have bytes := Mem.read_length live
  have words := wordsFromBytes_run (wordBe 4) st.key (outer1.live live) size
  have masked := xorBytesInplace_run 64 liveI (outer1.live live) (Mem.Outer.apart le_rfl live)
    rfl size
  rw [readI, outer1.read live] at masked
  rw [outer1.read live] at words
  set s2 := xor (List.replicate 64 0x36) (h.read key) with s2_def
  have s2Size : s2.length = ipad.length := by
    rw [s2_def, xor_length, List.length_replicate, bytes, size]
    rfl
  obtain ⟨hash, digests, -, ran⟩ := update_run sha256_implements (init_digests sha256_implements st.hash)
    (Nat.zero_mod _) (liveI.write liveI s2Size.le) rfl (show 0 + 1 < 2 ^ 32 by decide)
  rw [Mem.read_write_same liveI s2Size, List.nil_append] at digests
  refine ⟨⟨(wordBe 4).fromBytes 16 (h.read key), hash⟩,
    (wordBe 4).toBytes_fromBytes 16 _ (by rw [bytes, size]; rfl), digests, ?_⟩
  refine inFrame_outer ?_ (outer1.write_new (b := ipad) le_rfl s2) rfl
  rw [Stack.bind_run (createFilled_run _ _), ← ipad_def, ← m1_def, Stack.bind_run words,
    Stack.bind_run masked, Stack.bind_run ran]
  rfl

/-- Block after block adds the blocks, and keeps the key. -/
theorem updateMulti_run {data : Buffer} (n : Nat) (live : h.Live data) (size : data.length = n * 64)
    (digests : Digests Spec.SHA2.sha256 done st.hash) (whole : done.length % 64 = 0)
    (room : st.hash.count.toNat + n < 2 ^ 32) :
    ∃ st', st'.key = st.key ∧ Digests Spec.SHA2.sha256 (done ++ h.read data) st'.hash ∧
      Impl.HMAC.updateMulti st data n h = some (st', h) := by
  have bytes := Mem.read_length live
  -- Induction on the number of blocks: the first one leaves the others.
  induction n generalizing st done data with
  | zero =>
    have empty : h.read data = [] := List.eq_nil_of_length_eq_zero (by rw [bytes, size, Nat.zero_mul])
    exact ⟨st, rfl, by rwa [empty, List.append_nil], rfl⟩
  | succ n ih =>
    rw [Nat.succ_mul] at size
    have live1 : h.Live (data.slice 0 64) := live.slice (by omega)
    have live2 : h.Live (data.slice 64 (data.length - 64)) := live.slice (by omega)
    obtain ⟨hash, digests', counted, ran⟩ := update_run sha256_implements digests whole live1 rfl
      (show st.hash.count.toNat + 1 < 2 ^ 32 by omega)
    have size2 : (data.slice 64 (data.length - 64)).length = n * 64 := by
      rw [Buffer.slice_length]
      omega
    obtain ⟨st', same, digests'', ran'⟩ := @ih { st with hash := hash } _ _ live2 size2 digests'
      (by rw [List.length_append, Mem.read_length live1, Buffer.slice_length]; omega)
      (by show hash.count.toNat + n < 2 ^ 32; omega) (Mem.read_length live2)
    have both : h.read (data.slice 0 64) ++ h.read (data.slice 64 (data.length - 64)) = h.read data := by
      have rest : ((h.read data).drop 64).length ≤ data.length - 64 := by rw [List.length_drop]; omega
      rw [Mem.read_slice _ _ (by omega), Mem.read_slice _ _ (by omega), List.drop_zero,
        List.take_of_length_le rest, List.take_append_drop]
    rw [List.append_assoc, both] at digests''
    have one : Impl.HMAC.update st (data.slice 0 64) h = some ({ st with hash := hash }, h) := by
      rw [Impl.HMAC.update, Stack.bind_run ran, Stack.pure_run]
    exact ⟨st', same, digests'', by
      rw [Impl.HMAC.updateMulti, Stack.bind_run (Buffer.sub_run _ (by omega)),
        Stack.bind_run (Buffer.offset_run _ (by omega)), Stack.bind_run one, ran']⟩

/-- A call adds its bytes, and keeps the key. -/
theorem feed_run {piece : SHA2.Piece} (accepts : piece.Accepts 4 h)
    (digests : Digests Spec.SHA2.sha256 done st.hash) (whole : done.length % 64 = 0)
    (room : (done ++ piece.bytes h).length / 64 < 2 ^ 32) :
    ∃ st', st'.key = st.key ∧ Digests Spec.SHA2.sha256 (done ++ piece.bytes h) st'.hash ∧
      feed st piece h = some (st', h) := by
  have counted : st.hash.count.toNat * 64 = done.length := digests.count
  cases piece with
  | update data =>
    obtain ⟨live, size⟩ := accepts
    have size : data.length = 64 := size
    rw [SHA2.Piece.bytes, List.length_append, Mem.read_length live, size, ← counted] at room
    obtain ⟨hash, digests', -, ran⟩ := update_run sha256_implements digests whole live size
      (show st.hash.count.toNat + 1 < 2 ^ 32 by omega)
    exact ⟨{ st with hash := hash }, rfl, digests', by
      rw [feed, Impl.HMAC.update, Stack.bind_run ran, Stack.pure_run]⟩
  | updateMulti data blocks =>
    obtain ⟨live, size⟩ := accepts
    have size : data.length = blocks.toNat * 64 := size
    rw [SHA2.Piece.bytes, List.length_append, Mem.read_length live, size, ← counted] at room
    exact updateMulti_run blocks.toNat live size digests whole (by omega)

/-- The calls add all their bytes, and keep the key. -/
theorem feedAll_run (pieces : List SHA2.Piece) (accepts : ∀ piece ∈ pieces, piece.Accepts 4 h)
    (digests : Digests Spec.SHA2.sha256 done st.hash) (whole : done.length % 64 = 0)
    (room : (done ++ pieces.flatMap (SHA2.Piece.bytes h)).length / 64 < 2 ^ 32) :
    (done ++ pieces.flatMap (SHA2.Piece.bytes h)).length % 64 = 0 ∧ ∃ st', st'.key = st.key ∧
      Digests Spec.SHA2.sha256 (done ++ pieces.flatMap (SHA2.Piece.bytes h)) st'.hash ∧
        feedAll st pieces h = some (st', h) := by
  -- Induction on the calls: each one leaves whole blocks, counted, for the next.
  induction pieces generalizing done st with
  | nil => exact ⟨by simpa using whole, st, rfl, by simpa using digests, rfl⟩
  | cons piece pieces ih =>
    have first := accepts piece List.mem_cons_self
    have blocks : (piece.bytes h).length % 64 = 0 := SHA2.Piece.bytes_mod first
    rw [List.flatMap_cons, ← List.append_assoc] at room ⊢
    have less : (done ++ piece.bytes h).length / 64 < 2 ^ 32 :=
      (Nat.div_le_div_right (List.sublist_append_left _ _).length_le).trans_lt room
    obtain ⟨st', same, digests', ran⟩ := feed_run first digests whole less
    obtain ⟨whole', st'', same', digests'', ran'⟩ :=
      ih (fun other more => accepts other (List.mem_cons_of_mem _ more)) digests'
        (by rw [List.length_append]; omega) room
    exact ⟨whole', st'', same'.trans same, digests'', by rw [feedAll, Stack.bind_run ran, ran']⟩

variable {mac key last data : Buffer} {pieces : List SHA2.Piece} {len datalen : UInt32}

/-- Before the last call, the state holds the key and the inner hash of the concatenation. -/
theorem started_run (args : Args h mac key pieces last len data datalen) :
    ∃ st, (wordBe 4).toBytes 16 st.key = h.read key ∧ Spec.SHA2.sha256.finish st.hash.whash =
        Spec.SHA2.sha256.hash (xor (List.replicate 64 0x36) (h.read key) ++ concatenation h pieces last) ∧
      started key pieces last len h = some (st, h) := by
  have dataBytes := Mem.read_length args.liveData
  have keyBytes := Mem.read_length args.liveKey
  have padSize : (xor (List.replicate 64 0x36) (h.read key)).length = 64 := by
    rw [xor_length, List.length_replicate, keyBytes, args.keySize]
    rfl
  have total := congrArg List.length args.joined
  rw [concatenation, List.length_append, dataBytes] at total
  have bounded := args.bounded
  obtain ⟨st1, kept, digests1, ran1⟩ := init_run args.liveKey args.keySize
    ⟨Vector.replicate 16 0, alloc⟩
  obtain ⟨whole, st2, same, digests2, ran2⟩ := feedAll_run pieces args.accepts digests1
    (by rw [padSize]) (by rw [List.length_append, padSize]; omega)
  have counted : st2.hash.count.toNat * 64 = _ := digests2.count
  rw [List.length_append, padSize] at counted
  have short := args.short
  obtain ⟨hash, hashed, ran3⟩ := updateLast_run sha256_implements digests2 whole args.liveLast
    len args.lastSize (show len.toNat + 8 + 1 < 2 * 64 by omega)
    (show st2.hash.count.toNat + 2 < 2 ^ 32 by omega)
  refine ⟨{ st2 with hash := hash }, by rw [same, kept], ?_, ?_⟩
  · rw [hashed, Spec.SHA2.Algorithm.finish_updateLast _ _ whole, concatenation, List.append_assoc]
  · rw [started, Stack.bind_run ran1, Stack.bind_run ran2, Impl.HMAC.updateLast, Stack.bind_run ran3,
      Stack.pure_run]

/-- The incremental interface never agrees with the authenticator at once: the calls before the last
one prepare the key and the inner hash of the concatenation, and the last call reads beyond the key. -/
theorem incremental_never_agrees (args : Args h mac key pieces last len data datalen) :
    ¬ Agrees h mac key pieces last len data datalen ∧
    (∃ st, (wordBe 4).toBytes 16 st.key = h.read key ∧ Spec.SHA2.sha256.finish st.hash.whash =
        Spec.SHA2.sha256.hash (xor (List.replicate 64 0x36) (h.read key) ++ concatenation h pieces last) ∧
      started key pieces last len h = some (st, h) ∧ Impl.HMAC.finish st mac h = none) ∧
    hmacCore mac key data datalen h = some ((), h.write mac
      (Spec.HMAC.hmacCore (h.read key) (concatenation h pieces last))) := by
  obtain ⟨st, kept, hashed, ran⟩ := started_run args
  refine ⟨fun ⟨h', returned, _⟩ => ?_, ⟨st, kept, hashed, ran, finish_fault st mac⟩, ?_⟩
  · rw [incremental, Stack.bind_run ran, finish_fault] at returned
    cases returned
  · rw [← args.joined, hmacCore_run args.liveMac args.liveKey args.liveData args.macSize args.keySize
      args.dataSize]

/-- No data under a zero key. -/
theorem zeroArgs : Args (zeroMem [32, 64, 0]) (whole 0 32) (whole 1 64) [] (whole 2 0) 0 (whole 2 0) 0 where
  liveMac := by decide
  liveKey := by decide
  liveLast := by decide
  liveData := by decide
  macSize := rfl
  keySize := rfl
  accepts := fun _ none => absurd none List.not_mem_nil
  lastSize := rfl
  short := by decide
  dataSize := rfl
  joined := rfl
  bounded := by decide

theorem incremental_never_agrees_zero :
    ¬ Agrees (zeroMem [32, 64, 0]) (whole 0 32) (whole 1 64) [] (whole 2 0) 0 (whole 2 0) 0 :=
  (incremental_never_agrees zeroArgs).1

/-- For no data under a zero key the incremental interface does not return. -/
theorem incremental_agrees_fails : ¬ ∀ (h : Mem) (mac key : Buffer) (pieces : List SHA2.Piece)
    (last : Buffer) (len : UInt32) (data : Buffer) (datalen : UInt32),
    Args h mac key pieces last len data datalen → Agrees h mac key pieces last len data datalen := by
  intro claimed
  obtain ⟨h', returned, -⟩ := claimed _ _ _ _ _ _ _ _ zeroArgs
  obtain ⟨st, -, -, ran⟩ := started_run zeroArgs
  rw [incremental, Stack.bind_run ran, finish_fault] at returned
  cases returned

end HaclStar.Correctness.HMAC
