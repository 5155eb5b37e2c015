import HaclStar.Correctness.SecretBox
import HaclStar.Impl.AeadPoly1305

/-! The one-time authenticator against its specification, at once and in pieces. -/

namespace HaclStar.Correctness.Poly1305

open Endianness Memory Impl.Poly1305 Impl.AeadPoly1305 Spec.Poly1305 Correctness.SecretBox

/-- The limb implementation writes the tag of the specification. -/
theorem cryptoOnetimeauth_correct {h : Mem} {output input k : Buffer} {len : UInt64}
    (live : h.Live output) (live' : h.Live input) (live'' : h.Live k) (size : output.length = 16)
    (keySize : k.length = 32) (inputSize : input.length = len.toNat) (bounded : len.toNat < 2 ^ 32) :
    cryptoOnetimeauth output input len k h =
      some ((), h.write output (Spec.Poly1305.poly1305 (h.read input) (h.read k))) := by
  have bytes := Mem.read_length live'
  rw [cryptoOnetimeauth_run len live live' live'' size.ge keySize bounded inputSize.ge,
    List.take_of_length_le (by omega)]

theorem cryptoOnetimeauth_correct_zero :
    cryptoOnetimeauth (whole 0 16) (whole 1 17) 17 (whole 2 32) (zeroMem [16, 17, 32]) =
      some ((), (zeroMem [16, 17, 32]).write (whole 0 16) (Spec.Poly1305.poly1305
        ((zeroMem [16, 17, 32]).read (whole 1 17)) ((zeroMem [16, 17, 32]).read (whole 2 32)))) :=
  cryptoOnetimeauth_correct (by decide) (by decide) (by decide) rfl rfl rfl (by decide)

section Incremental

/-- A call that absorbs whole blocks. -/
inductive Piece where
  | update (m : Buffer)
  | blocks (m : Buffer) (len : Nat)

/-- The state after one call. -/
def Piece.absorb (st : State) : Piece → Stack State
  | update m => Impl.Poly1305.update st m
  | blocks m len => Impl.Poly1305.blocks st m len

/-- The bytes that a call absorbs. -/
def Piece.bytes (h : Mem) : Piece → Bytes
  | update m => h.read m
  | blocks m len => (h.read m).take (16 * len)

/-- The arguments that a call accepts: live buffers of whole blocks. -/
def Piece.Accepts (h : Mem) : Piece → Prop
  | update m => h.Live m ∧ m.length = 16
  | blocks m len => h.Live m ∧ 16 * len ≤ m.length

/-- The state after one call after another. -/
def absorbAll (st : State) : List Piece → Stack State
  | [] => return st
  | piece :: pieces => do
    let st ← piece.absorb st
    absorbAll st pieces

/-- The tag of a message that is given in pieces, the last one shorter than a block. -/
def incremental (pieces : List Piece) (last : Buffer) (len : Nat) (mac k : Buffer) : Stack Unit := do
  let keyR ← k.sub 0 16
  let keyS ← k.sub 16 16
  let st ← init keyR
  let st ← absorbAll st pieces
  let st ← updateLast st last len
  finish st mac keyS

/-- The tag of padded byte strings and a last block. -/
def incrementalAead (first : Buffer × UInt32) (rest : List (Buffer × UInt32)) (last mac k : Buffer) :
    Stack Unit := do
  let keyS ← k.sub 16 16
  let st ← blocksInit first.1 first.2 k
  let st ← continueAll st rest
  blocksFinish st last mac keyS
where
  /-- The state after one padded byte string after another. -/
  continueAll (st : State) : List (Buffer × UInt32) → Stack State
    | [] => return st
    | (input, len) :: rest => do
      let st ← blocksContinue st input len
      continueAll st rest

variable {h : Mem} {st : State} {kr done : Bytes}

/-- A call absorbs its bytes, which are whole blocks. -/
theorem Piece.absorb_run (piece : Piece) (accepts : piece.Accepts h) (aligned : done.length % 16 = 0)
    (absorbed : Absorbed kr (encodeBytes done) st) :
    (done ++ piece.bytes h).length % 16 = 0 ∧
      ∃ st', Absorbed kr (encodeBytes (done ++ piece.bytes h)) st' ∧
        piece.absorb st h = some (st', h) := by
  cases piece with
  | update m =>
    obtain ⟨live, size⟩ := accepts
    have bytes := Mem.read_length live
    obtain ⟨st', absorbed', ran⟩ := update_run (absorbed_tracks _) absorbed live size
    -- A block becomes the head of the text.
    rw [← encodeBytes_concat aligned (by
      intro empty
      rw [empty, size] at bytes
      exact absurd bytes (by decide)) (by omega)] at absorbed'
    exact ⟨by rw [Piece.bytes, List.length_append]; omega, st', absorbed', ran⟩
  | blocks m len =>
    obtain ⟨live, fits⟩ := accepts
    have bytes := Mem.read_length live
    obtain ⟨st', absorbed', ran⟩ := blocks_run (absorbed_tracks _) aligned absorbed live len fits
    exact ⟨by rw [Piece.bytes, List.length_append, List.length_take]; omega, st', absorbed', ran⟩

/-- The calls absorb the concatenation of their bytes. -/
theorem absorbAll_run (pieces : List Piece) (accepts : ∀ piece ∈ pieces, piece.Accepts h)
    (aligned : done.length % 16 = 0) (absorbed : Absorbed kr (encodeBytes done) st) :
    (done ++ pieces.flatMap (Piece.bytes h)).length % 16 = 0 ∧
      ∃ st', Absorbed kr (encodeBytes (done ++ pieces.flatMap (Piece.bytes h))) st' ∧
        absorbAll st pieces h = some (st', h) := by
  -- Induction on the calls: each one leaves whole blocks for the next.
  induction pieces generalizing done st with
  | nil => exact ⟨by simpa using aligned, st, by simpa using absorbed, rfl⟩
  | cons piece pieces ih =>
    obtain ⟨aligned', st', absorbed', ran⟩ :=
      piece.absorb_run (accepts piece List.mem_cons_self) aligned absorbed
    obtain ⟨aligned'', st'', absorbed'', ran'⟩ :=
      ih (fun other more => accepts other (List.mem_cons_of_mem _ more)) aligned' absorbed'
    rw [List.append_assoc] at aligned'' absorbed''
    exact ⟨by simpa using aligned'', st'', by simpa using absorbed'',
      by rw [absorbAll, Stack.bind_run ran, ran']⟩

/-- The padded byte strings absorb one after another. -/
theorem continueAll_run (rest : List (Buffer × UInt32))
    (accepts : ∀ part ∈ rest, h.Live part.1 ∧ part.1.length = part.2.toNat)
    (aligned : done.length % 16 = 0) (absorbed : Absorbed kr (encodeBytes done) st) :
    (done ++ rest.flatMap fun part => Spec.Chacha20Poly1305.pad16 (h.read part.1)).length % 16 = 0 ∧
      ∃ st', Absorbed kr (encodeBytes (done ++ rest.flatMap fun part =>
          Spec.Chacha20Poly1305.pad16 (h.read part.1))) st' ∧
        incrementalAead.continueAll st rest h = some (st', h) := by
  -- Induction on the byte strings: padding leaves whole blocks.
  induction rest generalizing done st with
  | nil => exact ⟨by simpa using aligned, st, by simpa using absorbed, rfl⟩
  | cons part rest ih =>
    obtain ⟨live, size⟩ := accepts part List.mem_cons_self
    have padded := Spec.Chacha20Poly1305.pad16_length (h.read part.1)
    obtain ⟨st', absorbed', ran⟩ := blocksContinue_run (absorbed_tracks _) aligned absorbed live size
    obtain ⟨aligned'', st'', absorbed'', ran'⟩ :=
      ih (fun other more => accepts other (List.mem_cons_of_mem _ more))
        (by rw [List.length_append]; omega) absorbed'
    rw [List.append_assoc] at aligned'' absorbed''
    exact ⟨by simpa using aligned'', st'', by simpa using absorbed'',
      by rw [incrementalAead.continueAll, Stack.bind_run ran, ran']⟩

/-- The tag does not depend on how the message is split: it is that of the whole message at once, and
behind padding that of the padded byte strings and the last block. -/
theorem split_independent {input last mac k last' : Buffer} {first : Buffer × UInt32} {len : UInt64}
    (pieces : List Piece) (rest : List (Buffer × UInt32)) (liveMac : h.Live mac) (liveK : h.Live k)
    (macSize : mac.length = 16) (keySize : k.length = 32)
    (accepts : ∀ piece ∈ pieces, piece.Accepts h) (liveLast : h.Live last) (short : last.length < 16)
    (liveInput : h.Live input) (inputSize : input.length = len.toNat) (bounded : len.toNat < 2 ^ 32)
    (joined : h.read input = pieces.flatMap (Piece.bytes h) ++ h.read last)
    (accepts' : ∀ part ∈ first :: rest, h.Live part.1 ∧ part.1.length = part.2.toNat)
    (liveLast' : h.Live last') (lastSize : last'.length = 16) :
    incremental pieces last last.length mac k h = cryptoOnetimeauth mac input len k h ∧
    incrementalAead first rest last' mac k h = some ((), h.write mac (poly1305
      (((first :: rest).flatMap fun part => Spec.Chacha20Poly1305.pad16 (h.read part.1)) ++
        h.read last') (h.read k))) := by
  have bytes := Mem.read_length liveLast
  have keyBytes := Mem.read_length liveK
  have low := Mem.read_slice h k (i := 0) (n := 16) (by omega)
  have high := Mem.read_slice h k (i := 16) (n := 16) (by omega)
  rw [List.drop_zero] at low
  constructor
  · -- Both write the specification's tag of the same message.
    obtain ⟨st, started, -, ran⟩ := init_run (liveK.slice (i := 0) (n := 16) (by omega)) rfl
    rw [← encodeBytes_nil, low] at started
    obtain ⟨aligned, st', absorbed, ran'⟩ := absorbAll_run pieces accepts rfl started
    obtain ⟨st'', bound, value, ran''⟩ := updateLast_run aligned absorbed liveLast last.length short le_rfl
    rw [List.nil_append, List.take_of_length_le (by omega), ← joined] at value
    rw [cryptoOnetimeauth_run len liveMac liveInput liveK macSize.ge keySize bounded inputSize.ge,
      List.take_of_length_le (by rw [Mem.read_length liveInput]; omega), incremental,
      Stack.bind_run (Buffer.sub_run _ (by omega)), Stack.bind_run (Buffer.sub_run _ (by omega)),
      Stack.bind_run ran, Stack.bind_run ran', Stack.bind_run ran'',
      finish_run liveMac (liveK.slice (by omega)) macSize.ge rfl bound, value, high]
    rfl
  · obtain ⟨live, size⟩ := accepts' first List.mem_cons_self
    obtain ⟨st, absorbed, ran⟩ := blocksInit_run (absorbed_tracks _) (fun started _ => started) live liveK size (by omega)
    obtain ⟨aligned, st', absorbed', ran'⟩ := continueAll_run rest
      (fun part more => accepts' part (List.mem_cons_of_mem _ more))
      (Spec.Chacha20Poly1305.pad16_length _) absorbed
    have ran'' := blocksFinish_run aligned absorbed' liveLast' liveMac
      (liveK.slice (i := 16) (n := 16) (by omega)) lastSize macSize.ge rfl
    rw [incrementalAead, Stack.bind_run (Buffer.sub_run _ (by omega)), Stack.bind_run ran,
      Stack.bind_run ran', ran'', high, List.flatMap_cons]
    rfl

/-- Thirty-five zero bytes as a block, another block and three bytes. -/
theorem split_independent_zero :
    incremental [.update (whole 0 16), .blocks (whole 0 16) 1] (whole 1 3) 3 (whole 3 16) (whole 4 32)
        (zeroMem [16, 3, 35, 16, 32]) =
      cryptoOnetimeauth (whole 3 16) (whole 2 35) 35 (whole 4 32) (zeroMem [16, 3, 35, 16, 32]) ∧
    incrementalAead (whole 2 35, 35) [(whole 1 3, 3)] (whole 0 16) (whole 3 16) (whole 4 32)
        (zeroMem [16, 3, 35, 16, 32]) =
      some ((), (zeroMem [16, 3, 35, 16, 32]).write (whole 3 16) (poly1305
        (([(whole 2 35, (35 : UInt32)), (whole 1 3, 3)].flatMap fun part =>
          Spec.Chacha20Poly1305.pad16 ((zeroMem [16, 3, 35, 16, 32]).read part.1)) ++
          (zeroMem [16, 3, 35, 16, 32]).read (whole 0 16))
        ((zeroMem [16, 3, 35, 16, 32]).read (whole 4 32)))) :=
  split_independent _ _ (by decide) (by decide) rfl rfl (by simp [Piece.Accepts]; decide) (by decide)
    (by decide) (by decide) rfl (by decide) (by decide) (by simp; decide) (by decide) rfl

end Incremental

end HaclStar.Correctness.Poly1305
