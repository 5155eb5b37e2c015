import HaclStar.Tube.Session

/-! The sending side of PneuTube: a file is cut into fragments, which travel in boxes behind a header. -/

namespace HaclStar.Tube

open Endianness Memory Impl.Bignum

/-- What is reported of a transfer. -/
structure OpenResult where
  r : FResult
  fs : FileStat
  deriving DecidableEq, Repr

/-- The buffers that do not change during a transfer. -/
structure ImmutState where
  pkA : Bytes
  pkB : Bytes
  key : Bytes
  sid : Bytes
  hsbuf : Bytes
  header : Bytes

/-- Send the next `len` bytes of the file in one box. -/
def fileSendBox (nacl : NaCl) (state : ImmutState) (seqno len : UInt64) : Io SResult := do
  let next ← fileNextReadBuffer len
  storeSeqno seqno
  let ciphertext ← cryptoBoxEasyAfternm nacl next state.key
  tcpWriteAll (ciphertext.take (cipherlen len).toNat)

/-- Send `len` full fragments. -/
def fileSendLoop (nacl : NaCl) (state : ImmutState) (seqno : UInt64) : Nat → Io SResult
  | 0 => return .SocketOk
  | i + 1 => do
    match ← fileSendBox nacl state seqno blocksize with
    | .SocketOk => fileSendLoop nacl state (seqno + 1) i
    | .SocketError => return .SocketError

/-- Send the full fragments and the rest. -/
def fileSendFragments (nacl : NaCl) (state : ImmutState) (seqno fragments rem : UInt64) : Io SResult := do
  match ← fileSendLoop nacl state seqno fragments.toNat with
  | .SocketOk =>
    if rem > 0 then
      fileSendBox nacl state (fragments + 1) rem
    else
      return .SocketOk
  | .SocketError => return .SocketError

/-- Send the session id, the announced size, the public keys, the header and the fragments. -/
def fileFlushAll (nacl : NaCl) (state : ImmutState) (ctr rem : UInt64) : Io SResult := do
  match ← tcpWriteAll state.sid with
  | .SocketOk =>
    match ← tcpWriteAll state.hsbuf with
    | .SocketOk =>
      match ← tcpWriteAll state.pkA with
      | .SocketOk =>
        match ← tcpWriteAll state.pkB with
        | .SocketOk =>
          let seqno : UInt64 := 0
          blitSid state.sid
          storeSeqno seqno
          let seqno := seqno + 1
          let ciphertext ← cryptoBoxEasyAfternm nacl state.header state.key
          match ← tcpWriteAll (ciphertext.take (cipherlen headersize).toNat) with
          | .SocketOk => fileSendFragments nacl state seqno ctr rem
          | .SocketError => return .SocketError
        | .SocketError => return .SocketError
      | .SocketError => return .SocketError
    | .SocketError => return .SocketError
  | .SocketError => return .SocketError

/-- Send everything from a fresh scratch buffer and close the connection. -/
def fileSend2 (nacl : NaCl) (state : ImmutState) (num rem : UInt64) : Io SResult := do
  modify fun w => { w with nonce := List.replicate 24 0 }
  let res ← fileFlushAll nacl state num rem
  let res' ← tcpClose
  match res, res' with
  | .SocketOk, .SocketOk => return .SocketOk
  | _, _ => return .SocketError

/-- Send everything, close the connection and the file. -/
def fileSend1 (nacl : NaCl) (state : ImmutState) (num rem : UInt64) : Io OpenResult := do
  let fh := (← get).file
  let res ← fileSend2 nacl state num rem
  let res' ← fileClose
  match res, res' with
  | .SocketOk, true => return ⟨.FileOk, fh.stat⟩
  | _, _ => return ⟨.FileError, fh.stat⟩

/-- The size of a file rounded up to hide it. -/
def roundedSize (fileSize roundup : UInt64) : UInt64 :=
  let fileSizeModRoundup := fileSize &&& (roundup - 1)
  let mask := gteMask roundup 1 &&& ~~~(eqMask fileSizeModRoundup 0)
  let frem := (roundup - fileSizeModRoundup) &&& mask
  fileSize + frem

/-- The header of a file: its size, its modification time, the length of its name and the name. -/
def headerOf (fileSize mtime : UInt64) (name : Bytes) : Bytes :=
  let header := List.replicate headersize.toNat 0
  let header := splice header 0 (store64Le fileSize)
  let header := splice header 8 (store64Le mtime)
  let header := splice header 16 (store64Le (UInt64.ofNat name.length))
  splice header 24 name

/-- Send a file, its size hidden by rounding it up; `random` is the session id that is drawn. -/
def fileSend (nacl : NaCl) (random name : Bytes) (roundup : UInt64) (skA pkB : Bytes) : Io OpenResult := do
  let pkA := nacl.getPublicKey skA
  let sid := random
  let key := nacl.boxBeforenm pkB skA
  modify fun w => { w with file := initFileHandle }
  match ← fileOpenReadSequential name with
  | .FileOk =>
    let fh := (← get).file
    let hsize := roundedSize fh.stat.size roundup
    let fragments := hsize >>> blocksizeBits
    -- The rest is taken from the size of the file, not from the rounded size.
    let rem := fh.stat.size &&& (blocksize - 1)
    if fragments ≥ 4294967295 ∨ rem ≥ blocksize then
      return ⟨.FileError, fh.stat⟩
    else
      let header := headerOf fh.stat.size fh.stat.mtime name
      let state : ImmutState := { pkA, pkB, key, sid, hsbuf := store64Le hsize, header }
      match ← tcpConnect with
      | .SocketOk => fileSend1 nacl state fragments rem
      | .SocketError => return ⟨.FileError, fh.stat⟩
  | .FileError => return ⟨.FileError, (← get).file.stat⟩

/-- Send fragments of the given lengths, one box after another. -/
def fileSendAll (nacl : NaCl) (state : ImmutState) : UInt64 → List UInt64 → Io SResult
  | _, [] => return .SocketOk
  | seqno, len :: lens => do
    match ← fileSendBox nacl state seqno len with
    | .SocketOk => fileSendAll nacl state (seqno + 1) lens
    | .SocketError => return .SocketError

/-- A file that is open for reading, at a position that stops at the end of its content. -/
structure Reading (w : World) (content : Bytes) (pos : Nat) : Prop where
  size : w.file.stat.size.toNat = content.length
  buffer : w.file.buffer = content ++ List.replicate blocksize.toNat 0
  current : w.file.current = min pos content.length

/-- The nonce in the scratch buffer starts with the session id. -/
structure Nonced (w : World) (sid : Bytes) : Prop where
  sid_length : sid.length = 16
  length : w.nonce.length = 24
  starts : w.nonce.take 16 = sid

section Nonce

variable {w : World} {sid : Bytes}

/-- A nonce starts with its session id. -/
theorem Nonced.of_nonceOf (size : sid.length = 16) {seqno : UInt64} (nonce : w.nonce = nonceOf sid seqno) :
    Nonced w sid where
  sid_length := size
  length := by simp [nonce, nonceOf, size]
  starts := by rw [nonce, nonceOf, List.take_left' size]

/-- Storing a sequence number completes the nonce. -/
theorem storeSeqno_run (nonced : Nonced w sid) (seqno : UInt64) :
    storeSeqno seqno w = ((), w.renonced (nonceOf sid seqno)) := by
  have rest : w.nonce.drop (16 + 8) = [] := List.drop_eq_nil_of_le (by rw [nonced.length])
  rw [storeSeqno, splice, store64Le_length, rest, nonced.starts, List.append_nil, ← nonceOf]

/-- The first nonce is made of the session id and the sequence number. -/
theorem firstNonce_run {α : Type} (sid_length : sid.length = 16) (length : w.nonce.length = 24) (seqno : UInt64)
    (f : Unit → Io α) :
    (blitSid sid >>= fun _ => storeSeqno seqno >>= f) w = f () (w.renonced (nonceOf sid seqno)) := by
  have nonced : Nonced (blitSid sid w).2 sid :=
    ⟨sid_length, by simp [blitSid, splice_length, length, sid_length],
      by rw [blitSid, World.renonced_nonce, splice_start, List.take_left' sid_length]⟩
  rw [Io.bind_run, Io.bind_step (storeSeqno_run nonced seqno)]
  rfl

end Nonce

section Sending

variable {nacl : NaCl} {state : ImmutState} {w : World} {content sid : Bytes} {pos : Nat}

/-- A computation makes the first boxes of a plan, in order. -/
def Boxes (w : World) (plan : List (Bytes × Bytes)) (x : Io SResult) : Prop :=
  ∃ k, (x w).2.boxes = w.boxes ++ plan.take k

/-- A write to the connection, and what follows when it succeeds. -/
theorem writeThen_run (b : Bytes) (next : Io SResult) (w : World) :
    (do match ← tcpWriteAll b with
        | .SocketOk => next
        | .SocketError => return .SocketError : Io SResult) w =
      if w.ready then next (w.wrote b) else (.SocketError, w.tick) := by
  rw [Io.bind_run, tcpWriteAll_run]
  cases ready : w.ready with
  | false => simp [sresult]
  | true => rfl

/-- Writing to the connection makes no box. -/
theorem Boxes.write {plan : List (Bytes × Bytes)} {b : Bytes} {next : Io SResult}
    (rest : Boxes (w.wrote b) plan next) :
    Boxes w plan (do
      match ← tcpWriteAll b with
      | .SocketOk => next
      | .SocketError => return .SocketError) := by
  rw [Boxes, writeThen_run]
  cases ready : w.ready with
  | false => exact ⟨0, by simp⟩
  | true => exact rest

/-- A box that is written to the connection comes before what follows. -/
theorem Boxes.box {plan : List (Bytes × Bytes)} {m nonce : Bytes} {cut : Bytes → Bytes} {next : Io SResult}
    (same : w.nonce = nonce) (rest : ∀ b, Boxes ((w.boxed m).wrote b) plan next) :
    Boxes w ((nonce, m) :: plan) (do
      let ciphertext ← cryptoBoxEasyAfternm nacl m state.key
      match ← tcpWriteAll (cut ciphertext) with
      | .SocketOk => next
      | .SocketError => return .SocketError) := by
  rw [Boxes, Io.bind_run, writeThen_run, ← same]
  cases ready : (cryptoBoxEasyAfternm nacl m state.key w).2.ready with
  | false => exact ⟨1, rfl⟩
  | true =>
    obtain ⟨k, more⟩ := rest (cut (nacl.boxEasyAfternm m w.nonce state.key))
    refine ⟨k + 1, ?_⟩
    rw [List.take_succ_cons, ← List.singleton_append, ← List.append_assoc]
    exact more

/-- The next fragment is read under the next nonce. -/
theorem fileSendBox_start {α : Type} (reading : Reading w content pos) (nonced : Nonced w sid)
    (seqno : UInt64) {len : UInt64} (fits : len.toNat ≤ blocksize.toNat) (f : Bytes → Io α) :
    (fileNextReadBuffer len >>= fun next => storeSeqno seqno >>= fun _ => f next) w =
      f (padded content pos len.toNat)
        ((w.moved (min (pos + len.toNat) content.length)).renonced (nonceOf sid seqno)) := by
  have position : min (w.file.current + len.toNat) w.file.stat.size.toNat =
      min (pos + len.toNat) content.length := by
    rw [reading.current, reading.size]; omega
  have window : (w.file.buffer.drop w.file.current).take len.toNat = padded content pos len.toNat := by
    rw [reading.buffer, reading.current, window_eq_padded content pos fits]
  have step : fileNextReadBuffer len w =
      (padded content pos len.toNat, w.moved (min (pos + len.toNat) content.length)) := by
    rw [fileNextReadBuffer, Io.bind_step (nextWindow_run w len), position, Io.bind_step (Io.get_run _),
      Io.pure_run, World.moved_file, window]
  have later : Nonced (w.moved (min (pos + len.toNat) content.length)) sid :=
    ⟨nonced.sid_length, nonced.length, nonced.starts⟩
  rw [Io.bind_step step, Io.bind_step (storeSeqno_run later seqno)]

/-- The box of a fragment is as long as the number of bytes that are written. -/
theorem box_take (sized : nacl.Sized) {m : Bytes} {len : UInt64} (size : m.length = len.toNat)
    (fits : len.toNat ≤ blocksize.toNat) (n key : Bytes) :
    (nacl.boxEasyAfternm m n key).take (cipherlen len).toNat = nacl.boxEasyAfternm m n key := by
  have block := blocksize_toNat
  apply List.take_of_length_le
  rw [sized.box_length, size, cipherlen, UInt64.toNat_add, show (16 : UInt64).toNat = 16 from rfl]
  omega

/-- The file and the nonce when the next fragment has been boxed. -/
theorem fileSendBox_next (reading : Reading w content pos) (nonced : Nonced w sid) (seqno : UInt64) (len : Nat)
    (b b' : Bytes) :
    let after := (((w.moved (min (pos + len) content.length)).renonced (nonceOf sid seqno)).boxed b).wrote b'
    Reading after content (pos + len) ∧ Nonced after sid :=
  ⟨⟨reading.size, reading.buffer, rfl⟩, Nonced.of_nonceOf nonced.sid_length rfl⟩

/-- However far the boxes get, they are the fragments under consecutive nonces. -/
theorem fileSendAll_boxes {lens : List UInt64} (fits : ∀ len ∈ lens, len.toNat ≤ blocksize.toNat)
    (reading : Reading w content pos) (nonced : Nonced w sid) (seqno : UInt64) :
    Boxes w (numbered sid seqno (fragmentsFrom content pos lens)) (fileSendAll nacl state seqno lens) := by
  -- The first box that is not written is the last one that is made.
  induction lens generalizing w pos seqno with
  | nil => exact ⟨0, by simp [fileSendAll]⟩
  | cons len lens ih =>
    have fit := fits len (List.mem_cons_self ..)
    rw [Boxes, fileSendAll, fileSendBox, bind_assoc]
    simp only [bind_assoc]
    rw [fileSendBox_start reading nonced seqno fit]
    refine Boxes.box rfl fun b => ?_
    obtain ⟨reads, nonces⟩ := fileSendBox_next reading nonced seqno len.toNat (padded content pos len.toNat) b
    exact ih (fun l member => fits l (List.mem_cons_of_mem _ member)) reads nonces (seqno + 1)

/-- Over a faithful connection all fragments are sent. -/
theorem fileSendAll_run (sized : nacl.Sized) {lens : List UInt64}
    (fits : ∀ len ∈ lens, len.toNat ≤ blocksize.toNat) (faithful : w.Faithful) (reading : Reading w content pos)
    (nonced : Nonced w sid) (seqno : UInt64) : ∃ w', fileSendAll nacl state seqno lens w = (.SocketOk, w') ∧
      w'.sent = w.sent ++ wire nacl state.key (numbered sid seqno (fragmentsFrom content pos lens)) ∧
      w'.boxes = w.boxes ++ numbered sid seqno (fragmentsFrom content pos lens) ∧ w'.succeeds = w.succeeds := by
  induction lens generalizing w pos seqno with
  | nil => exact ⟨w, rfl, by simp [fragmentsFrom, numbered, wire], by simp [fragmentsFrom, numbered], rfl⟩
  | cons len lens ih =>
    have fit := fits len (List.mem_cons_self ..)
    have box := box_take sized (padded_length content pos len.toNat) fit (nonceOf sid seqno) state.key
    obtain ⟨reads, nonces⟩ := fileSendBox_next reading nonced seqno len.toNat (padded content pos len.toNat)
      (nacl.boxEasyAfternm (padded content pos len.toNat) (nonceOf sid seqno) state.key)
    obtain ⟨w', rest, sent, made, same⟩ := ih (fun l member => fits l (List.mem_cons_of_mem _ member))
      (by exact fun n => faithful n) reads nonces (seqno + 1)
    refine ⟨w', ?_, ?_, ?_, same⟩
    · rw [fileSendAll, fileSendBox]
      simp only [bind_assoc]
      rw [fileSendBox_start reading nonced seqno fit, Io.bind_run, writeThen_run]
      have ready : (cryptoBoxEasyAfternm nacl (padded content pos len.toNat) state.key
          ((w.moved (min (pos + len.toNat) content.length)).renonced (nonceOf sid seqno))).2.ready = true :=
        faithful _
      rw [if_pos ready, ← rest, cryptoBoxEasyAfternm, World.renonced_nonce, box]
    · rw [sent]
      simp [wire, numbered, fragmentsFrom]
    · rw [made]
      simp [numbered, fragmentsFrom]

/-- Full fragments and a shorter one are no longer than a block. -/
theorem replicate_fits {n : Nat} {rem : UInt64} (short : rem.toNat ≤ blocksize.toNat) :
    ∀ len ∈ List.replicate n blocksize ++ if rem = 0 then [] else [rem], len.toNat ≤ blocksize.toNat := by
  intro len member
  rcases List.mem_append.mp member with full | rest
  · rw [List.eq_of_mem_replicate full]
  · split at rest
    · cases rest
    · rwa [List.mem_singleton.mp rest]

/-- The loop over the full fragments, and whatever follows it. -/
theorem fileSendLoop_then (seqno : UInt64) (n : Nat) (rest : List UInt64) (w : World) :
    (do match ← fileSendLoop nacl state seqno n with
        | .SocketOk => fileSendAll nacl state (seqno + UInt64.ofNat n) rest
        | .SocketError => return .SocketError : Io SResult) w =
      fileSendAll nacl state seqno (List.replicate n blocksize ++ rest) w := by
  induction n generalizing seqno w with
  | zero => simp [fileSendLoop, Io.bind_run]
  | succ n ih =>
    have next : seqno + UInt64.ofNat (n + 1) = seqno + 1 + UInt64.ofNat n := by
      rw [UInt64.ofNat_add, UInt64.add_assoc, UInt64.add_comm 1]
      rfl
    rw [fileSendLoop, List.replicate_succ, List.cons_append, fileSendAll, next, Io.bind_run, Io.bind_run,
      Io.bind_run]
    cases result : (fileSendBox nacl state seqno blocksize w).1 with
    | SocketOk => exact ih (seqno + 1) _
    | SocketError => rfl

/-- The full fragments and the rest are boxes with consecutive sequence numbers. -/
theorem fileSendFragments_eq (fragments rem : UInt64) :
    fileSendFragments nacl state 1 fragments rem =
      fileSendAll nacl state 1 (List.replicate fragments.toNat blocksize ++ if rem = 0 then [] else [rem]) := by
  funext w
  rw [← fileSendLoop_then, fileSendFragments, Io.bind_run, Io.bind_run]
  cases result : (fileSendLoop nacl state 1 fragments.toNat w).1 with
  | SocketError => rfl
  | SocketOk =>
    by_cases empty : rem = 0
    · simp [empty, fileSendAll]
    · have positive : rem > 0 := UInt64.pos_iff_ne_zero.mpr empty
      have seqno : 1 + UInt64.ofNat fragments.toNat = fragments + 1 := by
        rw [UInt64.ofNat_toNat, UInt64.add_comm]
      simp only [positive, empty, if_true, if_false, seqno, fileSendAll]
      -- A single box returns its own result.
      rw [Io.bind_run]
      cases last : (fileSendBox nacl state (fragments + 1) rem
        (fileSendLoop nacl state 1 fragments.toNat w).2).1 <;> simp [← last]

/-- However far a transfer gets, its boxes are the header and the fragments under consecutive nonces. -/
theorem fileFlushAll_boxes (reading : Reading w content 0) (sid_length : state.sid.length = 16)
    (scratch : w.nonce.length = 24) (ctr : UInt64) {rem : UInt64} (short : rem.toNat ≤ blocksize.toNat) :
    Boxes w (numbered state.sid 0 (state.header ::
        fragmentsFrom content 0 (List.replicate ctr.toNat blocksize ++ if rem = 0 then [] else [rem])))
      (fileFlushAll nacl state ctr rem) := by
  -- Nothing is boxed before the session id, the announced size and the keys are written.
  refine Boxes.write (Boxes.write (Boxes.write (Boxes.write ?_)))
  rw [Boxes, firstNonce_run sid_length (by exact scratch)]
  refine Boxes.box rfl fun b => ?_
  rw [show (0 + 1 : UInt64) = 1 from rfl, fileSendFragments_eq]
  refine fileSendAll_boxes (replicate_fits short) ?_ ?_ 1
  · exact ⟨reading.size, reading.buffer, reading.current⟩
  · exact Nonced.of_nonceOf sid_length rfl

/-- Over a faithful connection the header and all fragments follow what is sent in the clear. -/
theorem fileFlushAll_run (sized : nacl.Sized) (reading : Reading w content 0) (sid_length : state.sid.length = 16)
    (scratch : w.nonce.length = 24) (header_length : state.header.length = headersize.toNat)
    (faithful : w.Faithful) (ctr : UInt64) {rem : UInt64} (short : rem.toNat ≤ blocksize.toNat) :
    ∃ w', fileFlushAll nacl state ctr rem w = (.SocketOk, w') ∧
      w'.sent = w.sent ++ state.sid ++ state.hsbuf ++ state.pkA ++ state.pkB ++
        wire nacl state.key (numbered state.sid 0 (state.header ::
          fragmentsFrom content 0 (List.replicate ctr.toNat blocksize ++ if rem = 0 then [] else [rem]))) ∧
      w'.boxes = w.boxes ++ numbered state.sid 0 (state.header ::
        fragmentsFrom content 0 (List.replicate ctr.toNat blocksize ++ if rem = 0 then [] else [rem])) ∧
      w'.succeeds = w.succeeds := by
  have ready (w' : World) (same : w'.succeeds = w.succeeds) : w'.ready = true := by
    rw [World.ready, same]; exact faithful _
  have box := box_take sized header_length (by decide) (nonceOf state.sid 0) state.key
  set header := nacl.boxEasyAfternm state.header (nonceOf state.sid 0) state.key with header_def
  set clear := (((w.wrote state.sid).wrote state.hsbuf).wrote state.pkA).wrote state.pkB with clear_def
  set after := ((clear.renonced (nonceOf state.sid 0)).boxed state.header).wrote header with after_def
  have reads : Reading after content 0 := ⟨reading.size, reading.buffer, reading.current⟩
  have nonces : Nonced after state.sid := Nonced.of_nonceOf sid_length rfl
  obtain ⟨w', rest, sent, made, same⟩ := @fileSendAll_run nacl state after content state.sid 0 sized _
    (@replicate_fits ctr.toNat _ short) (fun n => faithful n) reads nonces 1
  refine ⟨w', ?_, ?_, ?_, same⟩
  · rw [fileFlushAll, writeThen_run, if_pos (ready _ (by rfl)), writeThen_run, if_pos (ready _ (by rfl)), writeThen_run,
      if_pos (ready _ (by rfl)), writeThen_run, if_pos (ready _ (by rfl)), firstNonce_run sid_length (by exact scratch),
      Io.bind_run, writeThen_run, if_pos (ready _ (by rfl)), show (0 + 1 : UInt64) = 1 from rfl,
      fileSendFragments_eq, ← rest, cryptoBoxEasyAfternm,
      World.renonced_nonce, box]
  · rw [sent]
    simp [wire, numbered, header_def, clear_def, after_def]
  · rw [made]
    simp [numbered, after_def, clear_def]

end Sending

section Sizes

variable {size roundup : UInt64}

/-- The number of full fragments of a file. -/
def fragmentCount (size roundup : UInt64) : UInt64 := roundedSize size roundup >>> blocksizeBits

/-- The length of the last fragment of a file. -/
def restLength (size : UInt64) : UInt64 := size &&& (blocksize - 1)

/-- How many bytes the fragments of a file carry. -/
def carried (size roundup : UInt64) : UInt64 := fragmentCount size roundup * blocksize + restLength size

/-- Full fragments are counted by a shift. -/
theorem fragmentCount_toNat : (fragmentCount size roundup).toNat = (roundedSize size roundup).toNat / 262144 := by
  rw [fragmentCount, UInt64.toNat_shiftRight, show blocksizeBits.toNat % 64 = 18 from rfl, Nat.shiftRight_eq_div_pow]

/-- The rest is found by a mask. -/
theorem restLength_toNat : (restLength size).toNat = size.toNat % 262144 := by
  rw [restLength, UInt64.toNat_and, show (blocksize - 1).toNat = 2 ^ 18 - 1 from rfl,
    Nat.and_two_pow_sub_one_eq_mod]

/-- The rest is shorter than a block. -/
theorem restLength_lt : (restLength size).toNat < blocksize.toNat := by
  rw [restLength_toNat, blocksize_toNat]
  omega

/-- The bytes carried, as a number. -/
theorem carried_toNat (few : fragmentCount size roundup < 4294967295) :
    (carried size roundup).toNat = (roundedSize size roundup).toNat / 262144 * 262144 + size.toNat % 262144 := by
  rw [UInt64.lt_iff_toNat_lt, fragmentCount_toNat, show (4294967295 : UInt64).toNat = 4294967295 from rfl] at few
  rw [carried, UInt64.toNat_add, UInt64.toNat_mul, fragmentCount_toNat, restLength_toNat, blocksize_toNat]
  omega

/-- The fragments that are sent are those of the bytes carried. -/
theorem fragmentLengths_carried (few : fragmentCount size roundup < 4294967295) :
    fragmentLengths (carried size roundup) = List.replicate (fragmentCount size roundup).toNat blocksize ++
      if restLength size = 0 then [] else [restLength size] := by
  have total := carried_toNat few
  have count : carried size roundup / blocksize = fragmentCount size roundup := by
    rw [← UInt64.toNat_inj, UInt64.toNat_div, total, fragmentCount_toNat, blocksize_toNat]
    omega
  have rest : carried size roundup % blocksize = restLength size := by
    rw [← UInt64.toNat_inj, UInt64.toNat_mod, total, restLength_toNat, blocksize_toNat]
    omega
  rw [fragmentLengths, count, rest]

end Sizes

/-- What is boxed for a file: its header, then its fragments. -/
def plan (name content : Bytes) (mtime roundup : UInt64) : List Bytes :=
  headerOf (UInt64.ofNat content.length) mtime name ::
    fragmentsFrom content 0 (fragmentLengths (carried (UInt64.ofNat content.length) roundup))

section Files

variable {nacl : NaCl} {w : World} {sid name content skA pkB : Bytes} {mtime roundup : UInt64}

/-- The fields of a header, one behind the other. -/
theorem headerOf_eq (size mtime : UInt64) (name : Bytes) :
    headerOf size mtime name = store64Le size ++ (store64Le mtime ++ (store64Le (UInt64.ofNat name.length) ++
      (name ++ List.replicate (1000 - name.length) 0))) := by
  -- Each field is written behind the ones before it.
  have behind (first rest field : Bytes) (n : Nat) (size : first.length = n) :
      splice (first ++ rest) n field = first ++ (field ++ rest.drop field.length) := by
    rw [← size, splice_append, splice_start]
  rw [headerOf, show headersize.toNat = 1024 from rfl, splice_start, behind _ _ _ 8 (store64Le_length _),
    ← List.append_assoc, behind _ _ _ 16 (by simp), ← List.append_assoc, behind _ _ _ 24 (by simp)]
  simp only [store64Le_length, List.drop_replicate, List.append_assoc]

/-- A header with a name that fits has the length of a header. -/
theorem headerOf_length (size mtime : UInt64) (short : name.length < 100) :
    (headerOf size mtime name).length = headersize.toNat := by
  rw [headerOf_eq, show headersize.toNat = 1024 from rfl]
  simp only [List.length_append, store64Le_length, List.length_replicate]
  omega

/-- The world in which the file is open and the peer was called. -/
def openWorld (w : World) (name content : Bytes) (mtime : UInt64) : World :=
  { w with
    clock := w.clock + 1 + 1
    file := ⟨⟨name, mtime, UInt64.ofNat content.length⟩, content ++ List.replicate blocksize.toNat 0, 0⟩ }

/-- The file is open at its start. -/
theorem openWorld_reading (small : content.length < 2 ^ 64) :
    Reading ((openWorld w name content mtime).renonced sid) content 0 where
  size := Nat.mod_eq_of_lt (by omega)
  buffer := rfl
  current := (Nat.zero_min _).symm

/-- What does not change in a transfer of a file. -/
def stateOf (nacl : NaCl) (sid name content : Bytes) (mtime roundup : UInt64) (skA pkB : Bytes) : ImmutState where
  pkA := nacl.getPublicKey skA
  pkB := pkB
  key := nacl.boxBeforenm pkB skA
  sid := sid
  hsbuf := store64Le (roundedSize (UInt64.ofNat content.length) roundup)
  header := headerOf (UInt64.ofNat content.length) mtime name

/-- A transfer that is started closes the connection and the file, whatever happens. -/
theorem fileSend1_run (state : ImmutState) (num rem : UInt64) (w : World) {res : SResult} {w' : World}
    (ran : fileFlushAll nacl state num rem (w.renonced (List.replicate 24 0)) = (res, w')) :
    fileSend1 nacl state num rem w =
      (⟨if res = .SocketOk ∧ w'.ready ∧ w'.tick.ready then .FileOk else .FileError, w.file.stat⟩, w'.tick.tick) := by
  have flush : fileSend2 nacl state num rem w =
      (if res = .SocketOk ∧ w'.ready then .SocketOk else .SocketError, w'.tick) := by
    rw [fileSend2, Io.bind_step (Io.modify_run _ w)]
    change (fileFlushAll nacl state num rem >>= _) (w.renonced (List.replicate 24 0)) = _
    rw [Io.bind_step ran, tcpClose, Io.bind_step (socketStep_run w')]
    cases res <;> cases w'.ready <;> simp [sresult]
  rw [fileSend1, Io.bind_step (Io.get_run w), Io.bind_step flush, fileClose, Io.bind_run]
  simp only [attempt]
  cases res <;> cases w'.ready <;> cases w'.tick.ready <;> simp

/-- Sending a file that is there: it may be too large, and the peer may not answer. -/
theorem fileSend_found (found : w.disk name = some (content, mtime)) (ready : w.ready = true) :
    fileSend nacl sid name roundup skA pkB w =
      if fragmentCount (UInt64.ofNat content.length) roundup < 4294967295 then
        if w.tick.ready then
          fileSend1 nacl (stateOf nacl sid name content mtime roundup skA pkB)
            (fragmentCount (UInt64.ofNat content.length) roundup) (restLength (UInt64.ofNat content.length))
            (openWorld w name content mtime)
        else (⟨.FileError, ⟨name, mtime, UInt64.ofNat content.length⟩⟩, openWorld w name content mtime)
      else (⟨.FileError, ⟨name, mtime, UInt64.ofNat content.length⟩⟩,
        { openWorld w name content mtime with clock := w.clock + 1 }) := by
  have short : ¬ restLength (UInt64.ofNat content.length) ≥ blocksize := by
    rw [ge_iff_le, UInt64.le_iff_toNat_le, Nat.not_le]
    exact restLength_lt
  rw [fileSend, Io.bind_step (Io.modify_run _ w),
    Io.bind_step (fileOpenReadSequential_run _ (by exact found) (by exact ready))]
  dsimp only
  rw [Io.bind_step (Io.get_run _)]
  dsimp only
  rw [← fragmentCount, ← restLength]
  simp only [short, or_false]
  by_cases few : fragmentCount (UInt64.ofNat content.length) roundup < 4294967295
  · have many : ¬ fragmentCount (UInt64.ofNat content.length) roundup ≥ 4294967295 :=
      UInt64.not_le.mpr few
    rw [if_neg many, if_pos few, tcpConnect, Io.bind_step (socketStep_run _)]
    change (match sresult w.tick.ready with
      | .SocketOk => _
      | .SocketError => _ : Io OpenResult) (openWorld w name content mtime) = _
    cases connects : w.tick.ready <;> rfl
  · rw [if_pos (UInt64.not_lt.mp few), if_neg few]
    rfl

/-- Sending a file that is not there, or that cannot be opened. -/
theorem fileSend_missing (missing : w.disk name = none ∨ w.ready = false) :
    fileSend nacl sid name roundup skA pkB w =
      (⟨.FileError, initFileHandle.stat⟩, { w.tick with file := initFileHandle }) := by
  rw [fileSend, Io.bind_step (Io.modify_run _ w), Io.bind_step (fileOpenReadSequential_fails _ (by exact missing))]
  rfl

/-- Whatever happens, the boxes that are made for a file are its header and its fragments, from the first on. -/
theorem fileSend_boxes (found : w.disk name = some (content, mtime)) (small : content.length < 2 ^ 64)
    (sid_length : sid.length = 16) : ∃ k, (fileSend nacl sid name roundup skA pkB w).2.boxes =
      w.boxes ++ (numbered sid 0 (plan name content mtime roundup)).take k := by
  cases ready : w.ready with
  | false =>
    refine ⟨0, ?_⟩
    rw [fileSend_missing (.inr ready)]
    simp
  | true =>
    rw [fileSend_found found ready]
    split
    · next few =>
      split
      · -- The connection is made: the boxes are those of the transfer.
        have reading : Reading ((openWorld w name content mtime).renonced (List.replicate 24 0)) content 0 :=
          openWorld_reading small
        obtain ⟨k, made⟩ := @fileFlushAll_boxes nacl (stateOf nacl sid name content mtime roundup skA pkB) _ _
          reading sid_length List.length_replicate (fragmentCount (UInt64.ofNat content.length) roundup) _
          restLength_lt.le
        refine ⟨k, ?_⟩
        rw [fileSend1_run _ _ _ _ Prod.mk.eta.symm, plan, fragmentLengths_carried few]
        exact made
      · exact ⟨0, by simp [openWorld]⟩
    · exact ⟨0, by simp [openWorld]⟩

/-- Over a faithful connection a file that is not too large is sent as a whole. -/
theorem fileSend_run (sized : nacl.Sized) (found : w.disk name = some (content, mtime))
    (small : content.length < 2 ^ 32) (short : name.length < 100) (sid_length : sid.length = 16)
    (faithful : w.Faithful) (few : fragmentCount (UInt64.ofNat content.length) roundup < 4294967295) :
    (fileSend nacl sid name roundup skA pkB w).1.r = .FileOk ∧
      (fileSend nacl sid name roundup skA pkB w).2.sent = w.sent ++ sid ++
        store64Le (roundedSize (UInt64.ofNat content.length) roundup) ++ nacl.getPublicKey skA ++ pkB ++
        wire nacl (nacl.boxBeforenm pkB skA) (numbered sid 0 (plan name content mtime roundup)) ∧
      (fileSend nacl sid name roundup skA pkB w).2.boxes =
        w.boxes ++ numbered sid 0 (plan name content mtime roundup) := by
  have reading : Reading ((openWorld w name content mtime).renonced (List.replicate 24 0)) content 0 :=
    openWorld_reading (by omega)
  obtain ⟨w', ran, sent, made, same⟩ := @fileFlushAll_run nacl
    (stateOf nacl sid name content mtime roundup skA pkB) _ _ sized reading sid_length List.length_replicate
    (headerOf_length _ _ short) (fun n => faithful n)
    (fragmentCount (UInt64.ofNat content.length) roundup) _
    (@restLength_lt (UInt64.ofNat content.length)).le
  have ready (v : World) (kept : v.succeeds = w'.succeeds) : v.ready = true := by
    rw [World.ready, kept, same]; exact faithful _
  rw [fileSend_found found faithful.ready, if_pos few, if_pos (show w.tick.ready = true from faithful _),
    fileSend1_run _ _ _ _ ran, ready w' rfl, ready w'.tick rfl, plan, fragmentLengths_carried few]
  exact ⟨rfl, sent, made⟩

/-- A file that is too large is refused before anything is sent. -/
theorem fileSend_refused (found : w.disk name = some (content, mtime)) (faithful : w.Faithful)
    (many : ¬ fragmentCount (UInt64.ofNat content.length) roundup < 4294967295) :
    (fileSend nacl sid name roundup skA pkB w).2.sent = w.sent := by
  rw [fileSend_found found faithful.ready, if_neg many]
  rfl

end Files

end HaclStar.Tube
