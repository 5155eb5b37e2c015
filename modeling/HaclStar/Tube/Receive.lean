import HaclStar.Tube.Send

/-! The receiving side of PneuTube: connections are accepted one after another, each carrying one file. -/

namespace HaclStar.Tube

open Endianness Memory

/-- Compare two byte strings from position `len` down, `0xff` when they agree. -/
def memcmp (b b' : Bytes) : Nat → UInt8
  | 0 => 0xff
  | i + 1 => if b[i]? = b'[i]? then memcmp b b' i else 0

/-- Receive one box around `len` bytes and write them into the next window of the file. -/
def fileRecvBox (nacl : NaCl) (state : ImmutState) (seqno len : UInt64) : Io SResult := do
  match ← tcpReadAll (cipherlen len) with
  | some ciphertext =>
    let next ← fileNextWriteBuffer blocksize
    storeSeqno seqno
    match ← cryptoBoxOpenEasyAfternm nacl ciphertext state.key with
    | some bytes =>
      writeWindow next bytes
      return .SocketOk
    | none => return .SocketError
  | none => return .SocketError

/-- Receive the rest of a file. -/
def fileRecvLoop2LtBlocksize (nacl : NaCl) (state : ImmutState) (seqno len : UInt64) : Io SResult :=
  if len = 0 then return .SocketOk else fileRecvBox nacl state seqno len

/-- Receive `len` bytes, in full fragments as long as there are any. -/
def fileRecvLoop2 (nacl : NaCl) (state : ImmutState) (seqno len : UInt64) : Io SResult :=
  if len < blocksize then
    fileRecvLoop2LtBlocksize nacl state seqno len
  else do
    match ← fileRecvBox nacl state seqno blocksize with
    | .SocketOk => fileRecvLoop2 nacl state (seqno + 1) (len - blocksize)
    | .SocketError => return .SocketError
termination_by len.toNat
decreasing_by
  rename_i full
  have block : blocksize.toNat = 262144 := by decide
  rw [UInt64.lt_iff_toNat_lt] at full
  rw [UInt64.toNat_sub_of_le _ _ (by rw [UInt64.le_iff_toNat_le]; omega)]
  omega

/-- Receive the header and create the file it describes. -/
def fileRecvHeader (nacl : NaCl) (state : ImmutState) : Io SResult := do
  modify fun w => { w with nonce := List.replicate 24 0 }
  match ← tcpReadAll (cipherlen headersize) with
  | some ciphertext =>
    blitSid state.sid
    storeSeqno 0
    match ← cryptoBoxOpenEasyAfternm nacl ciphertext state.key with
    | some header =>
      let fileSize := load64Le header
      let mtime := load64Le (header.drop 8)
      let nsize := load64Le (header.drop 16)
      if nsize ≥ 100 ∨ fileSize ≥ 4294967296 then
        return .SocketError
      else
        let file := (header.drop 24).take nsize.toNat
        match ← fileOpenWriteSequential { name := file, mtime, size := fileSize } with
        | .FileOk => return .SocketOk
        | .FileError => return .SocketError
    | none => return .SocketError
  | none => return .SocketError

/-- Receive the header and the fragments of a file of the announced size. -/
def fileRecvBody (nacl : NaCl) (state : ImmutState) (size : UInt64) : Io SResult := do
  match ← fileRecvHeader nacl state with
  | .SocketOk => fileRecvLoop2 nacl state 1 size
  | .SocketError => return .SocketError

/-- Receive a file of the announced size, then close the file and the connection. -/
def fileRecvEnc (nacl : NaCl) (state : ImmutState) (size : UInt64) : Io SResult := do
  match ← fileRecvBody nacl state size with
  | .SocketOk =>
    match ← fileClose with
    | false => tcpClose
    | true => return .SocketError
  | .SocketError => return .SocketError

/-- Read what comes in the clear, and check that it names the expected keys. -/
def fileRecvHello (state : ImmutState) : Io (Option (ImmutState × UInt64)) := do
  match ← tcpReadAll 16 with
  | some sid =>
    match ← tcpReadAll 8 with
    | some hsbuf =>
      let hsize := load64Le hsbuf
      match ← tcpReadAll 32 with
      | some pk1 =>
        match ← tcpReadAll 32 with
        | some pk2 =>
          if memcmp pk1 state.pkA 32 = 0xff then
            if memcmp pk2 state.pkB 32 = 0xff then
              return some ({ state with sid, hsbuf }, hsize)
            else
              return none
          else
            return none
        | none => return none
      | none => return none
    | none => return none
  | none => return none

/-- Accept a connection on which the given bytes arrive. -/
def tcpAccept (connection : Bytes) : Io SResult := do
  if ← attempt then
    modify fun w => { w with incoming := connection }
    return .SocketOk
  else
    return .SocketError

/-- Serve one connection. -/
def fileRecvConnection (nacl : NaCl) (state : ImmutState) (connection : Bytes) : Io SResult := do
  match ← tcpAccept connection with
  | .SocketOk =>
    match ← fileRecvHello state with
    | some (state, hsize) => fileRecvEnc nacl state hsize
    | none => return .SocketError
  | .SocketError => return .SocketError

/-- Serve the connections that arrive, until one fails or no other comes. -/
def fileRecvLoop (nacl : NaCl) (state : ImmutState) : List Bytes → Io SResult
  | [] => return .SocketError
  | connection :: connections => do
    match ← fileRecvConnection nacl state connection with
    | .SocketOk => fileRecvLoop nacl state connections
    | .SocketError => return .SocketError

/-- The keys of the two parties, before anything is received. -/
def recvState (nacl : NaCl) (pkA skB : Bytes) : ImmutState where
  pkA := pkA
  pkB := nacl.getPublicKey skB
  key := nacl.boxBeforenm pkA skB
  sid := List.replicate 16 0
  hsbuf := List.replicate 8 0
  header := List.replicate 1024 0

/-- Receive files from the owner of `pkA` on the connections that arrive. -/
def fileRecv (nacl : NaCl) (pkA skB : Bytes) (connections : List Bytes) : Io OpenResult := do
  modify fun w => { w with file := initFileHandle }
  let state := recvState nacl pkA skB
  match ← socketStep with
  | .SocketOk =>
    match ← fileRecvLoop nacl state connections with
    | .SocketOk => return ⟨.FileOk, initFileHandle.stat⟩
    | .SocketError => return ⟨.FileError, initFileHandle.stat⟩
  | .SocketError => return ⟨.FileError, initFileHandle.stat⟩

/-- Open the boxes of messages of the given lengths under consecutive nonces. -/
def openAll (nacl : NaCl) (key sid : Bytes) : UInt64 → List UInt64 → Bytes → Option (List Bytes)
  | _, [], _ => some []
  | seqno, len :: lens, bytes =>
    if len.toNat + 16 ≤ bytes.length then do
      let m ← nacl.boxOpenEasyAfternm (bytes.take (len.toNat + 16)) (nonceOf sid seqno) key
      let ms ← openAll nacl key sid (seqno + 1) lens (bytes.drop (len.toNat + 16))
      return m :: ms
    else none

/-- The length of the boxes around messages of the given lengths. -/
def boxesLength (lens : List UInt64) : Nat := totalLength lens + 16 * lens.length

section Boxes

variable {nacl : NaCl} {state : ImmutState} {w w' : World} {sid : Bytes}

/-- The world after a box was opened and its message written. -/
def accepted (w : World) (nonce m : Bytes) (len : UInt64) : World :=
  ((((w.received (len.toNat + 16)).moved
    (min (w.file.current + blocksize.toNat) w.file.stat.size.toNat)).renonced nonce).boxed
      (w.incoming.take (len.toNat + 16))).filled m w.file.current

/-- The length of a box as a number. -/
theorem cipherlen_toNat {len : UInt64} (fits : len.toNat ≤ blocksize.toNat) :
    (cipherlen len).toNat = len.toNat + 16 := by
  have block := blocksize_toNat
  rw [cipherlen, UInt64.toNat_add, show (16 : UInt64).toNat = 16 from rfl]
  omega

/-- A box is received exactly when it arrives and opens. -/
theorem fileRecvBox_ok (nonced : Nonced w sid) (seqno : UInt64) {len : UInt64}
    (fits : len.toNat ≤ blocksize.toNat) : fileRecvBox nacl state seqno len w = (.SocketOk, w') ↔
      w.ready = true ∧ len.toNat + 16 ≤ w.incoming.length ∧ ∃ m,
        nacl.boxOpenEasyAfternm (w.incoming.take (len.toNat + 16)) (nonceOf sid seqno) state.key = some m ∧
          w' = accepted w (nonceOf sid seqno) m len := by
  have size := cipherlen_toNat fits
  by_cases served : w.ready = true ∧ len.toNat + 16 ≤ w.incoming.length
  · have read := tcpReadAll_some w (cipherlen len) served.1 (by rw [size]; exact served.2)
    have later : Nonced ((w.received (len.toNat + 16)).moved
        (min (w.file.current + blocksize.toNat) w.file.stat.size.toNat)) sid :=
      ⟨nonced.sid_length, nonced.length, nonced.starts⟩
    rw [size] at read
    rw [fileRecvBox, Io.bind_step read]
    dsimp only
    rw [fileNextWriteBuffer, Io.bind_step (nextWindow_run _ blocksize), World.received_file,
      Io.bind_step (storeSeqno_run later seqno), Io.bind_run]
    simp only [cryptoBoxOpenEasyAfternm, World.renonced_nonce, served.1, served.2, true_and]
    cases opened : nacl.boxOpenEasyAfternm (w.incoming.take (len.toNat + 16)) (nonceOf sid seqno) state.key with
    | none =>
      constructor
      · intro ran
        cases ran
      · rintro ⟨m, none, -⟩
        cases none
    | some m =>
      simp only [Option.some.injEq, exists_eq_left']
      rw [writeWindow, Io.bind_step (Io.modify_run _ _), Io.pure_run, Prod.mk.injEq, eq_comm (a := w')]
      exact ⟨And.right, fun same => ⟨rfl, same⟩⟩
  · have fails : w.ready = false ∨ w.incoming.length < (cipherlen len).toNat := by rw [size]; grind
    rw [fileRecvBox, Io.bind_step (tcpReadAll_none w _ fails)]
    constructor
    · intro ran
      cases ran
    · rintro ⟨ready, enough, -⟩
      exact absurd ⟨ready, enough⟩ served

/-- The first `n` bytes that were written are at the start of the file, as far as they fit. -/
structure Filled (w : World) (n : Nat) : Prop where
  room : w.file.buffer.length = w.file.stat.size.toNat + blocksize.toNat
  amount : w.written.flatten.length = n
  starts : w.file.buffer.take (min n w.file.stat.size.toNat) =
    w.written.flatten.take (min n w.file.stat.size.toNat)

section Accepted

variable (w) (nonce m : Bytes) (len : UInt64)

@[simp] theorem accepted_nonce : (accepted w nonce m len).nonce = nonce := rfl
@[simp] theorem accepted_stat : (accepted w nonce m len).file.stat = w.file.stat := by
  rw [accepted, World.filled_stat, World.boxed_file, World.renonced_file, World.moved_stat, World.received_file]
@[simp] theorem accepted_written : (accepted w nonce m len).written = w.written ++ [m] := rfl
@[simp] theorem accepted_succeeds : (accepted w nonce m len).succeeds = w.succeeds := rfl
@[simp] theorem accepted_incoming :
    (accepted w nonce m len).incoming = w.incoming.drop (len.toNat + 16) := rfl
@[simp] theorem accepted_current : (accepted w nonce m len).file.current =
    min (w.file.current + blocksize.toNat) w.file.stat.size.toNat := rfl
@[simp] theorem accepted_buffer :
    (accepted w nonce m len).file.buffer = splice w.file.buffer w.file.current m := by
  rw [accepted, World.filled_buffer, World.boxed_file, World.renonced_file, World.moved_buffer, World.received_file]

end Accepted

/-- A message that is written at the position continues what was written before. -/
theorem Filled.next {n : Nat} {nonce m : Bytes} {len : UInt64} (filled : Filled w n)
    (current : w.file.current = min n w.file.stat.size.toNat) (short : m.length ≤ blocksize.toNat) :
    Filled (accepted w nonce m len) (n + m.length) where
  room := by
    have room := filled.room
    rw [accepted_buffer, accepted_stat, splice_length _ _ _ (by omega), room]
  amount := by
    rw [accepted_written, List.flatten_append, List.length_append, filled.amount, List.flatten_singleton]
  starts := by
    have room := filled.room
    have amount := filled.amount
    have starts := filled.starts
    rw [accepted_buffer, accepted_stat, accepted_written, List.flatten_append, List.flatten_singleton, current]
    rcases Nat.le_total n w.file.stat.size.toNat with inside | beyond
    · -- The position has not stopped: the message is behind what was written.
      rw [Nat.min_eq_left inside] at starts ⊢
      rw [splice, starts, ← amount, List.take_length,
        List.take_append_of_le_length (by rw [List.length_append]; omega)]
    · -- The position has stopped at the end of the content, which stays as it is.
      rw [Nat.min_eq_right beyond] at starts ⊢
      rw [Nat.min_eq_right (by omega), splice, List.append_assoc,
        List.take_append_of_le_length (by rw [List.length_take]; omega), List.take_take, Nat.min_self, starts,
        List.take_append_of_le_length (by omega)]

/-- Opening one more box. -/
theorem openAll_cons {key : Bytes} {seqno len : UInt64} {lens : List UInt64} {bytes m : Bytes} {ms : List Bytes} :
    openAll nacl key sid seqno (len :: lens) bytes = some (m :: ms) ↔ len.toNat + 16 ≤ bytes.length ∧
      nacl.boxOpenEasyAfternm (bytes.take (len.toNat + 16)) (nonceOf sid seqno) key = some m ∧
      openAll nacl key sid (seqno + 1) lens (bytes.drop (len.toNat + 16)) = some ms := by
  rw [openAll]
  split
  · next enough =>
    simp only [enough, true_and]
    cases nacl.boxOpenEasyAfternm (bytes.take (len.toNat + 16)) (nonceOf sid seqno) key with
    | none => simp
    | some m' =>
      cases openAll nacl key sid (seqno + 1) lens (bytes.drop (len.toNat + 16)) with
      | none => simp
      | some ms' => simp
  · next short => simp [short]

/-- There is one message for each length. -/
theorem openAll_length {key : Bytes} {seqno : UInt64} {lens : List UInt64} {bytes : Bytes} {ms : List Bytes}
    (opens : openAll nacl key sid seqno lens bytes = some ms) : ms.length = lens.length := by
  induction lens generalizing seqno bytes ms with
  | nil =>
    cases opens
    rfl
  | cons len lens ih =>
    cases ms with
    | nil =>
      rw [openAll] at opens
      split at opens <;> simp [Option.bind_eq_some_iff] at opens
    | cons m ms =>
      obtain ⟨-, -, more⟩ := openAll_cons.mp opens
      rw [List.length_cons, List.length_cons, ih more]

/-- A first box and the boxes behind it. -/
theorem boxesLength_cons (len : UInt64) (lens : List UInt64) :
    boxesLength (len :: lens) = len.toNat + 16 + boxesLength lens := by
  rw [boxesLength, boxesLength, totalLength_cons, List.length_cons]
  ring

/-- When the loop succeeds, all boxes of the announced size have opened and their messages are written. -/
theorem fileRecvLoop2_inv (sized : nacl.Sized) {n : Nat} (nonced : Nonced w sid) (filled : Filled w n)
    (current : w.file.current = min n w.file.stat.size.toNat) {seqno total : UInt64}
    (ran : fileRecvLoop2 nacl state seqno total w = (.SocketOk, w')) :
    ∃ ms, openAll nacl state.key sid seqno (fragmentLengths total) w.incoming = some ms ∧
      boxesLength (fragmentLengths total) ≤ w.incoming.length ∧
      w'.incoming = w.incoming.drop (boxesLength (fragmentLengths total)) ∧
      w'.written = w.written ++ ms ∧ w'.file.stat = w.file.stat ∧ Filled w' (n + total.toNat) := by
  -- One box after another, following the recursion of the loop.
  fun_induction fileRecvLoop2 nacl state seqno total generalizing w n with
  | case1 seqno total short =>
    rw [fragmentLengths_short short]
    rw [fileRecvLoop2LtBlocksize] at ran
    by_cases empty : total = 0
    · rw [if_pos empty] at ran
      cases ran
      rw [if_pos empty, empty]
      exact ⟨[], rfl, Nat.zero_le _, rfl, by simp, rfl, filled⟩
    · rw [if_neg empty] at ran
      have fits : total.toNat ≤ blocksize.toNat := UInt64.le_iff_toNat_le.mp (UInt64.le_of_lt short)
      obtain ⟨ready, enough, m, opened, rfl⟩ := (fileRecvBox_ok nonced seqno fits).mp ran
      have size : m.length = total.toNat := by
        have length := sized.open_length _ _ _ _ opened
        rw [List.length_take, Nat.min_eq_left enough] at length
        omega
      rw [if_neg empty]
      refine ⟨[m], openAll_cons.mpr ⟨enough, opened, rfl⟩, ?_, ?_, ?_, ?_, ?_⟩
      · simpa [boxesLength] using enough
      · rw [accepted_incoming, boxesLength_cons]
        rfl
      · rw [accepted_written]
      · rw [accepted_stat]
      · rw [← size]
        exact filled.next current (by rw [size]; exact fits)
  | case2 seqno total full ih =>
    have bound : 262144 ≤ total.toNat := by simpa [UInt64.lt_iff_toNat_lt, blocksize_toNat] using full
    have less : (total - blocksize).toNat + blocksize.toNat = total.toNat := by
      rw [UInt64.toNat_sub_of_le _ _ (by rw [UInt64.le_iff_toNat_le, blocksize_toNat]; omega), blocksize_toNat]
      omega
    rw [fragmentLengths_full full]
    rw [Io.bind_run] at ran
    cases result : fileRecvBox nacl state seqno blocksize w with
    | mk r after =>
    rw [result] at ran
    cases r with
    | SocketError => cases ran
    | SocketOk =>
      obtain ⟨ready, enough, m, opened, rfl⟩ := (fileRecvBox_ok nonced seqno le_rfl).mp result
      have size : m.length = blocksize.toNat := by
        have length := sized.open_length _ _ _ _ opened
        rw [List.length_take, Nat.min_eq_left enough] at length
        omega
      have next : Filled (accepted w (nonceOf sid seqno) m blocksize) (n + m.length) :=
        filled.next current size.le
      rw [size] at next
      -- A full fragment moves the position as far as it is long.
      have position : (accepted w (nonceOf sid seqno) m blocksize).file.current =
          min (n + blocksize.toNat) (accepted w (nonceOf sid seqno) m blocksize).file.stat.size.toNat := by
        rw [accepted_current, accepted_stat, current]
        omega
      obtain ⟨ms, opens, within, rest, wrote, stat, done⟩ := ih (Nonced.of_nonceOf nonced.sid_length rfl) next
        position ran
      rw [accepted_incoming] at opens within rest
      rw [List.length_drop] at within
      refine ⟨m :: ms, openAll_cons.mpr ⟨enough, opened, opens⟩, ?_, ?_, ?_, stat.trans (accepted_stat ..), ?_⟩
      · rw [boxesLength_cons]
        omega
      · rw [rest, List.drop_drop, boxesLength_cons]
      · rw [wrote, accepted_written, List.append_assoc, List.singleton_append]
      · rw [← less, Nat.add_comm (total - blocksize).toNat, ← Nat.add_assoc]
        exact done

/-- Over a faithful connection the loop succeeds when all boxes of the announced size open. -/
theorem fileRecvLoop2_run (faithful : w.Faithful) (nonced : Nonced w sid) {seqno total : UInt64} {ms : List Bytes}
    (opens : openAll nacl state.key sid seqno (fragmentLengths total) w.incoming = some ms) :
    (fileRecvLoop2 nacl state seqno total w).1 = .SocketOk := by
  fun_induction fileRecvLoop2 nacl state seqno total generalizing w ms with
  | case1 seqno total short =>
    rw [fragmentLengths_short short] at opens
    rw [fileRecvLoop2LtBlocksize]
    by_cases empty : total = 0
    · rw [if_pos empty]
      rfl
    · rw [if_neg empty] at opens ⊢
      have fits : total.toNat ≤ blocksize.toNat := UInt64.le_iff_toNat_le.mp (UInt64.le_of_lt short)
      cases ms with
      | nil => simpa using openAll_length opens
      | cons m ms =>
        obtain ⟨enough, opened, -⟩ := openAll_cons.mp opens
        rw [(fileRecvBox_ok nonced seqno fits).mpr ⟨faithful.ready, enough, m, opened, rfl⟩]
  | case2 seqno total full ih =>
    rw [fragmentLengths_full full] at opens
    cases ms with
    | nil => simpa using openAll_length opens
    | cons m ms =>
      obtain ⟨enough, opened, more⟩ := openAll_cons.mp opens
      rw [Io.bind_step ((fileRecvBox_ok nonced seqno le_rfl).mpr ⟨faithful.ready, enough, m, opened, rfl⟩)]
      exact ih (fun n => faithful n) (Nonced.of_nonceOf nonced.sid_length rfl) more

end Boxes

section Connections

variable {nacl : NaCl} {state : ImmutState} {w w' : World}

/-- What a header says of its file. -/
def statOf (header : Bytes) : FileStat where
  name := (header.drop 24).take (load64Le (header.drop 16)).toNat
  mtime := load64Le (header.drop 8)
  size := load64Le header

/-- The size comes first in a header. -/
theorem statOf_size (header : Bytes) : (statOf header).size = load64Le header := rfl

/-- The header is small enough to be accepted. -/
def Acceptable (header : Bytes) : Prop := load64Le (header.drop 16) < 100 ∧ load64Le header < 4294967296

/-- The world after the header, with the file it describes. -/
def headed (w : World) (nonce header : Bytes) : World :=
  { w with
    clock := w.clock + 1 + 1
    incoming := w.incoming.drop 1040
    nonce := nonce
    boxes := w.boxes ++ [(nonce, w.incoming.take 1040)]
    file := { stat := statOf header
              buffer := List.replicate ((statOf header).size.toNat + blocksize.toNat) 0
              current := 0 }
    written := [] }

/-- The header is received exactly when it arrives, opens and is acceptable, and its file can be created. -/
theorem fileRecvHeader_ok (sid_length : state.sid.length = 16) : fileRecvHeader nacl state w = (.SocketOk, w') ↔
    w.ready = true ∧ w.tick.ready = true ∧ 1040 ≤ w.incoming.length ∧ ∃ header,
      nacl.boxOpenEasyAfternm (w.incoming.take 1040) (nonceOf state.sid 0) state.key = some header ∧
        Acceptable header ∧ w' = headed w (nonceOf state.sid 0) header := by
  have size : (cipherlen headersize).toNat = 1040 := by decide
  rw [fileRecvHeader, Io.bind_step (Io.modify_run _ w)]
  change (tcpReadAll (cipherlen headersize) >>= _) (w.renonced (List.replicate 24 0)) = _ ↔ _
  by_cases served : w.ready = true ∧ 1040 ≤ w.incoming.length
  · have read := tcpReadAll_some (w.renonced (List.replicate 24 0)) (cipherlen headersize) served.1
      (by rw [size]; exact served.2)
    rw [size] at read
    rw [Io.bind_step read]
    dsimp only
    rw [firstNonce_run sid_length List.length_replicate, Io.bind_run]
    simp only [cryptoBoxOpenEasyAfternm, World.renonced_nonce, World.renonced_incoming, served.1, served.2, true_and]
    cases opened : nacl.boxOpenEasyAfternm (w.incoming.take 1040) (nonceOf state.sid 0) state.key with
    | none =>
      constructor
      · intro ran
        cases ran
      · rintro ⟨-, header, none, -⟩
        cases none
    | some header =>
      simp only [Option.some.injEq, exists_eq_left']
      by_cases acceptable : Acceptable header
      · have fine : ¬ (load64Le (header.drop 16) ≥ 100 ∨ load64Le header ≥ 4294967296) := by
          rw [not_or, ge_iff_le, ge_iff_le, UInt64.not_le, UInt64.not_le]
          exact acceptable
        rw [if_neg fine, Io.bind_run]
        cases created : w.tick.ready with
        | false =>
          rw [fileOpenWriteSequential_fails _ _ (by exact created)]
          constructor
          · intro ran
            cases ran
          · rintro ⟨no, -⟩
            cases no
        | true =>
          rw [fileOpenWriteSequential_run _ _ (by exact created)]
          change (SResult.SocketOk, headed w (nonceOf state.sid 0) header) = (SResult.SocketOk, w') ↔ _
          rw [Prod.mk.injEq, eq_comm (a := w')]
          exact ⟨fun same => ⟨rfl, acceptable, same.2⟩, fun same => ⟨rfl, same.2.2⟩⟩
      · have refused : load64Le (header.drop 16) ≥ 100 ∨ load64Le header ≥ 4294967296 := by
          rw [Acceptable, not_and_or, UInt64.not_lt, UInt64.not_lt] at acceptable
          exact acceptable
        rw [if_pos refused]
        constructor
        · intro ran
          cases ran
        · rintro ⟨-, accepted, -⟩
          exact absurd accepted acceptable
  · have fails : (w.renonced (List.replicate 24 0)).ready = false ∨
        (w.renonced (List.replicate 24 0)).incoming.length < (cipherlen headersize).toNat := by
      rw [size]
      by_cases ready : w.ready = true
      · exact .inr (Nat.lt_of_not_le fun enough => served ⟨ready, enough⟩)
      · exact .inl (Bool.eq_false_of_not_eq_true ready)
    rw [Io.bind_step (tcpReadAll_none _ _ fails)]
    constructor
    · intro ran
      cases ran
    · rintro ⟨ready, -, enough, -⟩
      exact absurd ⟨ready, enough⟩ served

/-- When a transfer succeeds, its header and the boxes of the announced size have opened. -/
theorem fileRecvBody_inv (sized : nacl.Sized) (sid_length : state.sid.length = 16) {size : UInt64}
    (ran : fileRecvBody nacl state size w = (.SocketOk, w')) : ∃ header ms,
      1040 ≤ w.incoming.length ∧
      nacl.boxOpenEasyAfternm (w.incoming.take 1040) (nonceOf state.sid 0) state.key = some header ∧
      Acceptable header ∧
      openAll nacl state.key state.sid 1 (fragmentLengths size) (w.incoming.drop 1040) = some ms ∧
      boxesLength (fragmentLengths size) ≤ (w.incoming.drop 1040).length ∧
      w'.incoming = (w.incoming.drop 1040).drop (boxesLength (fragmentLengths size)) ∧
      w'.written = ms ∧ w'.file.stat = statOf header ∧ Filled w' size.toNat := by
  rw [fileRecvBody, Io.bind_run] at ran
  cases result : fileRecvHeader nacl state w with
  | mk r after =>
  rw [result] at ran
  cases r with
  | SocketError => cases ran
  | SocketOk =>
    obtain ⟨-, -, enough, header, opened, acceptable, rfl⟩ := (fileRecvHeader_ok sid_length).mp result
    have filled : Filled (headed w (nonceOf state.sid 0) header) 0 :=
      ⟨List.length_replicate, rfl, by rw [Nat.zero_min, List.take_zero, List.take_zero]⟩
    obtain ⟨ms, opens, within, rest, wrote, stat, done⟩ := fileRecvLoop2_inv sized
      (Nonced.of_nonceOf sid_length rfl) filled (Nat.zero_min _).symm ran
    rw [Nat.zero_add] at done
    exact ⟨header, ms, enough, opened, acceptable, opens, within, rest, wrote, stat, done⟩

/-- Over a faithful connection a transfer succeeds when its header and its boxes open. -/
theorem fileRecvBody_run (faithful : w.Faithful) (sid_length : state.sid.length = 16) {size : UInt64}
    {header : Bytes} {ms : List Bytes} (enough : 1040 ≤ w.incoming.length)
    (opened : nacl.boxOpenEasyAfternm (w.incoming.take 1040) (nonceOf state.sid 0) state.key = some header)
    (acceptable : Acceptable header)
    (opens : openAll nacl state.key state.sid 1 (fragmentLengths size) (w.incoming.drop 1040) = some ms) :
    (fileRecvBody nacl state size w).1 = .SocketOk := by
  have head := (fileRecvHeader_ok sid_length).mpr
    ⟨faithful.ready, faithful _, enough, header, opened, acceptable, rfl⟩
  rw [fileRecvBody, Io.bind_step head]
  exact fileRecvLoop2_run (by exact fun n => faithful n) (Nonced.of_nonceOf sid_length rfl) (by exact opens)

/-- Equal byte strings compare as equal. -/
theorem memcmp_self (b : Bytes) (len : Nat) : memcmp b b len = 0xff := by
  induction len with
  | zero => rfl
  | succ len ih => rw [memcmp, if_pos rfl, ih]

/-- A read from the connection, and what follows when it succeeds. -/
theorem readThen_inv {α : Type} {len : UInt64} {f : Bytes → Io (Option α)} {a : α}
    (ran : (do match ← tcpReadAll len with
               | some b => f b
               | none => return none : Io (Option α)) w = (some a, w')) :
    len.toNat ≤ w.incoming.length ∧ f (w.incoming.take len.toNat) (w.received len.toNat) = (some a, w') := by
  rw [Io.bind_run] at ran
  cases read : tcpReadAll len w with
  | mk bytes after =>
  rw [read] at ran
  cases bytes with
  | none => cases ran
  | some bytes =>
    obtain ⟨enough, rfl, rfl⟩ := tcpReadAll_inv _ read
    exact ⟨enough, ran⟩

/-- A field that arrives is read, and the rest arrives behind it. -/
theorem readField_run {α : Type} (w : World) (len : UInt64) (f : Bytes → Io (Option α)) {field rest : Bytes}
    (ready : w.ready = true) (size : field.length = len.toNat) (arrives : w.incoming = field ++ rest) :
    (do match ← tcpReadAll len with
        | some b => f b
        | none => return none : Io (Option α)) w = f field (w.received len.toNat) ∧
      (w.received len.toNat).incoming = rest := by
  have enough : len.toNat ≤ w.incoming.length := by
    rw [arrives, List.length_append]; omega
  have taken : w.incoming.take len.toNat = field := by rw [arrives, List.take_left' size]
  rw [Io.bind_step (tcpReadAll_some w len ready enough), taken, World.received_incoming, arrives,
    List.drop_left' size]
  exact ⟨rfl, rfl⟩

/-- What comes in the clear is the session id, the announced size and two keys. -/
theorem fileRecvHello_inv {state' : ImmutState} {hsize : UInt64}
    (ran : fileRecvHello state w = (some (state', hsize), w')) :
    16 ≤ w.incoming.length ∧ state'.sid = w.incoming.take 16 ∧ state'.key = state.key ∧
      hsize = load64Le (w.incoming.drop 16) ∧ w'.incoming = w.incoming.drop 88 := by
  obtain ⟨enough, ran⟩ := readThen_inv ran
  obtain ⟨-, ran⟩ := readThen_inv ran
  obtain ⟨-, ran⟩ := readThen_inv ran
  obtain ⟨-, ran⟩ := readThen_inv ran
  split at ran
  · split at ran
    · cases ran
      refine ⟨enough, rfl, rfl, ?_, ?_⟩
      · rw [load64Le, load64Le, World.received_incoming, List.take_take]
        rfl
      · simp only [World.received_incoming, List.drop_drop]
        rfl
    · cases ran
  · cases ran

/-- What the expected sender sends in the clear is accepted. -/
theorem fileRecvHello_run (faithful : w.Faithful) {sid hsbuf rest : Bytes} (sid_length : sid.length = 16)
    (hsbuf_length : hsbuf.length = 8) (pkA_length : state.pkA.length = 32) (pkB_length : state.pkB.length = 32)
    (arrives : w.incoming = sid ++ (hsbuf ++ (state.pkA ++ (state.pkB ++ rest)))) :
    ∃ w', fileRecvHello state w = (some ({ state with sid, hsbuf }, load64Le hsbuf), w') ∧
      w'.incoming = rest ∧ w'.succeeds = w.succeeds := by
  -- The four fields are read one after another.
  obtain ⟨read1, after1⟩ := readField_run w 16 _ faithful.ready sid_length arrives
  obtain ⟨read2, after2⟩ := readField_run (w.received 16) 8 _ (faithful _) hsbuf_length after1
  obtain ⟨read3, after3⟩ := readField_run ((w.received 16).received 8) 32 _ (faithful _) pkA_length after2
  obtain ⟨read4, after4⟩ := readField_run (((w.received 16).received 8).received 32) 32 _ (faithful _)
    pkB_length after3
  refine ⟨_, ?_, after4, rfl⟩
  refine read1.trans (read2.trans (read3.trans (read4.trans ?_)))
  rw [memcmp_self, memcmp_self]
  rfl

end Connections

end HaclStar.Tube
