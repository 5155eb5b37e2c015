import HaclStar.Correctness.Tube

/-! The nonces of a transfer: pairwise distinct on the sending side, and the same ones on the receiving side. -/

namespace HaclStar.Correctness.TubeNonces

open Endianness Memory HaclStar.Tube

/-- The nonces of a session with the sequence numbers from `start` on. -/
def seqNonces (sid : Bytes) (start n : Nat) : List Bytes :=
  (List.range' start n).map fun k => nonceOf sid (UInt64.ofNat k)

section Nonces

variable (sid : Bytes)

@[simp] theorem seqNonces_length (start n : Nat) : (seqNonces sid start n).length = n := by
  simp [seqNonces]

/-- The nonce at a position carries that sequence number. -/
theorem seqNonces_getElem? (n k : Nat) :
    (seqNonces sid 0 n)[k]? = if k < n then some (nonceOf sid (UInt64.ofNat k)) else none := by
  rw [seqNonces, List.getElem?_map]
  by_cases inside : k < n
  · simp [inside]
  · simp [inside]

/-- The first nonce, and the ones behind it. -/
theorem seqNonces_succ (start n : Nat) :
    seqNonces sid start (n + 1) = nonceOf sid (UInt64.ofNat start) :: seqNonces sid (start + 1) n := by
  rw [seqNonces, List.range'_succ, List.map_cons, ← seqNonces]

/-- The first nonces of a session. -/
theorem seqNonces_take (start n k : Nat) : (seqNonces sid start n).take k = seqNonces sid start (min k n) := by
  induction n generalizing start k with
  | zero => simp [seqNonces]
  | succ n ih =>
    cases k with
    | zero => simp [seqNonces]
    | succ k =>
      rw [seqNonces_succ, List.take_succ_cons, ih, ← seqNonces_succ]
      congr 1
      omega

/-- Sequence numbers that fit in 64 bits make distinct nonces. -/
theorem seqNonces_nodup {n : Nat} (fits : n ≤ 2 ^ 64) : (seqNonces sid 0 n).Nodup := by
  -- Two equal nonces carry equal numbers, both of them below 2^64.
  refine List.Nodup.map_on ?_ List.nodup_range'
  intro j insideJ k insideK same
  rw [List.mem_range'_1] at insideJ insideK
  have numbers := congrArg UInt64.toNat (nonceOf_injective rfl same).2
  rw [UInt64.toNat_ofNat', UInt64.toNat_ofNat'] at numbers
  omega

/-- The nonces of numbered messages count up. -/
theorem numbered_nonces (start : Nat) (ms : List Bytes) :
    (numbered sid (UInt64.ofNat start) ms).map Prod.fst = seqNonces sid start ms.length := by
  induction ms generalizing start with
  | nil => rfl
  | cons m ms ih =>
    have next : UInt64.ofNat start + 1 = UInt64.ofNat (start + 1) := by
      rw [UInt64.ofNat_add]
      rfl
    rw [numbered, List.map_cons, next, ih, List.length_cons, seqNonces_succ]

end Nonces

section Sender

variable {nacl : NaCl} {w : World} {sid name content skA pkB : Bytes} {mtime roundup : UInt64}

/-- A file has few fragments. -/
theorem plan_length (name content : Bytes) (mtime roundup : UInt64) :
    (plan name content mtime roundup).length ≤ 2 ^ 64 := by
  have count := Tube.fragmentLengths_length (carried (UInt64.ofNat content.length) roundup)
  have bound := (carried (UInt64.ofNat content.length) roundup).toNat_lt
  rw [plan, List.length_cons, fragmentsFrom_length, count]
  split <;> omega

/-- The boxes of a sender are sealed under the nonces of its session, counted from zero. -/
theorem fileSend_nonces (small : ∀ content mtime, w.disk name = some (content, mtime) → content.length < 2 ^ 64)
    (sid_length : sid.length = 16) : ∃ n ≤ 2 ^ 64,
      (fileSend nacl sid name roundup skA pkB w).2.boxes.map Prod.fst =
        w.boxes.map Prod.fst ++ seqNonces sid 0 n := by
  cases found : w.disk name with
  | none =>
    -- Nothing is boxed when there is no file.
    refine ⟨0, Nat.zero_le _, ?_⟩
    rw [fileSend_missing (.inl found)]
    simp [seqNonces]
  | some file =>
    obtain ⟨content, mtime⟩ := file
    obtain ⟨k, made⟩ := @fileSend_boxes nacl w sid name content skA pkB mtime roundup found (small _ _ found)
      sid_length
    have few := plan_length name content mtime roundup
    refine ⟨min k (plan name content mtime roundup).length, by omega, ?_⟩
    have counted := numbered_nonces sid 0 (plan name content mtime roundup)
    rw [made, List.map_append, List.map_take, show (0 : UInt64) = UInt64.ofNat 0 from rfl, counted, seqNonces_take]

end Sender

section Receiver

variable {nacl : NaCl} {state : ImmutState} {w : World} {sid : Bytes}

/-- Reading from the connection makes no box and leaves the nonce alone. -/
theorem tcpReadAll_keeps (len : UInt64) (w : World) :
    (tcpReadAll len w).2.boxes = w.boxes ∧ (tcpReadAll len w).2.nonce = w.nonce := by
  by_cases served : w.ready = true ∧ len.toNat ≤ w.incoming.length
  · rw [tcpReadAll_some w len served.1 served.2]
    exact ⟨rfl, rfl⟩
  · have fails : w.ready = false ∨ w.incoming.length < len.toNat := by grind
    rw [tcpReadAll_none w len fails]
    exact ⟨rfl, rfl⟩

/-- Receiving a box opens at most one box, under the nonce of the sequence number it was given. -/
theorem fileRecvBox_nonces (nonced : Nonced w sid) (seqno len : UInt64) :
    ((fileRecvBox nacl state seqno len w).1 = .SocketError ∧
        (fileRecvBox nacl state seqno len w).2.boxes = w.boxes) ∨
      ((fileRecvBox nacl state seqno len w).2.boxes.map Prod.fst = w.boxes.map Prod.fst ++ [nonceOf sid seqno] ∧
        (fileRecvBox nacl state seqno len w).2.nonce = nonceOf sid seqno) := by
  obtain ⟨boxes, nonce⟩ := tcpReadAll_keeps (cipherlen len) w
  rw [fileRecvBox, Io.bind_run]
  cases read : tcpReadAll (cipherlen len) w with
  | mk bytes after =>
  rw [read] at boxes nonce
  change after.boxes = w.boxes at boxes
  change after.nonce = w.nonce at nonce
  cases bytes with
  | none => exact .inl ⟨rfl, boxes⟩
  | some ciphertext =>
    -- The window is taken before the nonce is completed, and the box is opened under that nonce.
    right
    have later : Nonced (after.moved (min (after.file.current + blocksize.toNat) after.file.stat.size.toNat)) sid :=
      ⟨nonced.sid_length, by rw [World.moved_nonce, nonce, nonced.length],
        by rw [World.moved_nonce, nonce, nonced.starts]⟩
    dsimp only
    rw [fileNextWriteBuffer, Io.bind_step (nextWindow_run _ blocksize), Io.bind_step (storeSeqno_run later seqno),
      Io.bind_run]
    simp only [cryptoBoxOpenEasyAfternm, World.renonced_nonce]
    cases nacl.boxOpenEasyAfternm ciphertext (nonceOf sid seqno) state.key with
    | none =>
      refine ⟨?_, rfl⟩
      change List.map Prod.fst (World.boxed _ ciphertext).boxes = _
      rw [World.boxed_boxes, World.renonced_boxes, World.moved_boxes, World.renonced_nonce, boxes, List.map_append]
      rfl
    | some m =>
      refine ⟨?_, rfl⟩
      change List.map Prod.fst (World.filled (World.boxed _ ciphertext) m _).boxes = _
      rw [World.filled_boxes, World.boxed_boxes, World.renonced_boxes, World.moved_boxes, World.renonced_nonce,
        boxes, List.map_append]
      rfl

/-- The loop opens its boxes under consecutive nonces. -/
theorem fileRecvLoop2_nonces (nonced : Nonced w sid) (start : Nat) (total : UInt64) :
    ∃ n, (fileRecvLoop2 nacl state (UInt64.ofNat start) total w).2.boxes.map Prod.fst =
      w.boxes.map Prod.fst ++ seqNonces sid start n := by
  generalize counted : UInt64.ofNat start = seqno
  -- One box after another, following the recursion of the loop.
  fun_induction fileRecvLoop2 nacl state seqno total generalizing w start with
  | case1 seqno total short =>
    rw [fileRecvLoop2LtBlocksize]
    by_cases empty : total = 0
    · rw [if_pos empty]
      exact ⟨0, by simp [seqNonces]⟩
    · rw [if_neg empty]
      rcases @fileRecvBox_nonces nacl state w sid nonced seqno total with ⟨-, same⟩ | ⟨more, -⟩
      · exact ⟨0, by rw [same]; simp [seqNonces]⟩
      · exact ⟨1, by rw [more, ← counted]; rfl⟩
  | case2 seqno total full ih =>
    have next : UInt64.ofNat (start + 1) = seqno + 1 := by
      rw [UInt64.ofNat_add, counted]
      rfl
    rw [Io.bind_run]
    have box := @fileRecvBox_nonces nacl state w sid nonced seqno blocksize
    cases result : fileRecvBox nacl state seqno blocksize w with
    | mk r after =>
    rw [result] at box
    cases r with
    | SocketError =>
      rcases box with ⟨-, same⟩ | ⟨more, -⟩
      · change after.boxes = w.boxes at same
        exact ⟨0, by simp [seqNonces, same]⟩
      · exact ⟨1, by rw [← counted] at more; exact more⟩
    | SocketOk =>
      rcases box with ⟨failed, -⟩ | ⟨more, nonce⟩
      · cases failed
      · obtain ⟨n, rest⟩ := ih (Nonced.of_nonceOf nonced.sid_length nonce) (start + 1) next
        refine ⟨n + 1, ?_⟩
        rw [seqNonces_succ, counted, ← List.singleton_append, ← List.append_assoc, ← more]
        exact rest

/-- Creating a file makes no box and leaves the nonce alone. -/
theorem fileOpenWriteSequential_keeps (stat : FileStat) (w : World) :
    (fileOpenWriteSequential stat w).2.boxes = w.boxes ∧ (fileOpenWriteSequential stat w).2.nonce = w.nonce := by
  cases ready : w.ready with
  | false => rw [fileOpenWriteSequential_fails _ _ ready]; exact ⟨rfl, rfl⟩
  | true => rw [fileOpenWriteSequential_run _ _ ready]; exact ⟨rfl, rfl⟩

/-- The header is opened under the first nonce, if it arrives. -/
theorem fileRecvHeader_nonces (sid_length : state.sid.length = 16) (w : World) :
    ((fileRecvHeader nacl state w).1 = .SocketError ∧ (fileRecvHeader nacl state w).2.boxes = w.boxes) ∨
      ((fileRecvHeader nacl state w).2.boxes.map Prod.fst = w.boxes.map Prod.fst ++ [nonceOf state.sid 0] ∧
        (fileRecvHeader nacl state w).2.nonce = nonceOf state.sid 0) := by
  obtain ⟨boxes, nonce⟩ := tcpReadAll_keeps (cipherlen headersize) (w.renonced (List.replicate 24 0))
  rw [fileRecvHeader, Io.bind_step (Io.modify_run _ w)]
  change ((tcpReadAll (cipherlen headersize) >>= _) (w.renonced (List.replicate 24 0))).1 = _ ∧
    ((tcpReadAll (cipherlen headersize) >>= _) (w.renonced (List.replicate 24 0))).2.boxes = _ ∨
    List.map Prod.fst ((tcpReadAll (cipherlen headersize) >>= _) (w.renonced (List.replicate 24 0))).2.boxes = _ ∧
    ((tcpReadAll (cipherlen headersize) >>= _) (w.renonced (List.replicate 24 0))).2.nonce = _
  rw [Io.bind_run]
  cases read : tcpReadAll (cipherlen headersize) (w.renonced (List.replicate 24 0)) with
  | mk bytes after =>
  rw [read] at boxes nonce
  change after.boxes = w.boxes at boxes
  change after.nonce = List.replicate 24 0 at nonce
  cases bytes with
  | none => exact .inl ⟨rfl, boxes⟩
  | some ciphertext =>
    right
    dsimp only
    rw [firstNonce_run sid_length (by rw [nonce, List.length_replicate]), Io.bind_run]
    simp only [cryptoBoxOpenEasyAfternm, World.renonced_nonce]
    cases nacl.boxOpenEasyAfternm ciphertext (nonceOf state.sid 0) state.key with
    | none => exact ⟨by simp [boxes], rfl⟩
    | some header =>
      -- Whatever the header says, nothing more is opened here.
      dsimp only
      split
      · exact ⟨by simp [boxes], rfl⟩
      · obtain ⟨kept, nonceKept⟩ := fileOpenWriteSequential_keeps
          { name := (header.drop 24).take (load64Le (header.drop 16)).toNat, mtime := load64Le (header.drop 8),
            size := load64Le header } ((after.renonced (nonceOf state.sid 0)).boxed ciphertext)
        rw [Io.bind_run]
        generalize fileOpenWriteSequential _ _ = created at kept nonceKept ⊢
        obtain ⟨r, w'⟩ := created
        change w'.boxes = _ at kept
        cases r with
        | FileOk => exact ⟨by simp [kept, boxes], nonceKept⟩
        | FileError => exact ⟨by simp [kept, boxes], nonceKept⟩

/-- Closing the file and the connection opens no box. -/
theorem fileRecvEnc_boxes (size : UInt64) (w : World) :
    (fileRecvEnc nacl state size w).2.boxes = (fileRecvBody nacl state size w).2.boxes := by
  rw [fileRecvEnc, Io.bind_run]
  cases fileRecvBody nacl state size w with
  | mk r after =>
  cases r with
  | SocketError => rfl
  | SocketOk =>
    dsimp only
    rw [fileClose, Io.bind_run]
    simp only [attempt]
    cases after.ready with
    | false =>
      dsimp only
      rw [tcpClose, socketStep_run]
      rfl
    | true => rfl

/-- Whatever size is announced, the receiver opens its boxes under the nonces of its session, counted from zero. -/
theorem fileRecvEnc_nonces (sid_length : state.sid.length = 16) (size : UInt64) (w : World) :
    ∃ n, (fileRecvEnc nacl state size w).2.boxes.map Prod.fst = w.boxes.map Prod.fst ++ seqNonces state.sid 0 n := by
  rw [fileRecvEnc_boxes, fileRecvBody, Io.bind_run]
  have head := @fileRecvHeader_nonces nacl state sid_length w
  cases result : fileRecvHeader nacl state w with
  | mk r after =>
  rw [result] at head
  cases r with
  | SocketError =>
    rcases head with ⟨-, same⟩ | ⟨more, -⟩
    · change after.boxes = w.boxes at same
      exact ⟨0, by simp [seqNonces, same]⟩
    · exact ⟨1, more⟩
  | SocketOk =>
    rcases head with ⟨failed, -⟩ | ⟨more, nonce⟩
    · cases failed
    · obtain ⟨n, rest⟩ := @fileRecvLoop2_nonces nacl state after state.sid (Nonced.of_nonceOf sid_length nonce) 1 size
      refine ⟨n + 1, ?_⟩
      rw [seqNonces_succ, ← List.singleton_append, ← List.append_assoc]
      exact rest.trans (congrArg (· ++ seqNonces state.sid 1 n) more)

end Receiver

/-- The nonces under which the boxes of a computation that starts without boxes are sealed or opened. -/
def noncesOf {α : Type} (x : Io α) (w : World) : List Bytes := (x { w with boxes := [] }).2.boxes.map Prod.fst

/--
However far a sender gets, its boxes have pairwise distinct nonces, made of the session id and a sequence number.

A receiver in the same session opens its boxes under the same nonces, one by one, whatever size was announced to it.
-/
theorem tube_nonces (nacl : NaCl) (name : Bytes) (roundup : UInt64) (skA pkB : Bytes) (w : World)
    (small : ∀ content mtime, w.disk name = some (content, mtime) → content.length < 2 ^ 64)
    {sid : Bytes} (sid_length : sid.length = 16) :
    (noncesOf (fileSend nacl sid name roundup skA pkB) w).Nodup ∧
    (∀ nonce ∈ noncesOf (fileSend nacl sid name roundup skA pkB) w,
      nonce.length = 24 ∧ ∃ seqno, nonce = sid ++ store64Le seqno) ∧
    ∀ (nacl' : NaCl) (state : ImmutState) (size : UInt64) (r : World), state.sid = sid →
      ∀ (k : Nat) (sealedUnder openedUnder : Bytes),
        (noncesOf (fileSend nacl sid name roundup skA pkB) w)[k]? = some sealedUnder →
        (noncesOf (fileRecvEnc nacl' state size) r)[k]? = some openedUnder → openedUnder = sealedUnder := by
  obtain ⟨n, fits, made⟩ := @fileSend_nonces nacl { w with boxes := [] } sid name skA pkB roundup small sid_length
  have sent : noncesOf (fileSend nacl sid name roundup skA pkB) w = seqNonces sid 0 n := made
  rw [sent]
  refine ⟨seqNonces_nodup sid fits, ?_, ?_⟩
  · intro nonce member
    obtain ⟨k, -, rfl⟩ := List.mem_map.mp member
    exact ⟨by simp [nonceOf, sid_length], UInt64.ofNat k, rfl⟩
  · intro nacl' state size r same k sealedUnder openedUnder sealAt openAt
    subst same
    obtain ⟨m, opened⟩ := @fileRecvEnc_nonces nacl' state sid_length size { r with boxes := [] }
    have received : noncesOf (fileRecvEnc nacl' state size) r = seqNonces state.sid 0 m := opened
    -- Both sides count from zero, so the position is the sequence number.
    rw [received, seqNonces_getElem?] at openAt
    rw [seqNonces_getElem?] at sealAt
    split at sealAt
    · split at openAt
      · rw [← Option.some.inj sealAt, ← Option.some.inj openAt]
      · cases openAt
    · cases sealAt

theorem tube_nonces_byte :
    (noncesOf (fileSend Tube.secretboxes (List.replicate 16 7) [0x66] 0 [] []) Tube.oneByte).Nodup :=
  (tube_nonces Tube.secretboxes [0x66] 0 [] [] Tube.oneByte
    (by
      intro content mtime found
      have one : (([0x61] : Bytes), (1 : UInt64)) = (content, mtime) := Option.some.inj found
      obtain ⟨rfl, rfl⟩ := Prod.mk.inj one
      decide)
    (List.length_replicate : (List.replicate 16 (7 : UInt8)).length = 16)).1

end HaclStar.Correctness.TubeNonces
