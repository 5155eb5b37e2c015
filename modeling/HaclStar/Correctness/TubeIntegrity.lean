import HaclStar.Correctness.Tube

/-! What a PneuTube receiver accepts from a network that may alter, drop, replay and reorder everything. -/

namespace HaclStar.Correctness.Tube

open Endianness Memory HaclStar.Tube

/-- One file that the honest sender sent, or tried to send. -/
structure Session where
  sid : Bytes
  name : Bytes
  content : Bytes
  mtime : UInt64
  roundup : UInt64
  /-- The sender before the transfer. -/
  before : World
  sid_length : sid.length = 16
  short : name.length < 100
  small : content.length < 2 ^ 32
  found : before.disk name = some (content, mtime)

namespace Session

variable (s : Session)

/-- The size of the file. -/
def size : UInt64 := UInt64.ofNat s.content.length

/-- How many bytes the fragments of the file carry. -/
def total : UInt64 := carried s.size s.roundup

/-- All the fragments of the file. -/
def fragments : List Bytes := fragmentsFrom s.content 0 (fragmentLengths s.total)

/-- What the header says of the file. -/
def stat : FileStat := ⟨s.name, s.mtime, s.size⟩

/-- What the sender put into boxes, under which nonces. -/
def boxes (nacl : NaCl) (skA pkB : Bytes) : List (Bytes × Bytes) :=
  (fileSend nacl s.sid s.name s.roundup skA pkB { s.before with boxes := [] }).2.boxes

end Session

/-- Boxes open only when the honest sender made them, under the same key and nonce. -/
def Unforgeable (nacl : NaCl) (skA pkB : Bytes) (sessions : List Session) : Prop :=
  ∀ c n m, nacl.boxOpenEasyAfternm c n (nacl.boxBeforenm pkB skA) = some m →
    ∃ s ∈ sessions, (n, m) ∈ s.boxes nacl skA pkB ∧ c = nacl.boxEasyAfternm m n (nacl.boxBeforenm pkB skA)

/-- Distinct sessions have distinct ids. -/
def DistinctIds (sessions : List Session) : Prop := ∀ s ∈ sessions, ∀ t ∈ sessions, s.sid = t.sid → s = t

/-- What was written is all of the session that the stream names, so the file is the one that was sent. -/
structure Intact (s : Session) (stream : Bytes) (w : World) : Prop where
  named : s.sid = stream.take 16
  fragments : w.written = s.fragments
  stat : w.file.stat = s.stat
  content : w.written.flatten.take s.content.length = s.content
  buffer : w.file.buffer.take s.content.length = s.content

/-- The stream announces as much as the session that it names carries, which is all of the file. -/
structure Whole (s : Session) (stream : Bytes) : Prop where
  named : s.sid = stream.take 16
  announced : load64Le (stream.drop 16) = s.total
  enough : s.content.length ≤ s.total.toNat

/-- A connection is accepted, and the given bytes arrive on it. -/
def accepting (w : World) (connection : Bytes) : World := { w.tick with incoming := connection }

/-- The successful transfers in a run of the receiver: what arrived, and the world when the file is complete. -/
def transfers (nacl : NaCl) (state : ImmutState) : List Bytes → World → List (Bytes × World)
  | [], _ => []
  | connection :: connections, w =>
    let done := fileRecvTransfer nacl state (accepting w connection)
    let served := fileRecvConnection nacl state connection w
    (if w.ready ∧ done.1 = .SocketOk then [(connection, done.2)] else []) ++
      if served.1 = .SocketOk then transfers nacl state connections served.2 else []

section Serving

variable {nacl : NaCl} {state : ImmutState} {w : World}

/-- A connection is served by its transfer, after which the file and the connection are closed. -/
theorem fileRecvConnection_eq (connection : Bytes) (w : World) : fileRecvConnection nacl state connection w =
    if w.ready then
      (do
        match ← fileRecvTransfer nacl state with
        | .SocketOk =>
          match ← fileClose with
          | false => tcpClose
          | true => return .SocketError
        | .SocketError => return .SocketError : Io SResult) (accepting w connection)
    else (.SocketError, w.tick) := by
  have accept : tcpAccept connection w = (sresult w.ready, if w.ready then accepting w connection else w.tick) := by
    cases ready : w.ready <;> simp [tcpAccept, Io.bind_run, attempt, ready, sresult, accepting]
  rw [fileRecvConnection, Io.bind_step accept]
  cases ready : w.ready with
  | false => rfl
  | true =>
    simp only [sresult, if_true]
    rw [Io.bind_run, fileRecvTransfer, bind_assoc, Io.bind_run]
    cases (fileRecvHello state (accepting w connection)).1 with
    | none => rfl
    | some hello => rfl

/-- When no bytes are announced, a header alone is a successful transfer. -/
theorem transfer_headerOnly (sized : nacl.Sized) (faithful : w.Faithful) {sid header box : Bytes}
    (sid_length : sid.length = 16) (pkA_length : state.pkA.length = 32) (pkB_length : state.pkB.length = 32)
    (box_length : box.length = 1040)
    (arrives : w.incoming = sid ++ (store64Le 0 ++ (state.pkA ++ (state.pkB ++ box))))
    (opened : nacl.boxOpenEasyAfternm box (nonceOf sid 0) state.key = some header) (acceptable : Acceptable header) :
    ∃ w', fileRecvTransfer nacl state w = (.SocketOk, w') ∧ w'.written = [] := by
  obtain ⟨w1, hello, rest, same⟩ := fileRecvHello_run faithful sid_length (store64Le_length 0) pkA_length pkB_length
    arrives
  have announced : load64Le (store64Le 0) = 0 := by decide
  rw [announced] at hello
  have whole : w1.incoming.take 1040 = box := by rw [rest, List.take_of_length_le box_length.le]
  have accepted := @fileRecvBody_run nacl { state with sid, hsbuf := store64Le 0 } w1
    (fun n => by rw [same]; exact faithful n) sid_length 0 header [] (by rw [rest, box_length])
    (by rw [whole]; exact opened) acceptable rfl
  cases ran : fileRecvBody nacl { state with sid, hsbuf := store64Le 0 } 0 w1 with
  | mk r w' =>
  rw [ran] at accepted
  change r = .SocketOk at accepted
  subst accepted
  refine ⟨w', ?_, ?_⟩
  · rw [fileRecvTransfer, Io.bind_step hello]
    exact ran
  · obtain ⟨-, ms, -, -, -, opens, -, -, wrote, -, -⟩ := fileRecvBody_inv sized (by exact sid_length) ran
    cases opens
    exact wrote

end Serving

section Opening

variable {nacl : NaCl} {key sid : Bytes}

/-- Each message that was opened was opened under its own nonce. -/
theorem openAll_getElem? {seqno : UInt64} {lens : List UInt64} {bytes : Bytes} {ms : List Bytes}
    (opens : openAll nacl key sid seqno lens bytes = some ms) {i : Nat} {m : Bytes} (at_i : ms[i]? = some m) :
    ∃ c, nacl.boxOpenEasyAfternm c (nonceOf sid (seqno + UInt64.ofNat i)) key = some m := by
  induction lens generalizing seqno bytes ms i with
  | nil =>
    cases opens
    simp at at_i
  | cons len lens ih =>
    cases ms with
    | nil => simp at at_i
    | cons first ms =>
      obtain ⟨-, opened, more⟩ := openAll_cons.mp opens
      cases i with
      | zero =>
        rw [List.getElem?_cons_zero, Option.some.injEq] at at_i
        subst at_i
        refine ⟨bytes.take (len.toNat + 16), ?_⟩
        rw [show seqno + UInt64.ofNat 0 = seqno from UInt64.add_zero seqno]
        exact opened
      | succ i =>
        rw [List.getElem?_cons_succ] at at_i
        obtain ⟨c, opened⟩ := ih more at_i
        have next : seqno + UInt64.ofNat (i + 1) = seqno + 1 + UInt64.ofNat i := by
          rw [UInt64.ofNat_add, UInt64.add_assoc, UInt64.add_comm 1]
          rfl
        exact ⟨c, by rw [next]; exact opened⟩

end Opening

section Sessions

variable {nacl : NaCl} {skA pkB : Bytes} {sessions : List Session} {s t : Session}

/-- A session boxes its header and its fragments, each under its own sequence number. -/
theorem Session.mem_boxes {n m : Bytes} (member : (n, m) ∈ s.boxes nacl skA pkB) :
    ∃ i, (plan s.name s.content s.mtime s.roundup)[i]? = some m ∧ n = nonceOf s.sid (UInt64.ofNat i) := by
  have small : s.content.length < 2 ^ 64 := s.small.trans (by decide)
  obtain ⟨k, made⟩ := @fileSend_boxes nacl { s.before with boxes := [] } s.sid s.name s.content skA pkB s.mtime
    s.roundup s.found small s.sid_length
  rw [Session.boxes, made, List.nil_append] at member
  obtain ⟨i, at_i⟩ := List.getElem?_of_mem (List.mem_of_mem_take member)
  rw [numbered_getElem?, UInt64.zero_add, Option.map_eq_some_iff] at at_i
  obtain ⟨m', planned, same⟩ := at_i
  obtain ⟨rfl, rfl⟩ := Prod.mk.inj same
  exact ⟨i, planned, rfl⟩

/-- Over a faithful connection a session that is not too large boxes all of its plan. -/
theorem Session.boxes_run (s : Session) (sized : nacl.Sized) (sends : s.before.Faithful)
    (few : fragmentCount s.size s.roundup < 4294967295) :
    s.boxes nacl skA pkB = numbered s.sid 0 (plan s.name s.content s.mtime s.roundup) := by
  have faithful : ({ s.before with boxes := [] } : World).Faithful := sends
  obtain ⟨-, -, made⟩ := @fileSend_run nacl { s.before with boxes := [] } s.sid s.name s.content skA pkB s.mtime
    s.roundup sized s.found s.small s.short s.sid_length faithful few
  rw [Session.boxes, made, List.nil_append]

/-- A plan has fewer messages than there are sequence numbers. -/
theorem plan_length (name content : Bytes) (mtime roundup : UInt64) :
    (plan name content mtime roundup).length < 2 ^ 63 := by
  rw [plan, List.length_cons, fragmentsFrom_length, fragmentLengths_length]
  have bound := (carried (UInt64.ofNat content.length) roundup).toNat_lt
  split <;> omega

/-- What opens under the nonce of a session is what the session planned for that sequence number. -/
theorem opened_planned (unforgeable : Unforgeable nacl skA pkB sessions) {c m sid : Bytes} {i : Nat}
    (sid_length : sid.length = 16) (bound : i < 2 ^ 63)
    (opened : nacl.boxOpenEasyAfternm c (nonceOf sid (UInt64.ofNat i)) (nacl.boxBeforenm pkB skA) = some m) :
    ∃ s ∈ sessions, s.sid = sid ∧ (plan s.name s.content s.mtime s.roundup)[i]? = some m := by
  obtain ⟨s, member, boxed, -⟩ := unforgeable _ _ _ opened
  obtain ⟨j, planned, nonce⟩ := s.mem_boxes boxed
  obtain ⟨same, number⟩ := nonceOf_injective (sid_length.trans s.sid_length.symm) nonce
  -- Sequence numbers below the limit are told apart.
  have inside : j < 2 ^ 63 := by
    have below := (List.getElem?_eq_some_iff.mp planned).1
    exact below.trans (plan_length ..)
  have index : i = j := by
    have values := congrArg UInt64.toNat number
    rw [UInt64.toNat_ofNat', UInt64.toNat_ofNat', Nat.mod_eq_of_lt (by omega), Nat.mod_eq_of_lt (by omega)] at values
    exact values
  exact ⟨s, member, same.symm, index ▸ planned⟩

/-- What is written in a transfer are the first fragments of the session that the stream names. -/
theorem transfer_prefix (sized : nacl.Sized) (unforgeable : Unforgeable nacl skA pkB sessions)
    (distinct : DistinctIds sessions) {state : ImmutState} (key : state.key = nacl.boxBeforenm pkB skA)
    {w w' : World} (ran : fileRecvTransfer nacl state w = (.SocketOk, w')) :
    ∃ s ∈ sessions, s.sid = w.incoming.take 16 ∧ w'.file.stat = s.stat ∧
      w'.written = s.fragments.take w'.written.length ∧
      w'.written.length = (fragmentLengths (load64Le (w.incoming.drop 16))).length ∧
      Filled w' (load64Le (w.incoming.drop 16)).toNat := by
  rw [fileRecvTransfer, Io.bind_run] at ran
  cases hello : fileRecvHello state w with
  | mk result w1 =>
  rw [hello] at ran
  cases result with
  | none => cases ran
  | some result =>
  obtain ⟨state', hsize⟩ := result
  obtain ⟨enough, named, sameKey, announced, -⟩ := fileRecvHello_inv hello
  have sid_length : state'.sid.length = 16 := by
    rw [named, List.length_take]
    omega
  obtain ⟨header, ms, -, opened, -, opens, -, -, wrote, stat, filled⟩ := fileRecvBody_inv sized sid_length ran
  rw [sameKey, key] at opened opens
  -- The header is the first box of a session, which the stream names.
  obtain ⟨s, member, same, planned⟩ := opened_planned unforgeable (i := 0) sid_length (by decide) opened
  have headerOf_session : header = headerOf s.size s.mtime s.name := by
    rw [plan, List.getElem?_cons_zero, Option.some.injEq] at planned
    exact planned.symm
  refine ⟨s, member, same.trans named, ?_, ?_, ?_, ?_⟩
  · rw [stat, headerOf_session]
    exact (statOf_headerOf s.short).1
  · rw [wrote]
    apply List.ext_getElem?
    intro i
    rcases Nat.lt_or_ge i ms.length with inside | beyond
    · obtain ⟨c, opened'⟩ := openAll_getElem? opens (List.getElem?_eq_getElem inside)
      have bound : i + 1 < 2 ^ 63 := by
        have count := openAll_length opens
        rw [fragmentLengths_length] at count
        have limit := hsize.toNat_lt
        split at count <;> omega
      have next : 1 + UInt64.ofNat i = UInt64.ofNat (i + 1) := by
        rw [UInt64.ofNat_add, UInt64.add_comm]
        rfl
      rw [next] at opened'
      -- Each message is the fragment of its number, in the same session.
      obtain ⟨t, member', same', planned'⟩ := opened_planned unforgeable sid_length bound opened'
      obtain rfl := distinct t member' s member (same'.trans same.symm)
      rw [plan, List.getElem?_cons_succ] at planned'
      rw [List.getElem?_eq_getElem inside, List.getElem?_take_of_lt inside]
      exact planned'.symm
    · rw [List.getElem?_eq_none beyond, List.getElem?_eq_none (by rw [List.length_take]; omega)]
  · rw [wrote, openAll_length opens, announced]
  · rw [← announced]
    exact filled

/-- The fragments of a session carry its total. -/
theorem Session.fragments_flatten (s : Session) : s.fragments.flatten = padded s.content 0 s.total.toNat := by
  rw [Session.fragments, fragmentsFrom_flatten, fragmentLengths_total]

/-- There are as many fragments as the total needs. -/
theorem Session.fragments_length (s : Session) : s.fragments.length = (fragmentLengths s.total).length := by
  rw [Session.fragments, fragmentsFrom_length]

/-- A successful transfer is intact exactly when the stream announces the whole session. -/
theorem transfer_intact (sized : nacl.Sized) (unforgeable : Unforgeable nacl skA pkB sessions)
    (distinct : DistinctIds sessions) {state : ImmutState} (key : state.key = nacl.boxBeforenm pkB skA)
    {w w' : World} (ran : fileRecvTransfer nacl state w = (.SocketOk, w')) :
    (∃ s ∈ sessions, Intact s w.incoming w') ↔ ∃ s ∈ sessions, Whole s w.incoming := by
  obtain ⟨s, member, named, stat, written, count, filled⟩ := transfer_prefix sized unforgeable distinct key ran
  have size : w'.file.stat.size.toNat = s.content.length := by
    rw [stat]
    exact Nat.mod_eq_of_lt (by have small := s.small; omega)
  have starts := filled.starts
  rw [size] at starts
  constructor
  · rintro ⟨t, member', intact⟩
    obtain rfl := distinct t member' s member (intact.named.trans named.symm)
    -- All fragments were written, so as many bytes as they carry were announced.
    have amount := filled.amount
    rw [intact.fragments, t.fragments_flatten, padded_length] at amount
    have content := congrArg List.length intact.content
    rw [intact.fragments, t.fragments_flatten, List.length_take, padded_length] at content
    exact ⟨t, member, intact.named, UInt64.toNat_inj.mp amount.symm, by omega⟩
  · rintro ⟨t, member', whole⟩
    obtain rfl := distinct t member' s member (whole.named.trans named.symm)
    have all : w'.written = t.fragments := by
      rw [written, count, whole.announced, ← t.fragments_length, List.take_length]
    have content : w'.written.flatten.take t.content.length = t.content := by
      rw [all, t.fragments_flatten, padded_take _ whole.enough]
    rw [whole.announced, Nat.min_eq_right whole.enough, content] at starts
    exact ⟨t, member, named, all, stat, content, starts⟩

/-- In every run of the receiver, a transfer is intact exactly when its stream announces the whole session. -/
theorem recvLoop_intact_iff {skB : Bytes} (sized : nacl.Sized)
    (unforgeable : Unforgeable nacl skA (nacl.getPublicKey skB) sessions) (distinct : DistinctIds sessions)
    (connections : List Bytes) (w : World) :
    ∀ done ∈ transfers nacl (recvState nacl (nacl.getPublicKey skA) skB) connections w,
      (∃ s ∈ sessions, Intact s done.1 done.2) ↔ ∃ s ∈ sessions, Whole s done.1 := by
  -- Whatever happened on the earlier connections, a transfer is judged by its own stream.
  induction connections generalizing w with
  | nil => simp [transfers]
  | cons connection connections ih =>
    intro done member
    rw [transfers, List.mem_append] at member
    rcases member with here | later
    · split at here
      · next succeeded =>
        obtain rfl := List.mem_singleton.mp here
        have ran : fileRecvTransfer nacl (recvState nacl (nacl.getPublicKey skA) skB) (accepting w connection) =
            (.SocketOk, (fileRecvTransfer nacl (recvState nacl (nacl.getPublicKey skA) skB)
              (accepting w connection)).2) := Prod.ext succeeded.2 rfl
        exact transfer_intact sized unforgeable distinct (sized.agree skA skB).symm ran
      · cases here
    · split at later
      · exact ih _ done later
      · cases later

end Sessions

/-- Boxes of the secretbox specification that open only when they are in a table of what was boxed. -/
def tableBoxes (table : List (Bytes × Bytes)) : NaCl where
  boxEasyAfternm := secretboxes.boxEasyAfternm
  boxOpenEasyAfternm c n k :=
    (table.find? fun entry => entry.1 = n ∧ c = secretboxes.boxEasyAfternm entry.2 n k).map Prod.snd
  getPublicKey := secretboxes.getPublicKey
  boxBeforenm := secretboxes.boxBeforenm

/-- What opens is in the table. -/
theorem tableBoxes_opened {table : List (Bytes × Bytes)} {c n k m : Bytes}
    (opened : (tableBoxes table).boxOpenEasyAfternm c n k = some m) :
    (n, m) ∈ table ∧ c = (tableBoxes table).boxEasyAfternm m n k := by
  simp only [tableBoxes, Option.map_eq_some_iff] at opened
  obtain ⟨entry, found, rfl⟩ := opened
  have matched := List.find?_some found
  simp only [decide_eq_true_eq] at matched
  obtain ⟨rfl, same⟩ := matched
  exact ⟨List.mem_of_find?_eq_some found, same⟩

/-- The first entry of the table opens. -/
theorem tableBoxes_first (n m k : Bytes) (table : List (Bytes × Bytes)) :
    (tableBoxes ((n, m) :: table)).boxOpenEasyAfternm (secretboxes.boxEasyAfternm m n k) n k = some m := by
  simp [tableBoxes]

theorem tableBoxes_sized (table : List (Bytes × Bytes)) : (tableBoxes table).Sized where
  box_length := secretboxes_perfect.box_length
  open_length c n k m opened := by
    rw [(tableBoxes_opened opened).2]
    exact secretboxes_perfect.box_length m n k
  publicKey_length := secretboxes_perfect.publicKey_length
  agree := secretboxes_perfect.agree

/-- The session in which the file of one byte was sent. -/
def oneSession : Session where
  sid := List.replicate 16 7
  name := [0x66]
  content := [0x61]
  mtime := 1
  roundup := 0
  before := oneByte
  sid_length := by decide
  short := by decide
  small := by decide
  found := rfl

/-- What was boxed in that session. -/
def oneTable : List (Bytes × Bytes) :=
  numbered oneSession.sid 0 (plan oneSession.name oneSession.content oneSession.mtime oneSession.roundup)

theorem oneSession_unforgeable (pkB : Bytes) : Unforgeable (tableBoxes oneTable) [] pkB [oneSession] := by
  intro c n m opened
  have boxed : oneSession.boxes (tableBoxes oneTable) [] pkB = oneTable :=
    oneSession.boxes_run (tableBoxes_sized _) (fun _ => rfl) (by decide)
  refine ⟨oneSession, List.mem_singleton_self _, ?_⟩
  rw [boxed]
  exact tableBoxes_opened opened

theorem oneSession_distinct : DistinctIds [oneSession] := by
  intro s member t member' _
  rw [List.mem_singleton.mp member, List.mem_singleton.mp member']

/-- What the sender sent, with an announced size of zero and without the fragment. -/
def cutStream : Bytes :=
  oneSession.sid ++ (store64Le 0 ++ ((9 :: List.replicate 31 0) ++ ((9 :: List.replicate 31 0) ++
    secretboxes.boxEasyAfternm (headerOf oneSession.size 1 [0x66]) (nonceOf oneSession.sid 0)
      (List.replicate 32 0))))

/-- The header of the session opens. -/
theorem oneTable_header : (tableBoxes oneTable).boxOpenEasyAfternm
    (secretboxes.boxEasyAfternm (headerOf oneSession.size 1 [0x66]) (nonceOf oneSession.sid 0)
      (List.replicate 32 0)) (nonceOf oneSession.sid 0) (List.replicate 32 0) =
      some (headerOf oneSession.size 1 [0x66]) := by
  rw [oneTable, plan, numbered]
  exact tableBoxes_first _ _ _ _

/-- The cut stream is accepted, and nothing is written. -/
theorem cutStream_accepted : ∃ w', fileRecvTransfer (tableBoxes oneTable)
    (recvState (tableBoxes oneTable) ((tableBoxes oneTable).getPublicKey []) []) (accepting oneByte cutStream) =
      (.SocketOk, w') ∧ w'.written = [] :=
  transfer_headerOnly (tableBoxes_sized _) (fun _ => rfl) (by decide) (by decide) (by decide)
    (boxedHeader_length secretboxes_perfect.toSized _ _ _ (by decide)) rfl oneTable_header
    (header_accepted (by decide) (by decide)).1

/-- The cut stream is a transfer of the run in which it is the only connection. -/
theorem cutStream_transferred : ∃ w', (cutStream, w') ∈ transfers (tableBoxes oneTable)
    (recvState (tableBoxes oneTable) ((tableBoxes oneTable).getPublicKey []) []) [cutStream] oneByte ∧
      w'.written = [] := by
  obtain ⟨w', ran, wrote⟩ := cutStream_accepted
  refine ⟨w', ?_, wrote⟩
  rw [transfers]
  simp only [ran, and_true, if_pos (show oneByte.ready = true from rfl)]
  exact List.mem_append_left _ (List.mem_singleton_self _)

theorem recvLoop_intact_cut : ∃ w', (cutStream, w') ∈ transfers (tableBoxes oneTable)
    (recvState (tableBoxes oneTable) ((tableBoxes oneTable).getPublicKey []) []) [cutStream] oneByte ∧
      ((∃ s ∈ [oneSession], Intact s cutStream w') ↔ ∃ s ∈ [oneSession], Whole s cutStream) := by
  obtain ⟨w', member, -⟩ := cutStream_transferred
  exact ⟨w', member, recvLoop_intact_iff (tableBoxes_sized _) (oneSession_unforgeable _) oneSession_distinct _ _ _
    member⟩

theorem recvLoop_fails : ¬ ∀ (nacl : NaCl) (skA skB : Bytes) (sessions : List Session) (connections : List Bytes)
    (w : World), nacl.Sized → Unforgeable nacl skA (nacl.getPublicKey skB) sessions → DistinctIds sessions →
    ∀ done ∈ transfers nacl (recvState nacl (nacl.getPublicKey skA) skB) connections w,
      ∃ s ∈ sessions, Intact s done.1 done.2 := by
  intro claimed
  obtain ⟨w', member, wrote⟩ := cutStream_transferred
  obtain ⟨s, one, intact⟩ := claimed (tableBoxes oneTable) [] [] [oneSession] _ _ (tableBoxes_sized _)
    (oneSession_unforgeable _) oneSession_distinct _ member
  -- The session has a fragment, which was not written.
  obtain rfl := List.mem_singleton.mp one
  have fragments := intact.fragments
  rw [wrote] at fragments
  have count := oneSession.fragments_length
  rw [← fragments] at count
  exact absurd count (by decide)

end HaclStar.Correctness.Tube
