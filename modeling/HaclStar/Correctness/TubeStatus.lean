import HaclStar.Correctness.Tube

/-! What the two sides of a transfer report, against the outcomes of their steps. -/

namespace HaclStar.Correctness.TubeStatus

open Endianness Memory HaclStar.Tube

/-- The next `n` operations of the environment succeed. -/
def Succeed (w : World) (n : Nat) : Prop := ∀ i < n, w.succeeds (w.clock + i) = true

section Succeed

variable {w : World}

theorem succeed_zero (w : World) : Succeed w 0 := fun i none => absurd none (Nat.not_lt_zero i)

/-- One operation, and the ones behind it. -/
theorem succeed_succ {n : Nat} {w' : World} (later : w'.succeeds = w.succeeds) (clock : w'.clock = w.clock + 1) :
    Succeed w (n + 1) ↔ w.ready = true ∧ Succeed w' n := by
  simp only [Succeed, World.ready, later, clock]
  constructor
  · intro all
    refine ⟨all 0 (by omega), ?_⟩
    intro i inside
    rw [show w.clock + 1 + i = w.clock + (i + 1) by omega]
    exact all (i + 1) (by omega)
  · rintro ⟨first, rest⟩ i inside
    cases i with
    | zero => exact first
    | succ i =>
      rw [show w.clock + (i + 1) = w.clock + 1 + i by omega]
      exact rest i (by omega)

/-- Some operations, and the ones behind them. -/
theorem succeed_add {n m : Nat} {w' : World} (later : w'.succeeds = w.succeeds) (clock : w'.clock = w.clock + n) :
    Succeed w (n + m) ↔ Succeed w n ∧ Succeed w' m := by
  simp only [Succeed, later, clock]
  constructor
  · intro all
    refine ⟨fun i inside => all i (by omega), ?_⟩
    intro i inside
    rw [Nat.add_assoc]
    exact all (n + i) (by omega)
  · rintro ⟨first, rest⟩ i inside
    rcases Nat.lt_or_ge i n with before | behind
    · exact first i before
    · rw [show w.clock + i = w.clock + n + (i - n) by omega]
      exact rest (i - n) (by omega)

end Succeed

/-- A computation that succeeds exactly when its next `n` operations of the environment do. -/
structure Takes (n : Nat) (x : Io SResult) (w : World) : Prop where
  result : (x w).1 = .SocketOk ↔ Succeed w n
  clock : (x w).1 = .SocketOk → (x w).2.clock = w.clock + n
  later : (x w).2.succeeds = w.succeeds

section Sender

variable {nacl : NaCl} {state : ImmutState} {w : World}

/-- A computation, and another one when it succeeds. -/
def andThen (x y : Io SResult) : Io SResult := do
  match ← x with
  | .SocketOk => y
  | .SocketError => return .SocketError

/-- The operations of both parts are needed. -/
theorem Takes.andThen {n m : Nat} {x y : Io SResult} (first : Takes n x w) (second : ∀ w, Takes m y w) :
    Takes (n + m) (TubeStatus.andThen x y) w := by
  have ran : TubeStatus.andThen x y w = (match (x w).1 with
    | .SocketOk => y
    | .SocketError => return .SocketError : Io SResult) (x w).2 := rfl
  cases outcome : x w with
  | mk r after =>
  rw [outcome] at ran
  obtain ⟨result, clock, later⟩ := first
  rw [outcome] at result clock later
  cases r with
  | SocketError =>
    -- The first part has failed at one of its operations.
    have failed : ¬ Succeed w n := fun all => by cases result.mpr all
    have same : TubeStatus.andThen x y w = (.SocketError, after) := ran
    refine ⟨?_, ?_, by rw [same]; exact later⟩
    · rw [same]
      constructor
      · intro ok
        cases ok
      · intro all
        exact absurd (fun i inside => all i (by omega)) failed
    · rw [same]
      intro ok
      cases ok
  | SocketOk =>
    have same : TubeStatus.andThen x y w = y after := ran
    obtain ⟨result', clock', later'⟩ := second after
    have ticks : after.clock = w.clock + n := clock rfl
    refine ⟨?_, ?_, ?_⟩
    · rw [same, result', succeed_add later ticks]
      exact ⟨fun all => ⟨result.mp rfl, all⟩, And.right⟩
    · rw [same]
      intro ok
      rw [clock' ok, ticks, Nat.add_assoc]
    · rw [same, later']
      exact later

/-- Doing nothing succeeds. -/
theorem takes_pure (w : World) : Takes 0 (pure .SocketOk) w :=
  ⟨⟨fun _ => succeed_zero w, fun _ => rfl⟩, fun _ => rfl, rfl⟩

/-- A write takes one operation. -/
theorem tcpWriteAll_takes (b : Bytes) (w : World) : Takes 1 (tcpWriteAll b) w := by
  have one : Succeed w 1 ↔ w.ready = true := by
    have split := @succeed_succ w 0 w.tick rfl rfl
    exact split.trans ⟨And.left, fun ready => ⟨ready, succeed_zero _⟩⟩
  constructor
  · rw [one, tcpWriteAll_run]
    cases w.ready with
    | false => simp [sresult]
    | true => simp [sresult]
  · intro _
    rw [tcpWriteAll_run]
    cases w.ready with
    | false => rfl
    | true => rfl
  · rw [tcpWriteAll_run]
    cases w.ready with
    | false => rfl
    | true => rfl

/-- Sending a box takes one operation. -/
theorem fileSendBox_takes (seqno len : UInt64) (w : World) : Takes 1 (fileSendBox nacl state seqno len) w := by
  -- Reading the file and sealing the box are no operations of the environment.
  obtain ⟨w', b, ran, clock, later⟩ : ∃ w' b, fileSendBox nacl state seqno len w = tcpWriteAll b w' ∧
      w'.clock = w.clock ∧ w'.succeeds = w.succeeds := ⟨_, _, rfl, rfl, rfl⟩
  obtain ⟨result, ticks, after⟩ := tcpWriteAll_takes b w'
  rw [← ran] at result ticks after
  constructor
  · rw [result, Succeed, Succeed, clock, later]
  · intro ok
    rw [ticks ok, clock]
  · rw [after, later]

/-- The full fragments take one operation each. -/
theorem fileSendLoop_takes (seqno : UInt64) (n : Nat) (w : World) : Takes n (fileSendLoop nacl state seqno n) w := by
  -- Induction on the number of fragments that are left.
  induction n generalizing seqno w with
  | zero => exact takes_pure w
  | succ n ih =>
    have both := (@fileSendBox_takes nacl state seqno blocksize w).andThen (ih (seqno + 1))
    rw [Nat.add_comm 1 n] at both
    exact both

/-- How many boxes carry the fragments. -/
def boxCount (fragments rem : UInt64) : Nat := fragments.toNat + if rem = 0 then 0 else 1

theorem fileSendFragments_takes (seqno fragments rem : UInt64) (w : World) :
    Takes (boxCount fragments rem) (fileSendFragments nacl state seqno fragments rem) w := by
  refine (fileSendLoop_takes seqno fragments.toNat w).andThen ?_
  intro w
  by_cases empty : rem = 0
  · have none : ¬ rem > 0 := by rw [empty]; decide
    rw [if_pos empty, if_neg none]
    exact takes_pure w
  · rw [if_neg empty, if_pos (UInt64.pos_iff_ne_zero.mpr empty)]
    exact fileSendBox_takes _ _ w

/-- What is sent in the clear takes four operations, the header one, and the fragments one each. -/
theorem fileFlushAll_takes (ctr rem : UInt64) (w : World) :
    Takes (5 + boxCount ctr rem) (fileFlushAll nacl state ctr rem) w := by
  have header (w : World) : Takes (1 + boxCount ctr rem) (do
      blitSid state.sid
      storeSeqno 0
      let ciphertext ← cryptoBoxEasyAfternm nacl state.header state.key
      match ← tcpWriteAll (ciphertext.take (cipherlen headersize).toNat) with
      | .SocketOk => fileSendFragments nacl state (0 + 1) ctr rem
      | .SocketError => return .SocketError) w := by
    obtain ⟨w', b, ran, clock, later⟩ : ∃ w' b, (do
        blitSid state.sid
        storeSeqno 0
        let ciphertext ← cryptoBoxEasyAfternm nacl state.header state.key
        match ← tcpWriteAll (ciphertext.take (cipherlen headersize).toNat) with
        | .SocketOk => fileSendFragments nacl state (0 + 1) ctr rem
        | .SocketError => return .SocketError : Io SResult) w =
          andThen (tcpWriteAll b) (fileSendFragments nacl state (0 + 1) ctr rem) w' ∧
        w'.clock = w.clock ∧ w'.succeeds = w.succeeds := ⟨_, _, rfl, rfl, rfl⟩
    obtain ⟨result, ticks, after⟩ := (tcpWriteAll_takes b w').andThen
      (@fileSendFragments_takes nacl state (0 + 1) ctr rem)
    rw [← ran] at result ticks after
    constructor
    · rw [result, Succeed, Succeed, clock, later]
    · intro ok
      rw [ticks ok, clock]
    · rw [after, later]
  have count : 5 + boxCount ctr rem = 1 + (1 + (1 + (1 + (1 + boxCount ctr rem)))) := by omega
  rw [count]
  exact (tcpWriteAll_takes state.sid w).andThen fun w => (tcpWriteAll_takes state.hsbuf w).andThen fun w =>
    (tcpWriteAll_takes state.pkA w).andThen fun w => (tcpWriteAll_takes state.pkB w).andThen header

/--
Every step of sending a file succeeds: it is there and not too large, and no operation fails.

The operations open the file, connect, write four fields, the header and the fragments, and close both ends.
-/
def SendsAll (name : Bytes) (roundup : UInt64) (w : World) : Prop :=
  ∃ content mtime, w.disk name = some (content, mtime) ∧
    fragmentCount (UInt64.ofNat content.length) roundup < 4294967295 ∧
    Succeed w (2 + (5 + boxCount (fragmentCount (UInt64.ofNat content.length) roundup)
      (restLength (UInt64.ofNat content.length))) + 2)

/-- A transfer that is started is reported as a success exactly when its operations and both closes succeed. -/
theorem fileSend1_status (num rem : UInt64) (w : World) :
    (fileSend1 nacl state num rem w).1.r = .FileOk ↔ Succeed w (5 + boxCount num rem + 2) := by
  obtain ⟨result, clock, later⟩ := @fileFlushAll_takes nacl state num rem (w.renonced (List.replicate 24 0))
  rw [fileSend1_run _ _ _ _ Prod.mk.eta.symm]
  generalize fileFlushAll nacl state num rem (w.renonced (List.replicate 24 0)) = done at result clock later ⊢
  obtain ⟨r, after⟩ := done
  change r = .SocketOk ↔ Succeed w (5 + boxCount num rem) at result
  change r = .SocketOk → after.clock = w.clock + (5 + boxCount num rem) at clock
  change after.succeeds = w.succeeds at later
  have closes : (if r = .SocketOk ∧ after.ready ∧ after.tick.ready then FResult.FileOk else .FileError) = .FileOk ↔
      r = .SocketOk ∧ after.ready ∧ after.tick.ready := by
    split
    · next ok => exact ⟨fun _ => ok, fun _ => rfl⟩
    · next failed =>
      constructor
      · intro ok
        cases ok
      · intro ok
        exact absurd ok failed
  rw [closes]
  -- The two closes come right behind a transfer that has succeeded.
  constructor
  · rintro ⟨ok, first, second⟩
    rw [succeed_add later (clock ok)]
    refine ⟨result.mp ok, ?_⟩
    exact (@succeed_succ after 1 after.tick rfl rfl).mpr
      ⟨first, (@succeed_succ after.tick 0 after.tick.tick rfl rfl).mpr ⟨second, succeed_zero _⟩⟩
  · intro all
    have ok : r = .SocketOk := result.mpr fun i inside => all i (by omega)
    rw [succeed_add later (clock ok)] at all
    obtain ⟨first, rest⟩ := (@succeed_succ after 1 after.tick rfl rfl).mp all.2
    exact ⟨ok, first, ((@succeed_succ after.tick 0 after.tick.tick rfl rfl).mp rest).1⟩

/-- A file is reported as sent exactly when every step of sending it succeeds. -/
theorem fileSend_status (nacl : NaCl) (sid name : Bytes) (roundup : UInt64) (skA pkB : Bytes) (w : World) :
    (fileSend nacl sid name roundup skA pkB w).1.r = .FileOk ↔ SendsAll name roundup w := by
  cases found : w.disk name with
  | none =>
    rw [fileSend_missing (.inl found)]
    constructor
    · intro ok
      cases ok
    · rintro ⟨content, mtime, present, -⟩
      rw [found] at present
      cases present
  | some file =>
    obtain ⟨content, mtime⟩ := file
    have steps : SendsAll name roundup w ↔ fragmentCount (UInt64.ofNat content.length) roundup < 4294967295 ∧
        Succeed w (2 + (5 + boxCount (fragmentCount (UInt64.ofNat content.length) roundup)
          (restLength (UInt64.ofNat content.length))) + 2) := by
      constructor
      · rintro ⟨content', mtime', present, few, all⟩
        obtain ⟨rfl, rfl⟩ := Prod.mk.inj (Option.some.inj (found.symm.trans present))
        exact ⟨few, all⟩
      · rintro ⟨few, all⟩
        exact ⟨content, mtime, found, few, all⟩
    rw [steps]
    cases ready : w.ready with
    | false =>
      rw [fileSend_missing (.inr ready)]
      constructor
      · intro ok
        cases ok
      · rintro ⟨-, all⟩
        have first := all 0 (by omega)
        exact absurd (ready.symm.trans first) (by decide)
    | true =>
      rw [fileSend_found found ready]
      split
      · next few =>
        have count (n : Nat) : 2 + n + 2 = 1 + (1 + (n + 2)) := by omega
        have opened (n : Nat) : Succeed w (2 + n + 2) ↔
            w.tick.ready = true ∧ Succeed (openWorld w name content mtime) (n + 2) := by
          rw [count, Nat.add_comm 1, succeed_succ (show w.tick.succeeds = w.succeeds from rfl) rfl, ready,
            Nat.add_comm 1, succeed_succ (show (openWorld w name content mtime).succeeds = w.tick.succeeds from rfl) rfl]
          exact ⟨And.right, fun rest => ⟨rfl, rest⟩⟩
        rw [opened]
        split
        · next connected =>
          rw [fileSend1_status]
          exact ⟨fun all => ⟨few, connected, all⟩, fun all => all.2.2⟩
        · next alone =>
          constructor
          · intro ok
            cases ok
          · rintro ⟨-, connected, -⟩
            exact absurd connected alone
      · next many =>
        constructor
        · intro ok
          cases ok
        · rintro ⟨few, -⟩
          exact absurd few many

end Sender

section Receiver

variable {nacl : NaCl} {state : ImmutState} {w : World} {sid : Bytes}

/-- A box is received when its operation succeeds, it arrives whole and it opens. -/
theorem fileRecvBox_status (nonced : Nonced w sid) (seqno : UInt64) {len : UInt64}
    (fits : len.toNat ≤ blocksize.toNat) :
    (fileRecvBox nacl state seqno len w).1 = .SocketOk ↔ w.ready = true ∧ len.toNat + 16 ≤ w.incoming.length ∧
      ∃ m, nacl.boxOpenEasyAfternm (w.incoming.take (len.toNat + 16)) (nonceOf sid seqno) state.key = some m := by
  constructor
  · intro ok
    have ran : fileRecvBox nacl state seqno len w = (.SocketOk, (fileRecvBox nacl state seqno len w).2) :=
      Prod.ext ok rfl
    obtain ⟨ready, enough, m, opened, -⟩ := (fileRecvBox_ok nonced seqno fits).mp ran
    exact ⟨ready, enough, m, opened⟩
  · rintro ⟨ready, enough, m, opened⟩
    rw [(fileRecvBox_ok nonced seqno fits).mpr ⟨ready, enough, m, opened, rfl⟩]

/-- The boxes of the announced size arrive and open, and no operation fails on the way. -/
def Opens (nacl : NaCl) (key sid : Bytes) (seqno total : UInt64) (w : World) : Prop :=
  (∃ ms, openAll nacl key sid seqno (fragmentLengths total) w.incoming = some ms) ∧
    Succeed w (fragmentLengths total).length

/-- The loop succeeds exactly when all its boxes arrive and open, one operation for each. -/
theorem fileRecvLoop2_status (nonced : Nonced w sid) (seqno total : UInt64) :
    ((fileRecvLoop2 nacl state seqno total w).1 = .SocketOk ↔ Opens nacl state.key sid seqno total w) ∧
      ((fileRecvLoop2 nacl state seqno total w).1 = .SocketOk →
        (fileRecvLoop2 nacl state seqno total w).2.clock = w.clock + (fragmentLengths total).length ∧
        (fileRecvLoop2 nacl state seqno total w).2.succeeds = w.succeeds) := by
  -- One box after another, following the recursion of the loop.
  fun_induction fileRecvLoop2 nacl state seqno total generalizing w with
  | case1 seqno total short =>
    rw [fileRecvLoop2LtBlocksize, Opens, fragmentLengths_short short]
    by_cases empty : total = 0
    · rw [if_pos empty, if_pos empty]
      exact ⟨⟨fun _ => ⟨⟨[], rfl⟩, succeed_zero w⟩, fun _ => rfl⟩, fun _ => ⟨rfl, rfl⟩⟩
    · rw [if_neg empty, if_neg empty]
      have fits : total.toNat ≤ blocksize.toNat := UInt64.le_iff_toNat_le.mp (UInt64.le_of_lt short)
      have status := @fileRecvBox_status nacl state w sid nonced seqno total fits
      have one := @succeed_succ w 0 w.tick rfl rfl
      constructor
      · rw [status, List.length_singleton, one]
        constructor
        · rintro ⟨ready, enough, m, opened⟩
          exact ⟨⟨[m], openAll_cons.mpr ⟨enough, opened, rfl⟩⟩, ready, succeed_zero _⟩
        · rintro ⟨⟨ms, opens⟩, ready, -⟩
          cases ms with
          | nil => simpa using openAll_length opens
          | cons m ms =>
            obtain ⟨enough, opened, -⟩ := openAll_cons.mp opens
            exact ⟨ready, enough, m, opened⟩
      · intro ok
        obtain ⟨ready, enough, m, opened⟩ := status.mp ok
        rw [(fileRecvBox_ok nonced seqno fits).mpr ⟨ready, enough, m, opened, rfl⟩]
        exact ⟨rfl, rfl⟩
  | case2 seqno total full ih =>
    have status := @fileRecvBox_status nacl state w sid nonced seqno blocksize le_rfl
    rw [Opens, fragmentLengths_full full, Io.bind_run]
    cases result : fileRecvBox nacl state seqno blocksize w with
    | mk r after =>
    rw [result] at status
    cases r with
    | SocketError =>
      -- The first box has failed, so the boxes do not all open.
      refine ⟨?_, ?_⟩
      · constructor
        · intro ok
          cases ok
        · rintro ⟨⟨ms, opens⟩, all⟩
          cases ms with
          | nil => simpa using openAll_length opens
          | cons m ms =>
            obtain ⟨enough, opened, -⟩ := openAll_cons.mp opens
            cases status.mpr ⟨all 0 (by simp), enough, m, opened⟩
      · intro ok
        cases ok
    | SocketOk =>
      obtain ⟨ready, enough, m, opened, rfl⟩ := (fileRecvBox_ok nonced seqno le_rfl).mp result
      have clock : (accepted w (nonceOf sid seqno) m blocksize).clock = w.clock + 1 := rfl
      have next := succeed_succ (accepted_succeeds w (nonceOf sid seqno) m blocksize) clock
        (n := (fragmentLengths (total - blocksize)).length)
      obtain ⟨iff, ticks⟩ := @ih (accepted w (nonceOf sid seqno) m blocksize)
        (Nonced.of_nonceOf nonced.sid_length rfl)
      rw [Opens, accepted_incoming] at iff
      refine ⟨?_, ?_⟩
      · refine iff.trans ?_
        rw [List.length_cons, next]
        constructor
        · rintro ⟨⟨ms, opens⟩, all⟩
          exact ⟨⟨m :: ms, openAll_cons.mpr ⟨enough, opened, opens⟩⟩, ready, all⟩
        · rintro ⟨⟨ms, opens⟩, -, all⟩
          cases ms with
          | nil => simpa using openAll_length opens
          | cons m' ms =>
            obtain ⟨-, -, more⟩ := openAll_cons.mp opens
            exact ⟨⟨ms, more⟩, all⟩
      · intro ok
        obtain ⟨later, same⟩ := ticks ok
        exact ⟨by rw [List.length_cons, later, clock]; omega, same⟩

/-- The header arrives, opens and is acceptable, its file is created, and the boxes behind it arrive and open. -/
structure Receives (nacl : NaCl) (state : ImmutState) (size : UInt64) (w : World) : Prop where
  header : 1040 ≤ w.incoming.length ∧ ∃ header,
    nacl.boxOpenEasyAfternm (w.incoming.take 1040) (nonceOf state.sid 0) state.key = some header ∧ Acceptable header
  fragments : ∃ ms, openAll nacl state.key state.sid 1 (fragmentLengths size) (w.incoming.drop 1040) = some ms
  operations : Succeed w (2 + (fragmentLengths size).length)

/-- The operation that closes the file succeeds. -/
def ClosesFile (size : UInt64) (w : World) : Prop :=
  w.succeeds (w.clock + (2 + (fragmentLengths size).length)) = true

/-- The operation behind it, that closes the connection, succeeds. -/
def ClosesConnection (size : UInt64) (w : World) : Prop :=
  w.succeeds (w.clock + (3 + (fragmentLengths size).length)) = true

/-- The body of a transfer succeeds exactly when its steps do. -/
theorem fileRecvBody_status (sid_length : state.sid.length = 16) (size : UInt64) (w : World) :
    ((fileRecvBody nacl state size w).1 = .SocketOk ↔ Receives nacl state size w) ∧
      ((fileRecvBody nacl state size w).1 = .SocketOk →
        (fileRecvBody nacl state size w).2.clock = w.clock + (2 + (fragmentLengths size).length) ∧
        (fileRecvBody nacl state size w).2.succeeds = w.succeeds) := by
  have two (n : Nat) (w' : World) (later : w'.succeeds = w.succeeds) (clock : w'.clock = w.clock + 2) :
      Succeed w (2 + n) ↔ Succeed w 2 ∧ Succeed w' n := succeed_add later clock
  have ticks : Succeed w 2 ↔ w.ready = true ∧ w.tick.ready = true := by
    rw [@succeed_succ w 1 w.tick rfl rfl, @succeed_succ w.tick 0 w.tick.tick rfl rfl]
    exact ⟨fun all => ⟨all.1, all.2.1⟩, fun all => ⟨all.1, all.2, succeed_zero _⟩⟩
  rw [fileRecvBody, Io.bind_run]
  cases result : fileRecvHeader nacl state w with
  | mk r after =>
  cases r with
  | SocketError =>
    -- The header has failed at one of its steps.
    refine ⟨?_, ?_⟩
    · constructor
      · intro ok
        cases ok
      · rintro ⟨⟨enough, header, opened, acceptable⟩, -, all⟩
        have both : Succeed w 2 := fun i inside => all i (by omega)
        obtain ⟨ready, ready'⟩ := ticks.mp both
        have ran := (fileRecvHeader_ok sid_length).mpr ⟨ready, ready', enough, header, opened, acceptable, rfl⟩
        rw [result] at ran
        cases ran
    · intro ok
      cases ok
  | SocketOk =>
    obtain ⟨ready, ready', enough, header, opened, acceptable, rfl⟩ := (fileRecvHeader_ok sid_length).mp result
    obtain ⟨iff, later⟩ := @fileRecvLoop2_status nacl state (headed w (nonceOf state.sid 0) header) state.sid
      (Nonced.of_nonceOf sid_length rfl) 1 size
    have split := two (fragmentLengths size).length (headed w (nonceOf state.sid 0) header) rfl rfl
    refine ⟨?_, ?_⟩
    · refine iff.trans ?_
      constructor
      · rintro ⟨fragments, all⟩
        exact ⟨⟨enough, header, opened, acceptable⟩, fragments, split.mpr ⟨ticks.mpr ⟨ready, ready'⟩, all⟩⟩
      · rintro ⟨-, fragments, all⟩
        exact ⟨fragments, (split.mp all).2⟩
    · intro ok
      obtain ⟨clock, same⟩ := later ok
      have start : (headed w (nonceOf state.sid 0) header).clock = w.clock + 2 := rfl
      exact ⟨by rw [clock, start]; omega, same⟩

/-- Success is reported exactly when everything succeeds but the close of the file. -/
theorem fileRecvEnc_status (sid_length : state.sid.length = 16) (size : UInt64) (w : World) :
    (fileRecvEnc nacl state size w).1 = .SocketOk ↔
      Receives nacl state size w ∧ ¬ ClosesFile size w ∧ ClosesConnection size w := by
  obtain ⟨iff, later⟩ := @fileRecvBody_status nacl state sid_length size w
  rw [fileRecvEnc, Io.bind_run]
  generalize fileRecvBody nacl state size w = done at iff later ⊢
  obtain ⟨r, after⟩ := done
  cases r with
  | SocketError =>
    constructor
    · intro ok
      cases ok
    · rintro ⟨received, -⟩
      cases iff.mpr received
  | SocketOk =>
    obtain ⟨clock, same⟩ := later rfl
    change after.clock = w.clock + (2 + (fragmentLengths size).length) at clock
    change after.succeeds = w.succeeds at same
    have received := iff.mp rfl
    have file : ClosesFile size w ↔ after.ready = true := by rw [ClosesFile, World.ready, clock, same]
    have connection : ClosesConnection size w ↔ after.tick.ready = true := by
      have next : w.clock + (2 + (fragmentLengths size).length) + 1 = w.clock + (3 + (fragmentLengths size).length) := by
        omega
      rw [ClosesConnection, ← next, ← clock, ← same]
      rfl
    rw [file, connection]
    dsimp only
    rw [fileClose, Io.bind_run]
    simp only [attempt]
    cases after.ready with
    | true =>
      -- A file that is closed is taken for one that is not.
      constructor
      · intro ok
        cases ok
      · rintro ⟨-, open', -⟩
        exact absurd rfl open'
    | false =>
      dsimp only
      rw [tcpClose, socketStep_run]
      cases after.tick.ready with
      | true => exact ⟨fun _ => ⟨received, by decide, rfl⟩, fun _ => rfl⟩
      | false =>
        constructor
        · intro ok
          cases ok
        · rintro ⟨-, -, closed⟩
          cases closed

/-- Every step of receiving a file succeeds. -/
def ReceivesAll (nacl : NaCl) (state : ImmutState) (size : UInt64) (w : World) : Prop :=
  Receives nacl state size w ∧ ClosesFile size w ∧ ClosesConnection size w

end Receiver

/--
The receiver reports the outcome of a transfer exactly when a step other than the close of the file fails.

The sender always reports the outcome.
-/
theorem tube_status (nacl : NaCl) :
    (∀ (state : ImmutState) (size : UInt64) (w : World), state.sid.length = 16 →
      (((fileRecvEnc nacl state size w).1 = .SocketOk ↔ ReceivesAll nacl state size w) ↔
        ¬ (Receives nacl state size w ∧ ClosesConnection size w))) ∧
    ∀ (sid name : Bytes) (roundup : UInt64) (skA pkB : Bytes) (w : World),
      (fileSend nacl sid name roundup skA pkB w).1.r = .FileOk ↔ SendsAll name roundup w := by
  refine ⟨?_, fun sid name roundup skA pkB w => fileSend_status nacl sid name roundup skA pkB w⟩
  intro state size w sid_length
  rw [fileRecvEnc_status sid_length, ReceivesAll]
  -- The close of the file counts in opposite senses on the two sides.
  by_cases file : ClosesFile size w
  · simp only [file, not_true_eq_false, false_and, and_false, true_and, false_iff]
  · simp only [file, not_false_eq_true, true_and, false_and, and_false, iff_false]

/-- What a session of no fragments puts on the connection behind the keys. -/
def headerOnly : Bytes :=
  Tube.secretboxes.boxEasyAfternm (headerOf 0 1 [0x66]) (nonceOf (List.replicate 16 7) 0) (List.replicate 32 0)

/-- The state of the receiver in that session. -/
def headerState : ImmutState :=
  { recvState Tube.secretboxes [] [] with sid := List.replicate 16 7 }

/-- Every step of receiving an empty file succeeds. -/
theorem headerOnly_receivesAll :
    ReceivesAll Tube.secretboxes headerState 0 { Tube.oneByte with incoming := headerOnly } := by
  have length : headerOnly.length = 1040 :=
    Tube.boxedHeader_length Tube.secretboxes_perfect.toSized 0 _ _ (by decide)
  have opened : Tube.secretboxes.boxOpenEasyAfternm (headerOnly.take 1040) (nonceOf headerState.sid 0) headerState.key =
      some (headerOf 0 1 [0x66]) := by
    rw [List.take_of_length_le length.le]
    exact Tube.secretboxes_perfect.open_box _ _ _
  have acceptable : Acceptable (headerOf (UInt64.ofNat ([] : Bytes).length) 1 [0x66]) :=
    (Tube.header_accepted (by decide) (by decide)).1
  have none : fragmentLengths 0 = [] := by
    rw [fragmentLengths_short (by decide), if_pos rfl]
  refine ⟨⟨⟨length.ge, _, opened, acceptable⟩, ?_, fun _ _ => rfl⟩, rfl, rfl⟩
  rw [none]
  exact ⟨[], rfl⟩

theorem tube_status_reports :
    headerState.sid.length = 16 ∧
    (((fileRecvEnc Tube.secretboxes headerState 0 { Tube.oneByte with incoming := [] }).1 = .SocketOk ↔
        ReceivesAll Tube.secretboxes headerState 0 { Tube.oneByte with incoming := [] }) ↔
      ¬ (Receives Tube.secretboxes headerState 0 { Tube.oneByte with incoming := [] } ∧
        ClosesConnection 0 { Tube.oneByte with incoming := [] })) :=
  ⟨by decide, (tube_status Tube.secretboxes).1 headerState 0 { Tube.oneByte with incoming := [] } (by decide)⟩

theorem recvEnc_reports_fails : ¬ ∀ (nacl : NaCl) (state : ImmutState) (size : UInt64) (w : World),
    state.sid.length = 16 →
    ((fileRecvEnc nacl state size w).1 = .SocketOk ↔ ReceivesAll nacl state size w) := by
  intro claimed
  have all := headerOnly_receivesAll
  have ok := (claimed Tube.secretboxes headerState 0 _ (by decide)).mpr all
  -- The file is closed, which the receiver takes for a failure.
  exact ((fileRecvEnc_status (by decide) 0 _).mp ok).2.1 all.2.1

end HaclStar.Correctness.TubeStatus
