import HaclStar.Spec.SecretBox
import HaclStar.Tube.Receive

/-! File transfers between two PneuTube processes: what arrives against what was sent. -/

namespace HaclStar.Correctness.Tube

open Endianness Memory HaclStar.Tube

/-- Receive what comes in the clear, the header and the fragments, up to where the file is closed. -/
def fileRecvTransfer (nacl : NaCl) (state : ImmutState) : Io SResult := do
  match ← fileRecvHello state with
  | some (state, hsize) => fileRecvBody nacl state hsize
  | none => return .SocketError

/-- The bytes that a sender writes to the connection. -/
def sentStream (nacl : NaCl) (sid name : Bytes) (roundup : UInt64) (skA pkB : Bytes) (w : World) : Bytes :=
  (fileSend nacl sid name roundup skA pkB { w with sent := [] }).2.sent

/-- The transfer of a file over a connection that delivers exactly what the sender wrote. -/
def transfer (nacl : NaCl) (sid name : Bytes) (roundup : UInt64) (skA skB : Bytes) (w r : World) : SResult × World :=
  fileRecvTransfer nacl (recvState nacl (nacl.getPublicKey skA) skB)
    { r with incoming := sentStream nacl sid name roundup skA (nacl.getPublicKey skB) w }

/-- A transfer succeeds, uses up what was sent and delivers the content under the name, size and time sent. -/
structure Lossless (nacl : NaCl) (sid name content : Bytes) (mtime roundup : UInt64) (skA skB : Bytes)
    (w r : World) : Prop where
  accepted : (transfer nacl sid name roundup skA skB w r).1 = .SocketOk
  consumed : (transfer nacl sid name roundup skA skB w r).2.incoming = []
  stat : (transfer nacl sid name roundup skA skB w r).2.file.stat = ⟨name, mtime, UInt64.ofNat content.length⟩
  written : (transfer nacl sid name roundup skA skB w r).2.written.flatten.take content.length = content
  buffer : (transfer nacl sid name roundup skA skB w r).2.file.buffer.take content.length = content

/-- A file is not padded, or the padding is made of whole blocks and the number of blocks stays in range. -/
def Compatible (size : Nat) (roundup : UInt64) : Prop :=
  size &&& (roundup.toNat - 1) = 0 ∨
    262144 ∣ roundup.toNat - (size &&& (roundup.toNat - 1)) ∧
      size + (roundup.toNat - (size &&& (roundup.toNat - 1))) < 4294967295 * 262144

section Sizes

variable {size roundup : UInt64}

/-- The excess of a size over a multiple of the rounding, as a number. -/
theorem excess_toNat (positive : roundup ≠ 0) :
    (size &&& (roundup - 1)).toNat = size.toNat &&& (roundup.toNat - 1) := by
  have one : (1 : UInt64) ≤ roundup := by
    rw [UInt64.le_iff_toNat_le, UInt64.toNat_one]
    have nonzero : roundup.toNat ≠ 0 := fun zero => positive (UInt64.toNat_inj.mp zero)
    omega
  rw [UInt64.toNat_and, UInt64.toNat_sub_of_le _ _ one, UInt64.toNat_one]

/-- A file without excess keeps its size. -/
theorem roundedSize_of_even (even : size.toNat &&& (roundup.toNat - 1) = 0) : roundedSize size roundup = size := by
  by_cases zero : roundup = 0
  · -- No rounding: the mask is empty.
    have mask : Impl.Bignum.gteMask roundup 1 = 0 := by rw [zero]; decide
    simp [roundedSize, mask]
  · -- The excess is zero: the mask is empty as well.
    have excess : size &&& (roundup - 1) = 0 := by
      rw [← UInt64.toNat_inj, excess_toNat zero, even]
      rfl
    have mask : ~~~(Impl.Bignum.eqMask 0 0) = 0 := by decide
    simp [roundedSize, excess, mask]

/-- A file with an excess is padded, and a carry beyond 64 bits is lost. -/
theorem roundedSize_of_odd (odd : size.toNat &&& (roundup.toNat - 1) ≠ 0) : (roundedSize size roundup).toNat =
    (size.toNat + (roundup.toNat - (size.toNat &&& (roundup.toNat - 1)))) % 2 ^ 64 := by
  have positive : roundup ≠ 0 := by
    rintro rfl
    simp at odd
  have excess := @excess_toNat size roundup positive
  have below : size.toNat &&& (roundup.toNat - 1) ≤ roundup.toNat - 1 := Nat.and_le_right
  have least : roundup ≥ 1 := by
    rw [ge_iff_le, UInt64.le_iff_toNat_le, UInt64.toNat_one]
    have nonzero : roundup.toNat ≠ 0 := fun zero => positive (UInt64.toNat_inj.mp zero)
    omega
  have nonzero : size &&& (roundup - 1) ≠ 0 := by
    intro zero
    rw [zero, UInt64.toNat_zero] at excess
    exact odd excess.symm
  -- The mask is full, so the padding is added.
  have mask : Impl.Bignum.gteMask roundup 1 &&& ~~~(Impl.Bignum.eqMask (size &&& (roundup - 1)) 0) = -1 := by
    rw [Impl.Bignum.gteMask, if_pos least, Impl.Bignum.eqMask, if_neg nonzero]
    decide
  rw [roundedSize]
  simp only [mask, UInt64.and_neg_one]
  rw [UInt64.toNat_add, UInt64.toNat_sub_of_le _ _ (by rw [UInt64.le_iff_toNat_le, excess]; omega), excess]

/-- The sender carries the announced bytes, and all of the file, exactly for compatible roundings. -/
theorem carried_iff_compatible (small : size.toNat < 2 ^ 32) :
    (fragmentCount size roundup < 4294967295 ∧ roundedSize size roundup = carried size roundup ∧
      size.toNat ≤ (carried size roundup).toNat) ↔ Compatible size.toNat roundup := by
  have limit : (4294967295 : UInt64).toNat = 4294967295 := rfl
  rw [← UInt64.toNat_inj, UInt64.lt_iff_toNat_lt, fragmentCount_toNat, limit, Compatible]
  by_cases even : size.toNat &&& (roundup.toNat - 1) = 0
  · have few : fragmentCount size roundup < 4294967295 := by
      rw [UInt64.lt_iff_toNat_lt, fragmentCount_toNat, roundedSize_of_even even, limit]
      omega
    rw [carried_toNat few, roundedSize_of_even even]
    constructor
    · exact fun _ => .inl even
    · intro _
      refine ⟨?_, ?_, ?_⟩ <;> omega
  · have rounded := roundedSize_of_odd even
    have below : size.toNat &&& (roundup.toNat - 1) ≤ roundup.toNat - 1 := Nat.and_le_right
    have bound := roundup.toNat_lt
    set excess := size.toNat &&& (roundup.toNat - 1) with excess_def
    constructor
    · rintro ⟨few, same, enough⟩
      have few' : fragmentCount size roundup < 4294967295 := by
        rw [UInt64.lt_iff_toNat_lt, fragmentCount_toNat, limit]
        exact few
      rw [carried_toNat few'] at same enough
      right
      -- A lost carry would leave less than the file.
      constructor <;> omega
    · rintro (zero | ⟨blocks, inRange⟩)
      · exact absurd zero even
      · have few : fragmentCount size roundup < 4294967295 := by
          rw [UInt64.lt_iff_toNat_lt, fragmentCount_toNat, limit]
          omega
        rw [carried_toNat few]
        refine ⟨?_, ?_, ?_⟩ <;> omega

end Sizes

section Wire

variable {nacl : NaCl} {key sid : Bytes}

/-- The boxes around fragments are as long as the receiver expects. -/
theorem wire_length (sized : nacl.Sized) (seqno : UInt64) (content : Bytes) (pos : Nat) (lens : List UInt64) :
    (wire nacl key (numbered sid seqno (fragmentsFrom content pos lens))).length = boxesLength lens := by
  induction lens generalizing seqno pos with
  | nil => rfl
  | cons len lens ih =>
    rw [fragmentsFrom, numbered, wire, List.flatMap_cons, List.length_append, sized.box_length, padded_length,
      boxesLength_cons, ← ih (seqno + 1) (pos + len.toNat)]
    rfl

/-- Perfect boxes around fragments open to the fragments. -/
theorem openAll_wire (perfect : nacl.Perfect) (seqno : UInt64) (content : Bytes) (pos : Nat) (lens : List UInt64) :
    openAll nacl key sid seqno lens (wire nacl key (numbered sid seqno (fragmentsFrom content pos lens))) =
      some (fragmentsFrom content pos lens) := by
  induction lens generalizing seqno pos with
  | nil => rfl
  | cons len lens ih =>
    have size : (nacl.boxEasyAfternm (padded content pos len.toNat) (nonceOf sid seqno) key).length =
        len.toNat + 16 := by
      rw [perfect.box_length, padded_length]
    rw [fragmentsFrom, numbered, wire, List.flatMap_cons]
    refine openAll_cons.mpr ⟨?_, ?_, ?_⟩
    · rw [List.length_append, size]
      omega
    · rw [List.take_left' size, perfect.open_box]
    · rw [List.drop_left' size]
      exact ih _ _

/-- The number of fragments that carry a total. -/
theorem fragmentLengths_length (total : UInt64) :
    (fragmentLengths total).length = total.toNat / 262144 + if total.toNat % 262144 = 0 then 0 else 1 := by
  have rest : total % blocksize = 0 ↔ total.toNat % 262144 = 0 := by
    rw [← UInt64.toNat_inj, UInt64.toNat_mod, blocksize_toNat, UInt64.toNat_zero]
  rw [fragmentLengths, List.length_append, List.length_replicate, UInt64.toNat_div, blocksize_toNat]
  by_cases zero : total.toNat % 262144 = 0
  · rw [if_pos (rest.mpr zero), if_pos zero]
    rfl
  · rw [if_neg (mt rest.mp zero), if_neg zero]
    rfl

/-- More bytes take more boxes: the length of the boxes tells the total. -/
theorem boxesLength_injective {total total' : UInt64}
    (same : boxesLength (fragmentLengths total) = boxesLength (fragmentLengths total')) : total = total' := by
  rw [boxesLength, boxesLength, fragmentLengths_total, fragmentLengths_total, fragmentLengths_length,
    fragmentLengths_length] at same
  apply UInt64.toNat_inj.mp
  split at same <;> split at same <;> omega

/-- A header says what was put into it. -/
theorem statOf_headerOf {size mtime : UInt64} {name : Bytes} (short : name.length < 100) :
    statOf (headerOf size mtime name) = ⟨name, mtime, size⟩ ∧
      (load64Le ((headerOf size mtime name).drop 16)).toNat = name.length := by
  have bound : (UInt64.ofNat name.length).toNat = name.length := Nat.mod_eq_of_lt (by omega)
  have first : (headerOf size mtime name).drop 8 = store64Le mtime ++ (store64Le (UInt64.ofNat name.length) ++
      (name ++ List.replicate (1000 - name.length) 0)) := by
    rw [headerOf_eq, List.drop_left' (store64Le_length _)]
  have second : (headerOf size mtime name).drop 16 = store64Le (UInt64.ofNat name.length) ++
      (name ++ List.replicate (1000 - name.length) 0) := by
    rw [show 16 = 8 + 8 from rfl, ← List.drop_drop, first, List.drop_left' (store64Le_length _)]
  have third : (headerOf size mtime name).drop 24 = name ++ List.replicate (1000 - name.length) 0 := by
    rw [show 24 = 16 + 8 from rfl, ← List.drop_drop, second, List.drop_left' (store64Le_length _)]
  refine ⟨?_, by rw [second, load64Le_store64Le, bound]⟩
  rw [statOf, first, second, third, load64Le_store64Le, load64Le_store64Le, bound, List.take_left' rfl, headerOf_eq,
    load64Le_store64Le]

end Wire

section Transfers

variable {nacl : NaCl} {sid name content skA skB : Bytes} {mtime roundup : UInt64} {w r : World}

/-- What both parties use in a transfer, once the receiver knows the session. -/
def sessionState (nacl : NaCl) (sid hsbuf skA skB : Bytes) : ImmutState :=
  { recvState nacl (nacl.getPublicKey skA) skB with sid, hsbuf }

/-- The box around the header comes first on the wire. -/
theorem wire_plan (key : Bytes) : wire nacl key (numbered sid 0 (plan name content mtime roundup)) =
    nacl.boxEasyAfternm (headerOf (UInt64.ofNat content.length) mtime name) (nonceOf sid 0) key ++
      wire nacl key (numbered sid 1
        (fragmentsFrom content 0 (fragmentLengths (carried (UInt64.ofNat content.length) roundup)))) := by
  have first : (0 : UInt64) + 1 = 1 := by decide
  rw [plan, numbered, first, wire, List.flatMap_cons, wire]

/-- Over a faithful connection the receiver gets to the boxes of the sender. -/
theorem transfer_eq (sized : nacl.Sized) (found : w.disk name = some (content, mtime))
    (small : content.length < 2 ^ 32) (short : name.length < 100) (sid_length : sid.length = 16)
    (sends : w.Faithful) (receives : r.Faithful)
    (few : fragmentCount (UInt64.ofNat content.length) roundup < 4294967295) :
    ∃ r', transfer nacl sid name roundup skA skB w r =
        fileRecvBody nacl (sessionState nacl sid (store64Le (roundedSize (UInt64.ofNat content.length) roundup))
          skA skB) (roundedSize (UInt64.ofNat content.length) roundup) r' ∧
      r'.incoming = wire nacl (nacl.boxBeforenm (nacl.getPublicKey skA) skB)
        (numbered sid 0 (plan name content mtime roundup)) ∧ r'.Faithful := by
  set hsize := roundedSize (UInt64.ofNat content.length) roundup with hsize_def
  obtain ⟨-, sent, -⟩ := @fileSend_run nacl { w with sent := [] } sid name content skA (nacl.getPublicKey skB) mtime
    roundup sized found small short sid_length sends few
  have stream : sentStream nacl sid name roundup skA (nacl.getPublicKey skB) w = sid ++ (store64Le hsize ++
      (nacl.getPublicKey skA ++ (nacl.getPublicKey skB ++ wire nacl (nacl.boxBeforenm (nacl.getPublicKey skA) skB)
        (numbered sid 0 (plan name content mtime roundup))))) := by
    rw [sentStream, sent, sized.agree]
    simp only [List.append_assoc, List.nil_append, hsize_def]
  obtain ⟨r', hello, rest, same⟩ := @fileRecvHello_run (recvState nacl (nacl.getPublicKey skA) skB)
    { r with incoming := sentStream nacl sid name roundup skA (nacl.getPublicKey skB) w } receives sid
    (store64Le hsize) _ sid_length (store64Le_length _) (sized.publicKey_length _) (sized.publicKey_length _) stream
  refine ⟨r', ?_, rest, fun n => by rw [same]; exact receives n⟩
  have size : load64Le (store64Le hsize) = hsize := by
    have read := load64Le_store64Le hsize []
    rwa [List.append_nil] at read
  rw [transfer, fileRecvTransfer, Io.bind_step hello, size]
  rfl

/-- Nothing is received when the sender refuses to send. -/
theorem transfer_refused (found : w.disk name = some (content, mtime)) (sends : w.Faithful)
    (many : ¬ fragmentCount (UInt64.ofNat content.length) roundup < 4294967295) :
    (transfer nacl sid name roundup skA skB w r).1 ≠ .SocketOk := by
  have silent : sentStream nacl sid name roundup skA (nacl.getPublicKey skB) w = [] :=
    @fileSend_refused nacl { w with sent := [] } sid name content skA (nacl.getPublicKey skB) mtime roundup found
      sends many
  intro accepted
  rw [transfer, silent, fileRecvTransfer, Io.bind_run] at accepted
  cases hello : fileRecvHello (recvState nacl (nacl.getPublicKey skA) skB) { r with incoming := [] } with
  | mk result r' =>
  rw [hello] at accepted
  cases result with
  | none => cases accepted
  | some result =>
    -- There is no session id to be read.
    have enough := (@fileRecvHello_inv _ _ _ result.1 result.2 hello).1
    simp at enough

/-- The header of a file is acceptable and says what the file is. -/
theorem header_accepted (small : content.length < 2 ^ 32) (short : name.length < 100) :
    Acceptable (headerOf (UInt64.ofNat content.length) mtime name) ∧
      statOf (headerOf (UInt64.ofNat content.length) mtime name) =
        ⟨name, mtime, UInt64.ofNat content.length⟩ := by
  obtain ⟨stat, nsize⟩ := @statOf_headerOf (UInt64.ofNat content.length) mtime name short
  have size : load64Le (headerOf (UInt64.ofNat content.length) mtime name) = UInt64.ofNat content.length := by
    rw [← statOf_size, stat]
  have count : (UInt64.ofNat content.length).toNat = content.length := Nat.mod_eq_of_lt (by omega)
  refine ⟨?_, stat⟩
  rw [Acceptable, UInt64.lt_iff_toNat_lt, UInt64.lt_iff_toNat_lt, nsize, size, count,
    show (4294967296 : UInt64).toNat = 2 ^ 32 from rfl]
  exact ⟨short, small⟩

/-- The header in its box, in front of the fragments. -/
theorem boxedHeader_length (sized : nacl.Sized) (size : UInt64) (n key : Bytes) (short : name.length < 100) :
    (nacl.boxEasyAfternm (headerOf size mtime name) n key).length = 1040 := by
  rw [sized.box_length, headerOf_length _ _ short]
  rfl

variable {state : ImmutState} {hsize total : UInt64} {after : World}

/-- When a transfer succeeds and nothing is left over, the announced bytes are the bytes carried. -/
theorem carried_of_consumed (sized : nacl.Sized) (sid_length : state.sid.length = 16) (short : name.length < 100)
    {size : UInt64} {key : Bytes}
    (arrives : r.incoming = nacl.boxEasyAfternm (headerOf size mtime name) (nonceOf sid 0) key ++
      wire nacl key (numbered sid 1 (fragmentsFrom content 0 (fragmentLengths total))))
    (ran : fileRecvBody nacl state hsize r = (.SocketOk, after)) (consumed : after.incoming = []) :
    hsize = total ∧ after.written.flatten.length = hsize.toNat := by
  obtain ⟨-, ms, -, -, -, -, within, left, -, -, filled⟩ := fileRecvBody_inv sized sid_length ran
  rw [left, List.drop_eq_nil_iff] at consumed
  rw [arrives, List.drop_left' (boxedHeader_length sized _ _ _ short), wire_length sized] at within consumed
  exact ⟨boxesLength_injective (le_antisymm within consumed), filled.amount⟩

/-- When the announced bytes are the bytes carried, the transfer delivers the file. -/
theorem delivered_of_carried (perfect : nacl.Perfect) (small : content.length < 2 ^ 32) (short : name.length < 100)
    (sid_length : state.sid.length = 16) (faithful : r.Faithful)
    (arrives : r.incoming = nacl.boxEasyAfternm (headerOf (UInt64.ofNat content.length) mtime name)
        (nonceOf state.sid 0) state.key ++
      wire nacl state.key (numbered state.sid 1 (fragmentsFrom content 0 (fragmentLengths total))))
    (enough : content.length ≤ total.toNat) : ∃ after, fileRecvBody nacl state total r = (.SocketOk, after) ∧
      after.incoming = [] ∧ after.file.stat = ⟨name, mtime, UInt64.ofNat content.length⟩ ∧
      after.written.flatten.take content.length = content ∧
      after.file.buffer.take content.length = content := by
  have header_length := @boxedHeader_length nacl name mtime perfect.toSized (UInt64.ofNat content.length)
    (nonceOf state.sid 0) state.key short
  obtain ⟨acceptable, stat⟩ := @header_accepted name content mtime small short
  have within : 1040 ≤ r.incoming.length := by
    rw [arrives, List.length_append, header_length]
    omega
  have head : nacl.boxOpenEasyAfternm (r.incoming.take 1040) (nonceOf state.sid 0) state.key =
      some (headerOf (UInt64.ofNat content.length) mtime name) := by
    rw [arrives, List.take_left' header_length]
    exact perfect.open_box _ _ _
  have rest : r.incoming.drop 1040 =
      wire nacl state.key (numbered state.sid 1 (fragmentsFrom content 0 (fragmentLengths total))) := by
    rw [arrives, List.drop_left' header_length]
  have opens := @openAll_wire nacl state.key state.sid perfect 1 content 0 (fragmentLengths total)
  rw [← rest] at opens
  have accepted := fileRecvBody_run faithful sid_length within head acceptable opens
  cases ran : fileRecvBody nacl state total r with
  | mk res after =>
  rw [ran] at accepted
  change res = .SocketOk at accepted
  subst accepted
  -- What was received is determined by the boxes.
  obtain ⟨header, ms, -, opened, -, opens', -, left, wrote, stat', filled⟩ :=
    fileRecvBody_inv perfect.toSized sid_length ran
  rw [head, Option.some.injEq] at opened
  rw [opens, Option.some.injEq] at opens'
  have content_written : after.written.flatten.take content.length = content := by
    rw [wrote, ← opens', fragmentsFrom_flatten, fragmentLengths_total, padded_take content enough]
  have size : after.file.stat.size.toNat = content.length := by
    rw [stat', ← opened, stat]
    exact Nat.mod_eq_of_lt (by omega)
  have starts := filled.starts
  rw [size, Nat.min_eq_right enough, content_written] at starts
  refine ⟨after, rfl, ?_, ?_, content_written, starts⟩
  · rw [left, rest, ← wire_length perfect.toSized 1 content 0 (fragmentLengths total), List.drop_length]
  · rw [stat', ← opened, stat]

/-- A transfer is lossless exactly when the sender carries what it announces, and all of the file. -/
theorem lossless_iff_carried (perfect : nacl.Perfect) (found : w.disk name = some (content, mtime))
    (small : content.length < 2 ^ 32) (short : name.length < 100) (sid_length : sid.length = 16)
    (sends : w.Faithful) (receives : r.Faithful) :
    Lossless nacl sid name content mtime roundup skA skB w r ↔
      fragmentCount (UInt64.ofNat content.length) roundup < 4294967295 ∧
        roundedSize (UInt64.ofNat content.length) roundup = carried (UInt64.ofNat content.length) roundup ∧
        content.length ≤ (carried (UInt64.ofNat content.length) roundup).toNat := by
  by_cases few : fragmentCount (UInt64.ofNat content.length) roundup < 4294967295
  · obtain ⟨r', ran, arrives, faithful⟩ := @transfer_eq nacl sid name content skA skB mtime roundup w r
      perfect.toSized found small short sid_length sends receives few
    rw [wire_plan] at arrives
    constructor
    · intro lossless
      cases result : transfer nacl sid name roundup skA skB w r with
      | mk res after =>
      obtain ⟨accepted, consumed, -, written, -⟩ := lossless
      rw [result] at accepted consumed written
      change res = .SocketOk at accepted
      subst accepted
      obtain ⟨same, amount⟩ := carried_of_consumed perfect.toSized (by exact sid_length) short arrives
        (ran.symm.trans result) consumed
      -- What is written holds the file, so it is as long as the file.
      have enough := congrArg List.length written
      change (after.written.flatten.take content.length).length = content.length at enough
      rw [List.length_take, amount, same] at enough
      exact ⟨few, same, by omega⟩
    · rintro ⟨-, same, enough⟩
      set state := sessionState nacl sid (store64Le (roundedSize (UInt64.ofNat content.length) roundup)) skA skB
        with state_def
      obtain ⟨after, received, rest⟩ := @delivered_of_carried nacl name content mtime r' state _ perfect small short
        sid_length faithful arrives enough
      rw [same] at ran
      obtain ⟨consumed, stat, written, buffer⟩ := rest
      constructor <;> rw [ran, received]
      · exact consumed
      · exact stat
      · exact written
      · exact buffer
  · constructor
    · intro lossless
      exact absurd lossless.accepted (transfer_refused found sends few)
    · rintro ⟨no, -⟩
      exact absurd no few

/-- Over a faithful connection a file arrives exactly when its rounding is compatible. -/
theorem transfer_lossless_iff (perfect : nacl.Perfect) (found : w.disk name = some (content, mtime))
    (small : content.length < 2 ^ 32) (short : name.length < 100) (sid_length : sid.length = 16)
    (sends : w.Faithful) (receives : r.Faithful) :
    Lossless nacl sid name content mtime roundup skA skB w r ↔ Compatible content.length roundup := by
  have size : (UInt64.ofNat content.length).toNat = content.length := Nat.mod_eq_of_lt (by omega)
  have compatible := @carried_iff_compatible (UInt64.ofNat content.length) roundup (by rw [size]; exact small)
  rw [size] at compatible
  rw [← compatible]
  exact lossless_iff_carried perfect found small short sid_length sends receives

end Transfers

/-- The boxes of the secretbox specification, between parties that share a key. -/
def secretboxes : NaCl where
  boxEasyAfternm m n k :=
    (Spec.SecretBox.secretboxDetached m k n).1 ++ (Spec.SecretBox.secretboxDetached m k n).2
  boxOpenEasyAfternm c n k :=
    if 16 ≤ c.length then Spec.SecretBox.secretboxOpenDetached (c.drop 16) (c.take 16) k n else none
  getPublicKey _ := 9 :: List.replicate 31 0
  boxBeforenm _ _ := List.replicate 32 0

theorem secretboxes_perfect : secretboxes.Perfect where
  box_length m n k := by
    simp only [secretboxes, Spec.SecretBox.secretboxDetached_eq, List.length_append, Spec.SecretBox.tag_length,
      Spec.SecretBox.encipher_length]
    omega
  open_length c n k m opened := by
    simp only [secretboxes, Spec.SecretBox.secretboxOpenDetached_eq] at opened
    split at opened
    · split at opened
      · rw [← Option.some.inj opened, Spec.SecretBox.encipher_length, List.length_drop]
        omega
      · cases opened
    · cases opened
  publicKey_length _ := by simp [secretboxes]
  agree _ _ := rfl
  open_box m n k := by
    have size : (Spec.SecretBox.secretboxDetached m k n).1.length = 16 := by
      rw [Spec.SecretBox.secretboxDetached_eq, Spec.SecretBox.tag_length]
    simp only [secretboxes]
    rw [if_pos (by rw [List.length_append, size]; omega), List.take_left' size, List.drop_left' size,
      Spec.SecretBox.secretboxOpenDetached_sealed]

/-- A process with one file of one byte, in a faithful environment. -/
def oneByte : World where
  succeeds _ := true
  clock := 0
  disk _ := some ([0x61], 1)
  file := initFileHandle
  incoming := []
  sent := []
  nonce := []
  boxes := []
  written := []

theorem transfer_lossless_unpadded :
    Lossless secretboxes (List.replicate 16 7) [0x66] [0x61] 1 0 [] [] oneByte oneByte ↔ Compatible 1 0 :=
  transfer_lossless_iff secretboxes_perfect rfl (by decide) (by decide) (by decide) (fun _ => rfl) (fun _ => rfl)

theorem transfer_lossless_fails : ¬ ∀ (nacl : NaCl) (sid name content skA skB : Bytes) (mtime roundup : UInt64)
    (w r : World), nacl.Perfect → w.disk name = some (content, mtime) → content.length < 2 ^ 32 →
    name.length < 100 → sid.length = 16 → w.Faithful → r.Faithful →
    Lossless nacl sid name content mtime roundup skA skB w r := by
  intro claimed
  have lossless := claimed secretboxes (List.replicate 16 7) [0x66] [0x61] [] [] 1 1024 oneByte oneByte
    secretboxes_perfect rfl (by decide) (by decide) (by decide) (fun _ => rfl) (fun _ => rfl)
  have carried := (lossless_iff_carried secretboxes_perfect rfl (by decide) (by decide) (by decide)
    (fun _ => rfl) (fun _ => rfl)).mp lossless
  -- One byte is padded by 1023 more, which are announced and not sent.
  exact absurd carried.2.1 (by decide)

end HaclStar.Correctness.Tube
