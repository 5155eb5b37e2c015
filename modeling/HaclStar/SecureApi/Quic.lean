import HaclStar.SecureApi.HKDF

/-! The labels under which the QUIC provider derives its secrets and keys. -/

namespace HaclStar.SecureApi.Quic

open Endianness Memory SecureApi.HMAC SecureApi.HKDF

/-- The hash functions of TLS; those before SHA-256 are refused. -/
inductive QuicHash where
  | weak
  | sha256
  | sha384
  | sha512
  deriving DecidableEq

/-- The hash function of the agile code. -/
def convertAlg : QuicHash → Alg
  | .sha256 => .sha256
  | .sha384 => .sha384
  | _ => .sha512

/-- The bytes of a hash. -/
def hlen : QuicHash → UInt32
  | .sha256 => 32
  | .sha384 => 48
  | _ => 64

def quicCryptoHash (a : QuicHash) (hash data : Buffer) (len : UInt64) : Stack Bool :=
  if a = .weak then pure false
  else do
    agileHash (convertAlg a) hash data len.toUInt32
    return true

/-- A string ends before its first zero. -/
def cString (bytes : Bytes) : Bytes := bytes.takeWhile (· ≠ 0)

/-- The length of a string; without a zero the search leaves the view. -/
def strlen (s : Buffer) : Stack Nat := do
  let bytes ← s.load
  if 0 ∈ bytes then return (cString bytes).length else Stack.fault

/-- The bytes in front of every label. -/
def tls13 : Bytes := [0x74, 0x6c, 0x73, 0x31, 0x33, 0x20]

/-- Write a label, and return the number of bytes written, or nothing when the label is refused. With key
length 0 the context is the hash of nothing and the output has the length of a hash; otherwise there is no
context. -/
def quicCryptoTlsLabel (a : QuicHash) (info label : Buffer) (keyLen : UInt16) : Stack (Option Nat) :=
  if a = .weak then pure none
  else do
    let labelLen ← strlen label
    if 249 < labelLen then return none
    else
      info.upd 0 (if keyLen ≠ 0 then (keyLen >>> 8).toUInt8 else 0)
      info.upd 1 (if keyLen ≠ 0 then (keyLen &&& 255).toUInt8 else (hlen a).toUInt8)
      info.upd 2 (UInt8.ofNat (labelLen + 6))
      let marker ← info.sub 3 6
      marker.store tls13
      Buffer.blit label 0 info 9 labelLen
      if keyLen ≠ 0 then
        info.upd (9 + labelLen) 0
        return some (labelLen + 10)
      else inFrame do
        let hash ← create (hlen a).toNat
        let hashed ← quicCryptoHash a hash label 0
        if hashed then
          info.upd (9 + labelLen) (hlen a).toUInt8
          Buffer.blit hash 0 info (labelLen + 10) (hlen a).toNat
          return some (labelLen + 10 + (hlen a).toNat)
        else return none

/-! What is written, and that the label and the key length can be read back from its beginning. -/

/-- What follows the string: no context, or the hash of nothing, each behind its length. -/
def context (a : QuicHash) (keyLen : UInt16) : Bytes :=
  if keyLen ≠ 0 then [0] else (hlen a).toUInt8 :: (spec (convertAlg a)).hash []

/-- What is in front of the string: the output length, the length of the label and the marker. -/
def header (a : QuicHash) (labelLen : Nat) (keyLen : UInt16) : Bytes :=
  [if keyLen ≠ 0 then (keyLen >>> 8).toUInt8 else 0,
    if keyLen ≠ 0 then (keyLen &&& 255).toUInt8 else (hlen a).toUInt8, UInt8.ofNat (labelLen + 6)] ++ tls13

/-- The bytes of a label. -/
def labelBytes (a : QuicHash) (label : Bytes) (keyLen : UInt16) : Bytes :=
  header a label.length keyLen ++ label ++ context a keyLen

section Bytes

variable {a : QuicHash} {label label' : Bytes} {keyLen keyLen' : UInt16}

/-- A hash has the length that is written in front of it. -/
theorem hlen_hashSize (a : QuicHash) : hashSize (convertAlg a) = hlen a := by
  cases a <;> rfl

theorem hash_nil_length (a : QuicHash) : ((spec (convertAlg a)).hash []).length = (hlen a).toNat := by
  rw [hash_length, hlen_hashSize]

theorem header_length (a : QuicHash) (labelLen : Nat) (keyLen : UInt16) : (header a labelLen keyLen).length = 9 := rfl

/-- A context is never empty, and starts with a zero exactly when it is the empty one. -/
theorem context_head (a : QuicHash) (keyLen : UInt16) :
    (context a keyLen)[0]? = some (if keyLen ≠ 0 then 0 else (hlen a).toUInt8) := by
  rw [context]
  split <;> rfl

theorem hlen_toUInt8_ne_zero (a : QuicHash) : (hlen a).toUInt8 ≠ 0 := by
  cases a <;> decide

/-- No label needs more room than the buffers of the callers have. -/
theorem labelBytes_length_le (short : label.length ≤ 249) : (labelBytes a label keyLen).length ≤ 323 := by
  have hash := hash_nil_length a
  have most : (hlen a).toNat ≤ 64 := by cases a <;> decide
  rw [labelBytes, List.length_append, List.length_append, header_length, context]
  split
  · rw [List.length_singleton]
    omega
  · rw [List.length_cons]
    omega

/-- The two bytes of a key length determine it. -/
theorem keyLen_of_bytes (high : (keyLen >>> 8).toUInt8 = (keyLen' >>> 8).toUInt8)
    (low : (keyLen &&& 255).toUInt8 = (keyLen' &&& 255).toUInt8) : keyLen = keyLen' := by
  apply UInt16.toNat.inj
  have high := congrArg UInt8.toNat high
  have low := congrArg UInt8.toNat low
  simp only [UInt16.toNat_toUInt8, UInt16.toNat_shiftRight, UInt16.toNat_and] at high low
  have mask (n : Nat) : n &&& 255 = n % 256 := Nat.and_two_pow_sub_one_eq_mod n 8
  have bound := keyLen.toNat_lt
  have bound' := keyLen'.toNat_lt
  rw [show (255 : UInt16).toNat = 255 from rfl, mask, mask] at low
  rw [show (8 : UInt16).toNat % 16 = 8 from rfl, Nat.shiftRight_eq_div_pow, Nat.shiftRight_eq_div_pow] at high
  omega

/-- No label starts another one. -/
theorem labelBytes_prefix (short : label.length ≤ 249) (short' : label'.length ≤ 249)
    (start : labelBytes a label keyLen <+: labelBytes a label' keyLen') : label = label' ∧ keyLen = keyLen' := by
  -- The third byte gives the length of the label, and the byte behind the label tells which layout it is.
  obtain ⟨rest, whole⟩ := start
  simp only [labelBytes, List.append_assoc] at whole
  obtain ⟨headers, bodies⟩ := List.append_inj whole rfl
  obtain ⟨bytes, -⟩ := List.append_inj headers rfl
  simp only [List.cons.injEq, and_true] at bytes
  obtain ⟨high, low, size⟩ := bytes
  have size := congrArg UInt8.toNat size
  rw [UInt8.toNat_ofNat', UInt8.toNat_ofNat'] at size
  obtain ⟨labels, contexts⟩ := List.append_inj bodies (by omega)
  refine ⟨labels, ?_⟩
  have first : (context a keyLen)[0]? = (context a keyLen')[0]? := by
    rw [← contexts, List.getElem?_append_left]
    rw [context]
    split <;> simp
  rw [context_head, context_head, Option.some_inj] at first
  have some := hlen_toUInt8_ne_zero a
  by_cases zero : keyLen = 0
  · by_cases zero' : keyLen' = 0
    · rw [zero, zero']
    · rw [if_neg (not_not.mpr zero), if_pos zero'] at first
      exact absurd first some
  · by_cases zero' : keyLen' = 0
    · rw [if_pos zero, if_neg (not_not.mpr zero')] at first
      exact absurd first.symm some
    · rw [if_pos zero, if_pos zero'] at high low
      exact keyLen_of_bytes high low

end Bytes

section Runs

variable {a : QuicHash} {h : Mem} {info label : Buffer} {keyLen : UInt16}

/-- What a label relies on: a buffer of the size that all callers have, and a string that ends in its view. -/
structure LabelViews (h : Mem) (info label : Buffer) : Prop where
  liveInfo : h.Live info
  liveLabel : h.Live label
  room : 323 ≤ info.length
  ends : 0 ∈ h.read label
  apart : info.Disjoint label

/-- The string at a view. -/
def stringAt (h : Mem) (label : Buffer) : Bytes := cString (h.read label)

/-- The length of a string that ends in its view. -/
theorem strlen_run (live : h.Live label) (ends : 0 ∈ h.read label) :
    strlen label h = some ((stringAt h label).length, h) := by
  rw [strlen, Stack.bind_run (Buffer.load_run live), if_pos ends]
  rfl

/-- The string is the beginning of its view. -/
theorem take_stringAt (h : Mem) (label : Buffer) :
    (h.read label).take (stringAt h label).length = stringAt h label :=
  (List.prefix_iff_eq_take.mp (List.takeWhile_prefix _)).symm

/-- The hash of nothing. -/
theorem quicCryptoHash_run {hash : Buffer} (strong : a ≠ .weak) (live : h.Live hash) (live' : h.Live label)
    (size : hash.length = (hlen a).toNat) :
    quicCryptoHash a hash label 0 h = some (true, h.write hash ((spec (convertAlg a)).hash [])) := by
  have hashed := Impl.SHA2.hash_run (hashModule_implements (convertAlg a)) live
    (live'.slice (i := 0) (n := 0) (by omega)) (by rw [size, ← hlen_hashSize, hashSize_toNat])
    (show (label.slice 0 0).length = (0 : UInt32).toNat from rfl)
    (by have := count_bound (convertAlg a); rw [UInt32.toNat_zero, Nat.zero_div]; omega)
  have announced := @hash_announced _ _ (hashModule (convertAlg a)) hash label 0 (Nat.zero_le _)
  have nothing : h.read (label.slice 0 0) = [] := by rw [Mem.read, Buffer.slice_length, List.take_zero]
  rw [nothing] at hashed
  rw [quicCryptoHash, if_neg strong, agileHash]
  exact Stack.bind_run ((congrFun announced h).trans hashed) _

/-- Everything up to the string is written, one piece behind the other. -/
theorem writeString_run (views : LabelViews h info label) (x0 x1 x2 : UInt8)
    (short : (stringAt h label).length ≤ 249) {α : Type} (next : Stack α) :
    (do
      info.upd 0 x0
      info.upd 1 x1
      info.upd 2 x2
      let marker ← info.sub 3 6
      marker.store tls13
      Buffer.blit label 0 info 9 (stringAt h label).length
      next) h = next (h.write info ([x0, x1, x2] ++ tls13 ++ stringAt h label)) := by
  have live := views.liveInfo
  have room := views.room
  have size : (stringAt h label).length ≤ label.length := by
    rw [← Mem.read_length views.liveLabel]
    exact (List.takeWhile_prefix _).length_le
  have step0 : info.upd 0 x0 h = some ((), h.write info [x0]) :=
    (congrArg (info.upd 0 x0) (Mem.write_nil live).symm).trans (upd_append live [] (by rw [List.length_nil]; omega) x0)
  have step1 : info.upd 1 x1 (h.write info [x0]) = some ((), h.write info [x0, x1]) :=
    upd_append live [x0] (by rw [List.length_singleton]; omega) x1
  have step2 : info.upd 2 x2 (h.write info [x0, x1]) = some ((), h.write info [x0, x1, x2]) :=
    upd_append live [x0, x1] (show 2 < info.length by omega) x2
  have live3 : (h.write info [x0, x1, x2]).Live info := live.write live (show 3 ≤ info.length by omega)
  have step3 : (info.slice 3 6).store tls13 (h.write info [x0, x1, x2]) =
      some ((), h.write info ([x0, x1, x2] ++ tls13)) := by
    rw [Buffer.store_run (b := info.slice 3 6) (x := tls13) (live3.slice (by omega)) (Nat.le_refl 6)]
    exact congrArg some (congrArg ((), ·) (Mem.write_append live [x0, x1, x2] tls13 6
      (show 3 + 6 ≤ info.length by omega) (Nat.le_refl 6) (show 3 + 6 ≤ info.length by omega)))
  have written : ([x0, x1, x2] ++ tls13).length ≤ info.length := show 9 ≤ info.length by omega
  have step4 : Buffer.blit label 0 info 9 (stringAt h label).length (h.write info ([x0, x1, x2] ++ tls13)) = _ :=
    blit_append live ([x0, x1, x2] ++ tls13) (views.liveLabel.write live written) size
      (show 9 + (stringAt h label).length ≤ info.length by omega)
  rw [Mem.read_write_disjoint live written views.apart, take_stringAt] at step4
  rw [Stack.bind_run step0, Stack.bind_run step1, Stack.bind_run step2,
    Stack.bind_run (Buffer.sub_run _ (show 3 + 6 ≤ info.length by omega)), Stack.bind_run step3, Stack.bind_run step4]

/-- The hash of nothing behind its length. -/
theorem writeContext_run (strong : a ≠ .weak) (live : h.Live info) (liveLabel : h.Live label) (w : Bytes)
    (room : w.length + 1 + (hlen a).toNat ≤ info.length) (result : Nat) :
    inFrame (do
      let hash ← create (hlen a).toNat
      let hashed ← quicCryptoHash a hash label 0
      if hashed then
        info.upd w.length (hlen a).toUInt8
        Buffer.blit hash 0 info (w.length + 1) (hlen a).toNat
        return some result
      else return none) (h.write info w) =
    some (some result, h.write info (w ++ (hlen a).toUInt8 :: (spec (convertAlg a)).hash [])) := by
  have fits : w.length ≤ info.length := by omega
  set h' := h.write info w with written
  set digest := (spec (convertAlg a)).hash [] with digest_def
  set hash := h'.fresh (hlen a).toNat with hash_def
  have live' : h'.Live info := live.write live fits
  have fresh : (h'.alloc (hlen a).toNat).Live hash := Mem.fresh_live h' _
  have outer1 : h'.Outer (h'.alloc (hlen a).toNat) := (Mem.Outer.refl h').alloc _
  have hashed := quicCryptoHash_run strong fresh (outer1.live (liveLabel.write live fits)) rfl
  rw [← digest_def] at hashed
  have size : digest.length = (hlen a).toNat := hash_nil_length a
  have outer2 : h'.Outer ((h'.alloc (hlen a).toNat).write hash digest) := outer1.write_new (b := hash) le_rfl digest
  set m := (h'.alloc (hlen a).toNat).write hash digest with m_def
  have liveInfo : m.Live info := outer2.live live'
  have liveHash : m.Live hash := fresh.write fresh size.le
  have livePart : h'.Live (info.slice w.length 1) := live'.slice (by omega)
  have byte : (m.write (info.slice w.length 1) [(hlen a).toUInt8]).Live hash :=
    liveHash.write (liveInfo.slice (by omega)) (Nat.le_refl 1)
  have step1 : info.upd w.length (hlen a).toUInt8 m = _ := Buffer.upd_run liveInfo (by omega) _
  have outer3 := outer2.write_old livePart [(hlen a).toUInt8]
  have joined : h'.write (info.slice w.length 1) [(hlen a).toUInt8] = h.write info (w ++ [(hlen a).toUInt8]) :=
    Mem.write_append live w _ 1 (show w.length + 1 ≤ info.length by omega) (Nat.le_refl 1) (by omega)
  have liveInfo' : (m.write (info.slice w.length 1) [(hlen a).toUInt8]).Live info :=
    liveInfo.write (liveInfo.slice (by omega)) (Nat.le_refl 1)
  have step2 := Buffer.blit_run byte liveInfo' (show 0 + (hlen a).toNat ≤ hash.length from (Nat.zero_add _).le)
    (show w.length + 1 + (hlen a).toNat ≤ info.length from room)
  -- Writing to the outer buffer leaves the hash in the frame alone.
  have kept : (m.write (info.slice w.length 1) [(hlen a).toUInt8]).read hash = digest := by
    rw [outer2.read_local livePart (List.length_singleton (a := (hlen a).toUInt8)).le hash le_rfl, m_def,
      Mem.read_write_same fresh size]
  rw [kept, List.drop_zero, List.take_of_length_le size.le] at step2
  have whole : h.write info (w ++ (hlen a).toUInt8 :: digest) =
      (h'.write (info.slice w.length 1) [(hlen a).toUInt8]).write
        (info.slice (w.length + 1) (hlen a).toNat) digest := by
    have last := Mem.write_append live (w ++ [(hlen a).toUInt8]) digest (hlen a).toNat
      (by rw [List.length_append, List.length_singleton]; omega) size.le
      (by rw [List.length_append, List.length_singleton]; omega)
    rw [joined, List.append_cons]
    rw [List.length_append, List.length_singleton] at last
    exact last.symm
  refine inFrame_outer (m := (m.write (info.slice w.length 1) [(hlen a).toUInt8]).write
    (info.slice (w.length + 1) (hlen a).toNat) digest) ?_ ?_ (by simp only [written, Mem.write_length])
  · rw [Stack.bind_run (create_run _), Stack.bind_run hashed, if_pos rfl, Stack.bind_run step1,
      Stack.bind_run step2, Stack.pure_run]
  · rw [whole]
    have liveLast : (h'.write (info.slice w.length 1) [(hlen a).toUInt8]).Live info :=
      live'.write livePart (List.length_singleton (a := (hlen a).toUInt8)).le
    exact outer3.write_old (liveLast.slice (by omega)) digest

/-- A label that is too long is refused before anything is written. -/
theorem quicCryptoTlsLabel_refuses (views : LabelViews h info label) (long : 249 < (stringAt h label).length) :
    quicCryptoTlsLabel a info label keyLen h = some (none, h) := by
  rw [quicCryptoTlsLabel]
  split
  · rfl
  · rw [Stack.bind_run (strlen_run views.liveLabel views.ends), if_pos long]
    rfl

/-- Any other label is written from the start of the buffer on. -/
theorem quicCryptoTlsLabel_run (strong : a ≠ .weak) (views : LabelViews h info label)
    (short : (stringAt h label).length ≤ 249) :
    quicCryptoTlsLabel a info label keyLen h =
      some (some (labelBytes a (stringAt h label) keyLen).length,
        h.write info (labelBytes a (stringAt h label) keyLen)) := by
  have room := views.room
  have most : (hlen a).toNat ≤ 64 := by cases a <;> decide
  have written : (header a (stringAt h label).length keyLen ++ stringAt h label).length =
      9 + (stringAt h label).length := by rw [List.length_append, header_length]
  have reached : quicCryptoTlsLabel a info label keyLen h =
      (if keyLen ≠ 0 then do
        info.upd (9 + (stringAt h label).length) 0
        return some ((stringAt h label).length + 10)
      else inFrame do
        let hash ← create (hlen a).toNat
        let hashed ← quicCryptoHash a hash label 0
        if hashed then
          info.upd (9 + (stringAt h label).length) (hlen a).toUInt8
          Buffer.blit hash 0 info ((stringAt h label).length + 10) (hlen a).toNat
          return some ((stringAt h label).length + 10 + (hlen a).toNat)
        else return none)
      (h.write info (header a (stringAt h label).length keyLen ++ stringAt h label)) := by
    rw [quicCryptoTlsLabel, if_neg strong, Stack.bind_run (strlen_run views.liveLabel views.ends),
      if_neg (by omega), writeString_run views _ _ _ short]
    rfl
  rw [reached]
  by_cases explicit : keyLen ≠ 0
  · -- The key length is given, and the context empty.
    have empty : context a keyLen = [0] := if_pos explicit
    have step := upd_append views.liveInfo (header a (stringAt h label).length keyLen ++ stringAt h label)
      (by omega) 0
    rw [written] at step
    rw [if_pos explicit, labelBytes, empty, List.length_append, written]
    exact (Stack.bind_run step _).trans (by rw [Stack.pure_run, List.length_singleton, Nat.add_right_comm, Nat.add_comm])
  · have hashed : context a keyLen = (hlen a).toUInt8 :: (spec (convertAlg a)).hash [] := if_neg explicit
    have step := writeContext_run strong views.liveInfo views.liveLabel
      (header a (stringAt h label).length keyLen ++ stringAt h label) (by omega)
      ((stringAt h label).length + 10 + (hlen a).toNat)
    have size : 9 + (stringAt h label).length + 1 = (stringAt h label).length + 10 := by omega
    have total : 9 + (stringAt h label).length + ((hlen a).toNat + 1) =
        (stringAt h label).length + 10 + (hlen a).toNat := by omega
    rw [written, size] at step
    rw [if_neg explicit, labelBytes, hashed, List.length_append, written, List.length_cons, hash_nil_length, total]
    exact step

end Runs

end HaclStar.SecureApi.Quic
