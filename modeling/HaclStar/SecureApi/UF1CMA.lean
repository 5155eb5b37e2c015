import HaclStar.SecureApi.Cipher
import HaclStar.SecureApi.MAC

/-! One-time authenticators, with a log of what each has authenticated in the ideal case. -/

namespace HaclStar.SecureApi.UF1CMA

open Endianness

/-- Length of the single-use part of the key. -/
def keylen : Id → Nat
  | .aes128Gcm => 16
  | .aes256Gcm => 16
  | .chacha20Poly1305 => 32

/-- Length of the static key. -/
def skeylen : Id → Nat
  | .aes128Gcm => 16
  | .aes256Gcm => 16
  | .chacha20Poly1305 => 0

/-- Does the algorithm use a static key? -/
def skeyed : Id → Bool
  | .aes128Gcm => true
  | .aes256Gcm => true
  | .chacha20Poly1305 => false

/-- A static key filled with zeros, when the algorithm uses one. -/
def akeyGen (i : Id) : Option Bytes :=
  if skeyed i then some (List.replicate (skeylen i) 0) else none

/-- Words, of which the last comes first. -/
abbrev Text := List Bytes

/-- The initialization vector, and what was authenticated under it, with its tag. -/
abbrev Log := Cipher.Iv × Option (Text × Bytes)

/-- The logs of all authenticators, in the order of their allocation. -/
abbrev Logs := List Log

/-- The two halves of the key, and the address of the log. -/
structure State (i : Id) where
  r : MAC.Elem (macAlgOfId i)
  s : Bytes
  log : Option Nat

/-- The static half of the key and the single-use half. -/
def halves (i : Id) (ak : Option Bytes) (k : Bytes) : Option (Bytes × Bytes) :=
  if skeyed i then ak.map fun rb => (rb, k) else some (k.take 16, (k.drop 16).take 16)

/-- Allocate an authenticator, and its log when there are logs. -/
def alloc (fl : Flags) (i : Id) (n : Cipher.Iv) (ak : Option Bytes) (k : Bytes) (logs : Logs) :
    Option (State i × Logs) := do
  let (rb, sb) ← halves i ak k
  let r ← MAC.encodeR (macAlgOfId i) rb
  let s := sb.take 16
  if fl.macLog then some (⟨r, s, some logs.length⟩, logs ++ [(n, none)]) else some (⟨r, s, none⟩, logs)

/-- An authenticator with a random key. -/
def gen (fl : Flags) (i : Id) (n : Cipher.Iv) (ak : Option Bytes) (random : Nat → UInt8) (logs : Logs) :
    Option (State i × Logs) :=
  let k := (List.range (keylen i)).map random
  alloc fl i n ak k logs

/-- An authenticator with a given key. -/
def coerce (fl : Flags) (i : Id) (n : Cipher.Iv) (ak : Option Bytes) (k : Bytes) (logs : Logs) :
    Option (State i × Logs) := alloc fl i n ak k logs

/-- The accumulator, and the words it has absorbed, kept when there are logs. -/
structure Acc (i : Id) where
  a : MAC.Elem (macAlgOfId i)
  l : Text

variable {i : Id}

/-- The accumulator before the first word. -/
def start (_st : State i) : Acc i := ⟨MAC.start (macAlgOfId i), []⟩

/-- Absorb a word. -/
def update (fl : Flags) (st : State i) (acc : Acc i) (w : Bytes) : Option (Acc i) := do
  let l := if fl.macLog then w :: acc.l else acc.l
  let a ← MAC.update (macAlgOfId i) st.r acc.a w
  return ⟨a, l⟩

/-- Write what was authenticated to the log. -/
def record (n : Cipher.Iv) (st : State i) (vs : Text) (t : Bytes) (logs : Logs) : Option Logs := do
  let log ← st.log
  return logs.set log (n, some (vs, t))

/-- The tag, which an ideal authenticator logs. -/
def mac (fl : Flags) (n : Cipher.Iv) (st : State i) (acc : Acc i) (logs : Logs) : Option (Bytes × Logs) := do
  let t ← MAC.finish (macAlgOfId i) acc.a st.s
  if fl.macLog then
    if fl.safeMac i then (record n st acc.l t logs).map fun logs => (t, logs) else some (t, logs)
  else some (t, logs)

/-- Compare what is verified with what was authenticated. -/
def verifyLog (st : State i) (vs : Text) (t : Bytes) (verified : Bool) (logs : Logs) : Option Bool := do
  let log ← st.log
  let entry ← logs[log]?
  match entry.2 with
  | some (vs', t') =>
    let correct := t == t' && vs == vs'
    some (verified && correct)
  | none => some false

/-- Check a tag; an ideal authenticator accepts only what it has authenticated. -/
def verify (fl : Flags) (st : State i) (acc : Acc i) (tag : Bytes) (logs : Logs) : Option Bool := do
  let computed ← MAC.finish (macAlgOfId i) acc.a st.s
  let verified := computed == tag
  if fl.macLog then
    if fl.safeMac i then verifyLog st acc.l computed verified logs else some verified
  else some verified

/-- A state holds both halves of its key. -/
structure Keyed (rb sb : Bytes) (st : State i) : Prop where
  rawSize : rb.length = 16
  maskSize : sb.length = 16
  mask : st.s = sb
  raw : MAC.Holds (macAlgOfId i) rb [] st.r (MAC.start (macAlgOfId i))

/-- An accumulator has absorbed words under a key. -/
structure Absorbed (fl : Flags) (rb : Bytes) (cs : Text) (st : State i) (acc : Acc i) : Prop where
  holds : MAC.Holds (macAlgOfId i) rb cs st.r acc.a
  logged : fl.macLog = true → acc.l = cs

variable {fl : Flags} {n : Cipher.Iv} {ak : Option Bytes} {k rb sb w tag : Bytes} {cs : Text} {logs : Logs}
  {st : State i} {acc : Acc i}

/-- The halves of the key have their sizes. -/
theorem halves_run (i : Id) (static : skeyed i = true → ∃ sk, ak = some sk ∧ sk.length = 16)
    (size : k.length = keylen i) :
    ∃ rb sb, halves i ak k = some (rb, sb) ∧ rb.length = 16 ∧ sb.length = 16 := by
  cases i with
  | aes128Gcm =>
    obtain ⟨sk, rfl, skSize⟩ := static rfl
    exact ⟨sk, k, rfl, skSize, size⟩
  | aes256Gcm =>
    obtain ⟨sk, rfl, skSize⟩ := static rfl
    exact ⟨sk, k, rfl, skSize, size⟩
  | chacha20Poly1305 =>
    have size : k.length = 32 := size
    exact ⟨k.take 16, (k.drop 16).take 16, rfl, by simp [size], by simp [size]⟩

/-- An allocated authenticator holds its key, and has an empty log of its own. -/
theorem alloc_run (fl : Flags) (n : Cipher.Iv) (logs : Logs) (cut : halves i ak k = some (rb, sb))
    (rawSize : rb.length = 16) (maskSize : sb.length = 16) :
    ∃ st : State i, Keyed rb sb st ∧ st.log = (if fl.macLog then some logs.length else none) ∧
      alloc fl i n ak k logs = some (st, if fl.macLog then logs ++ [(n, none)] else logs) := by
  obtain ⟨r, ran, holds⟩ := MAC.encodeR_run (macAlgOfId i) rawSize
  have whole : sb.take 16 = sb := List.take_of_length_le maskSize.le
  cases logging : fl.macLog with
  | true =>
    exact ⟨⟨r, sb, some logs.length⟩, ⟨rawSize, maskSize, rfl, holds⟩, rfl, by
      simp [alloc, cut, ran, whole, logging]⟩
  | false =>
    exact ⟨⟨r, sb, none⟩, ⟨rawSize, maskSize, rfl, holds⟩, rfl, by simp [alloc, cut, ran, whole, logging]⟩

/-- The first accumulator has absorbed nothing. -/
theorem start_absorbed (fl : Flags) (keyed : Keyed rb sb st) : Absorbed fl rb [] st (start st) :=
  ⟨keyed.raw, fun _ => rfl⟩

/-- A word is absorbed. -/
theorem update_run (absorbed : Absorbed fl rb cs st acc) (size : w.length = 16) :
    ∃ acc', update fl st acc w = some acc' ∧ Absorbed fl rb (w :: cs) st acc' := by
  obtain ⟨a, ran, holds⟩ := MAC.update_run absorbed.holds size
  refine ⟨⟨a, if fl.macLog then w :: acc.l else acc.l⟩, by simp [update, ran], holds, ?_⟩
  intro logging
  show (if fl.macLog then w :: acc.l else acc.l) = _
  rw [if_pos logging, absorbed.logged logging]

/-- Tagging and verifying compute the tag of the words absorbed. -/
theorem finish_run (keyed : Keyed rb sb st) (absorbed : Absorbed fl rb cs st acc) :
    MAC.finish (macAlgOfId i) acc.a st.s = some (MAC.mac (macAlgOfId i) cs rb sb) := by
  rw [keyed.mask]
  exact MAC.finish_run absorbed.holds keyed.maskSize

/-- Without ideal authenticators, the tag is computed and the logs are left alone. -/
theorem mac_real (n : Cipher.Iv) (logs : Logs) (clear : fl.safeMac i = false) (keyed : Keyed rb sb st) (absorbed : Absorbed fl rb cs st acc) :
    mac fl n st acc logs = some (MAC.mac (macAlgOfId i) cs rb sb, logs) := by
  have ran := finish_run keyed absorbed
  simp [mac, ran, clear]

/-- Without ideal authenticators, a tag is accepted when it is the one computed. -/
theorem verify_real (tag : Bytes) (logs : Logs) (clear : fl.safeMac i = false) (keyed : Keyed rb sb st)
    (absorbed : Absorbed fl rb cs st acc) :
    verify fl st acc tag logs = some (MAC.mac (macAlgOfId i) cs rb sb == tag) := by
  have ran := finish_run keyed absorbed
  simp [verify, ran, clear]

/-- An ideal authenticator logs what it authenticates. -/
theorem mac_ideal (set : fl.safeMac i = true) (keyed : Keyed rb sb st) (absorbed : Absorbed fl rb cs st acc)
    {log : Nat} (address : st.log = some log) :
    mac fl n st acc logs = some (MAC.mac (macAlgOfId i) cs rb sb,
      logs.set log (n, some (cs, MAC.mac (macAlgOfId i) cs rb sb))) := by
  have ran := finish_run keyed absorbed
  have logging := Flags.macLog_of_safeMac set
  simp [mac, record, ran, set, logging, address, absorbed.logged logging]

/-- An ideal authenticator that has authenticated nothing accepts nothing. -/
theorem verify_unused (set : fl.safeMac i = true) (keyed : Keyed rb sb st)
    (absorbed : Absorbed fl rb cs st acc) {log : Nat} (address : st.log = some log)
    (unused : logs[log]? = some (n, none)) : verify fl st acc tag logs = some false := by
  have ran := finish_run keyed absorbed
  have logging := Flags.macLog_of_safeMac set
  simp [verify, verifyLog, ran, set, logging, address, unused]

/-- An ideal authenticator accepts exactly what it has authenticated. -/
theorem verify_used (set : fl.safeMac i = true) (keyed : Keyed rb sb st) (absorbed : Absorbed fl rb cs st acc)
    {log : Nat} (address : st.log = some log) {cs' : Text}
    (used : logs[log]? = some (n, some (cs', MAC.mac (macAlgOfId i) cs' rb sb))) :
    verify fl st acc tag logs = some (decide (cs = cs' ∧ tag = MAC.mac (macAlgOfId i) cs' rb sb)) := by
  have ran := finish_run keyed absorbed
  have logging := Flags.macLog_of_safeMac set
  simp only [verify, verifyLog, ran, set, logging, address, used, absorbed.logged logging,
    Option.bind_eq_bind, Option.bind_some, if_true, Option.some_inj]
  -- Equal words have equal tags.
  by_cases same : cs = cs'
  · subst same
    by_cases right : tag = MAC.mac (macAlgOfId i) cs rb sb
    · simp [right]
    · simp [right, Ne.symm right]
  · simp [same]

end HaclStar.SecureApi.UF1CMA
