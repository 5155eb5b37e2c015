import HaclStar.Lib.Keystream
import HaclStar.SecureApi.UF1CMA

/-! The block function at a point, or in the ideal case a random function sampled when it is needed. -/

namespace HaclStar.SecureApi.PRF

open Endianness Keystream

def blocklen (i : Id) : Nat := Cipher.blocklen (cipherAlgOfId i)

def keylen (i : Id) : Nat := Cipher.keylen (cipherAlgOfId i)

def statelen (i : Id) : Nat := Cipher.statelen (cipherAlgOfId i)

/-- The largest counter. -/
def maxCtr (i : Id) : UInt32 := (16384 : UInt32) / UInt32.ofNat (blocklen i)

/-- A point: an initialization vector and a counter. -/
structure Domain where
  iv : Cipher.Iv
  ctr : UInt32
  deriving DecidableEq

def incr (x : Domain) : Domain := { x with ctr := x.ctr + 1 }

/-- The counter of the authenticator: a static key is taken from the counter below. -/
def ctr0 (i : Id) : UInt32 := if UF1CMA.skeyed i then 1 else 0

/-- A plaintext block, and the ciphertext block sampled for it. -/
structure OTP where
  l : Nat
  plain : Bytes
  cipher : Bytes

/-- What the function yields at a point: a static key, an authenticator, both sides of a one-time pad, or a
block. -/
inductive Range (i : Id) where
  | sk0 (k : Bytes)
  | mac (st : UF1CMA.State i)
  | otp (o : OTP)
  | blk (b : Bytes)

namespace Range

variable {i : Id}

def sk0Range : Range i → Option Bytes
  | .sk0 k => some k
  | _ => none

def macRange : Range i → Option (UF1CMA.State i)
  | .mac st => some st
  | _ => none

def otpRange : Range i → Option OTP
  | .otp o => some o
  | _ => none

def blkRange : Range i → Option Bytes
  | .blk b => some b
  | _ => none

end Range

structure Entry (i : Id) where
  x : Domain
  range : Range i

abbrev Table (i : Id) := List (Entry i)

/-- The first entry at a point. -/
def find {i : Id} (s : Table i) (x : Domain) : Option (Range i) := (s.find? fun e => e.x = x).map Entry.range

/-- The table of the ideal function, the logs of its authenticators, and the points at which the block
function was computed, of which the code keeps no record. -/
structure World (i : Id) where
  table : Table i
  logs : UF1CMA.Logs
  requested : List Domain

/-- The random bytes for each point. -/
abbrev Coins := Domain → Nat → UInt8

def randomBytes (coins : Coins) (x : Domain) (len : Nat) : Bytes := (List.range len).map (coins x)

section

variable {i : Id} (fl : Flags) (coins : Coins) (key : Bytes)

/-- The first bytes of the block at a point. -/
def getBlock (i : Id) (x : Domain) (len : Nat) (w : World i) : Option (Bytes × World i) := do
  let output ← Cipher.compute fl i key x.iv x.ctr len
  return (output, { w with requested := w.requested ++ [x] })

/-- The authenticator at a point: the one in the table, a new one with a random key, or one keyed by a block. -/
def prfMac (k0 : Option Bytes) (x : Domain) (w : World i) : Option (UF1CMA.State i × World i) :=
  if fl.prf i then
    match find w.table x with
    | some range => range.macRange.map fun mc => (mc, w)
    | none => do
      let (mc, logs) ← UF1CMA.gen fl i x.iv k0 (coins x) w.logs
      return (mc, { w with table := w.table ++ [⟨x, .mac mc⟩], logs })
  else do
    let (keyBuffer, w) ← getBlock fl key i x (UF1CMA.keylen i) w
    let (mc, logs) ← UF1CMA.coerce fl i x.iv k0 keyBuffer w.logs
    return (mc, { w with logs })

/-- The static key. -/
def prfSk0 (w : World i) : Option (Bytes × World i) :=
  let x : Domain := ⟨0, 0⟩
  if fl.prf i then
    match find w.table x with
    | some range => range.sk0Range.map fun sk0 => (sk0, w)
    | none => do
      let sk0 ← UF1CMA.akeyGen i
      return (sk0, { w with table := w.table ++ [⟨x, .sk0 sk0⟩] })
  else getBlock fl key i x (UF1CMA.skeylen i) w

/-- The block at a point: the one in the table, a random one, or the concrete one. -/
def prfBlk (x : Domain) (len : Nat) (w : World i) : Option (Bytes × World i) :=
  if fl.prf i then
    match find w.table x with
    | some range => range.blkRange.map fun block => (block.take len, w)
    | none =>
      let block := randomBytes coins x (blocklen i)
      some (block.take len, { w with table := w.table ++ [⟨x, .blk block⟩] })
  else getBlock fl key i x len w

/-- Decrypt a block: by the plaintext kept at its point, or by the block there. -/
def prfDexor (x : Domain) (l : Nat) (cipher : Bytes) (w : World i) : Option (Bytes × World i) :=
  if fl.safeId i then do
    let range ← find w.table x
    let o ← range.otpRange
    return (o.plain, w)
  else do
    let (plain, w) ← prfBlk fl coins key x l w
    return (xor plain cipher, w)

/-- Encrypt a block: to random bytes kept with it, or by the block at its point. -/
def prfEnxor (x : Domain) (l : Nat) (plain : Bytes) (w : World i) : Option (Bytes × World i) :=
  if fl.safeId i then
    let c := randomBytes coins x l
    some (c, { w with table := w.table ++ [⟨x, .otp ⟨l, plain, c⟩⟩] })
  else do
    let (cipher, w) ← prfBlk fl coins key x l w
    return (xor cipher plain, w)

end

variable {i : Id} {fl : Flags} {coins : Coins} {key : Bytes} {x y : Domain} {w : World i} {table : Table i}

theorem blocklen_pos (i : Id) : 0 < blocklen i := by
  cases i with
  | aes128Gcm => exact Nat.succ_pos _
  | aes256Gcm => exact Nat.succ_pos _
  | chacha20Poly1305 => exact Nat.succ_pos _

/-- The largest counter covers the longest plaintext. -/
theorem maxCtr_mul (i : Id) : (maxCtr i).toNat * blocklen i = 16384 := by
  cases i with
  | aes128Gcm => rfl
  | aes256Gcm => rfl
  | chacha20Poly1305 => rfl

@[simp] theorem randomBytes_length (coins : Coins) (x : Domain) (len : Nat) :
    (randomBytes coins x len).length = len := by
  simp [randomBytes]

@[simp] theorem find_nil (x : Domain) : find ([] : Table i) x = none := rfl

/-- Entries are appended behind the ones that are found first. -/
theorem find_append (table suffix : Table i) (x : Domain) :
    find (table ++ suffix) x = (find table x).or (find suffix x) := by
  rw [find, find, find, List.find?_append, Option.map_or]

/-- An entry appended at a fresh point is found there. -/
theorem find_snoc (fresh : find table x = none) (range : Range i) :
    find (table ++ [⟨x, range⟩]) x = some range := by
  rw [find_append, fresh]
  simp [find]

/-- An entry appended at a point changes no other. -/
theorem find_snoc_ne (different : y ≠ x) (table : Table i) (range : Range i) :
    find (table ++ [⟨x, range⟩]) y = find table y := by
  rw [find_append]
  simp [find, Ne.symm different]

/-- What is found is not changed by entries appended. -/
theorem find_mono {range : Range i} (found : find table x = some range) (suffix : Table i) :
    find (table ++ suffix) x = some range := by
  rw [find_append, found, Option.some_or]

/-- Nothing is found exactly at the points of no entry. -/
theorem find_eq_none : find table x = none ↔ x ∉ table.map Entry.x := by
  simp [find, List.find?_eq_none]

/-- The block function yields a prefix of the block, and its point is recorded. -/
theorem getBlock_run (fl : Flags) (size : key.length = statelen i) (x : Domain) {len : Nat} (short : len ≤ blocklen i)
    (w : World i) :
    getBlock fl key i x len w = some ((Cipher.block fl i key x.iv x.ctr).take len,
      { w with requested := w.requested ++ [x] }) := by
  rw [getBlock, Cipher.compute_run size short]
  rfl

end HaclStar.SecureApi.PRF
