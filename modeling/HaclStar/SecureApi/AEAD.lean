import HaclStar.SecureApi.EnxorDexor

/-! Authenticated encryption with additional data, from the function, its pads and its authenticators. -/

namespace HaclStar.SecureApi.AEAD

open Endianness Memory PRF EnxorDexor

/-- An encryption: what was encrypted under which nonce, and what it yielded. -/
structure Entry where
  nonce : Cipher.Iv
  ad : Bytes
  l : Nat
  p : Bytes
  c : Bytes

/-- The state of the function, and the static authentication key. -/
structure State (i : Id) where
  prf : Bytes
  ak : Option Bytes

/-- What the function keeps, and the log of encryptions. -/
structure World (i : Id) where
  prf : PRF.World i
  log : List Entry

/-- The first entry with a nonce. -/
def findAeadEntry (n : Cipher.Iv) (entries : List Entry) : Option Entry := entries.find? fun e => e.nonce = n

section

variable {i : Id} (fl : Flags) (coins : Coins)

/-- An instance with a key. -/
def init (i : Id) (key : Bytes) : Option (State i × World i) := do
  let prf := Cipher.init fl i key
  let w : PRF.World i := ⟨[], [], []⟩
  if UF1CMA.skeyed i then (prfSk0 fl prf w).map fun (ak, w) => (⟨prf, some ak⟩, ⟨w, []⟩)
  else some (⟨prf, none⟩, ⟨w, []⟩)

/-- An instance with a random key. -/
def gen (i : Id) (random : Nat → UInt8) : Option (State i × World i) :=
  let key := (List.range (PRF.keylen i)).map random
  init fl i key

/-- An instance with a given key. -/
def coerce (i : Id) (key : Bytes) : Option (State i × World i) := init fl i key

/-- Log an encryption. -/
def doIdeal (n : Cipher.Iv) (aad plain cipherTag : Bytes) (w : World i) : World i :=
  let entry : Entry := ⟨n, aad, plain.length, plain, cipherTag⟩
  { w with log := w.log ++ [entry] }

/-- Encrypt a plaintext, and write the ciphertext and the tag. -/
def encrypt (st : State i) (n : Cipher.Iv) (aad plain cipherTagged : Bytes) (w : World i) :
    Option (Bytes × World i) := do
  let cipher := cipherTagged.take plain.length
  let x0 : Domain := ⟨n, ctr0 i⟩
  let (ak, prf) ← prfMac fl coins st.prf st.ak x0 w.prf
  let (cipher, prf) ← enxor fl coins st.prf n plain cipher prf
  let acc ← Encoding.accumulate fl ak (UInt32.ofNat aad.length) aad (UInt32.ofNat plain.length) cipher
  let (tag, logs) ← UF1CMA.mac fl n ak acc prf.logs
  let cipherTagged := splice cipherTagged 0 cipher
  let cipherTagged := splice cipherTagged plain.length tag
  let w : World i := { w with prf := { prf with logs } }
  let w := if fl.safeMac i then doIdeal n aad plain cipherTagged w else w
  return (cipherTagged, w)

/-- The plaintext that was verified, known from the log when encryption is ideal. -/
def getVerifiedPlain (n : Cipher.Iv) (w : World i) : Option (Option Bytes) :=
  if fl.safeId i then (findAeadEntry n w.log).map fun e => some e.p else some none

/-- Check the tag, and yield the plaintext that was verified. -/
def verify (n : Cipher.Iv) (ak : UF1CMA.State i) (acc : UF1CMA.Acc i) (tag : Bytes) (w : World i) :
    Option (Option (Option Bytes)) := do
  let b ← UF1CMA.verify fl ak acc tag w.prf.logs
  if b then (getVerifiedPlain fl n w).map some else some none

/-- Decrypt what was verified; the plaintext buffer is not written otherwise. -/
def decryptVerified (st : State i) (n : Cipher.Iv) (plain cipher : Bytes) (popt : Option (Option Bytes))
    (w : World i) : Option (Bool × Bytes × World i) :=
  match popt with
  | none => some (false, plain, w)
  | some _ => do
    let (plain, prf) ← dexor fl coins st.prf n plain cipher w.prf
    return (true, plain, { w with prf })

/-- Check the tag, and decrypt the ciphertext to the plaintext buffer when it is right. -/
def decrypt (st : State i) (n : Cipher.Iv) (aad plain cipherTagged : Bytes) (w : World i) :
    Option (Bool × Bytes × World i) := do
  let cipher := cipherTagged.take plain.length
  let tag := (cipherTagged.drop plain.length).take MAC.taglen
  let x0 : Domain := ⟨n, ctr0 i⟩
  let (ak, prf) ← prfMac fl coins st.prf st.ak x0 w.prf
  let w : World i := { w with prf }
  let acc ← Encoding.accumulate fl ak (UInt32.ofNat aad.length) aad (UInt32.ofNat plain.length) cipher
  let popt ← verify fl n ak acc tag w
  decryptVerified fl coins st n plain cipher popt w

end

end HaclStar.SecureApi.AEAD
