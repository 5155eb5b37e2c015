import HaclStar.Lib.Endianness

/-! The algorithms of an instance, and the flags that make parts of it ideal. -/

namespace HaclStar.SecureApi

open Endianness

inductive MacAlg where
  | poly1305
  | ghash
  deriving DecidableEq

inductive CipherAlg where
  | aes128
  | aes256
  | chacha20
  deriving DecidableEq

inductive AeadAlg where
  | aes128Gcm
  | aes256Gcm
  | chacha20Poly1305
  deriving DecidableEq

/-- An instance is indexed by its algorithm. -/
abbrev Id := AeadAlg

def macAlgOfId : Id → MacAlg
  | .aes128Gcm => .ghash
  | .aes256Gcm => .ghash
  | .chacha20Poly1305 => .poly1305

def cipherAlgOfId : Id → CipherAlg
  | .aes128Gcm => .aes128
  | .aes256Gcm => .aes256
  | .chacha20Poly1305 => .chacha20

/-- An AES-128 in assembly: of its two functions, only the sizes of what they write are relied on. -/
structure Vale where
  keyExpansion : Bytes → Bytes → Bytes
  cipher : Bytes → Bytes → Bytes → Bytes
  keyExpansion_length : ∀ key sb, (keyExpansion key sb).length = 176
  cipher_length : ∀ input w sb, (cipher input w sb).length = 16

/-- The flags, with the dependencies between them. -/
structure Flags where
  /-- Idealizes each cipher as a random function. -/
  cipherPrf : CipherAlg → Bool
  /-- Keeps logs for all authenticators. -/
  macLog : Bool
  /-- Idealizes each one-time authenticator. -/
  macInt1cma : MacAlg → Bool
  /-- Keys are fresh. -/
  safeHS : Id → Bool
  /-- Idealizes encryption as well. -/
  safeId : Id → Bool
  /-- AES reads its whole table. -/
  aesCt : Bool
  /-- The AES-128 in assembly, where it is chosen. -/
  vale : Option Vale
  mac1_implies_prf : ∀ i, (macLog && macInt1cma (macAlgOfId i)) = true →
    (safeHS i && cipherPrf (cipherAlgOfId i)) = true
  safeId_implies_mac1 : ∀ i, safeId i = true → (macLog && macInt1cma (macAlgOfId i)) = true

namespace Flags

/-- The cipher of the instance is a random function. -/
def prf (fl : Flags) (i : Id) : Bool := fl.safeHS i && fl.cipherPrf (cipherAlgOfId i)

/-- The authenticators of the instance are ideal. -/
def mac1 (fl : Flags) (i : Id) : Bool := fl.macLog && fl.macInt1cma (macAlgOfId i)

/-- The authenticators of the instance are ideal, and its keys fresh. -/
def safeMac (fl : Flags) (i : Id) : Bool := fl.safeHS i && fl.mac1 i

/-- All flags off: the implementation that is extracted. -/
def real : Flags where
  cipherPrf _ := false
  macLog := false
  macInt1cma _ := false
  safeHS _ := false
  safeId _ := false
  aesCt := false
  vale := none
  mac1_implies_prf _ set := set
  safeId_implies_mac1 _ set := set

variable {fl : Flags} {i : Id}

/-- Ideal authenticators are keyed by a random function. -/
theorem prf_of_mac1 (set : fl.mac1 i = true) : fl.prf i = true := fl.mac1_implies_prf i set

theorem mac1_of_safeMac (set : fl.safeMac i = true) : fl.mac1 i = true := (Bool.and_eq_true_iff.mp set).2

theorem macLog_of_safeMac (set : fl.safeMac i = true) : fl.macLog = true :=
  (Bool.and_eq_true_iff.mp (mac1_of_safeMac set)).1

/-- Ideal encryption needs ideal authenticators. -/
theorem safeMac_of_safeId (set : fl.safeId i = true) : fl.safeMac i = true := by
  have authentic : fl.mac1 i = true := fl.safeId_implies_mac1 i set
  have fresh : fl.safeHS i = true := (Bool.and_eq_true_iff.mp (prf_of_mac1 authentic)).1
  rw [safeMac, fresh, authentic, Bool.and_self]

theorem prf_of_safeId (set : fl.safeId i = true) : fl.prf i = true :=
  prf_of_mac1 (fl.safeId_implies_mac1 i set)

/-- With a concrete cipher, nothing is ideal. -/
theorem safeMac_of_not_prf (clear : fl.prf i = false) : fl.safeMac i = false := by
  cases set : fl.safeMac i with
  | false => rfl
  | true => rw [prf_of_mac1 (mac1_of_safeMac set)] at clear; exact clear

theorem safeId_of_not_prf (clear : fl.prf i = false) : fl.safeId i = false := by
  cases set : fl.safeId i with
  | false => rfl
  | true => rw [prf_of_safeId set] at clear; exact clear

end Flags

end HaclStar.SecureApi
