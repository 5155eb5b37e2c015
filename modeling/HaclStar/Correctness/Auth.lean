import HaclStar.Api.Auth
import HaclStar.Correctness.SecretBox

/-! The NaCl authenticator against HMAC-SHA2-256 under the 32-byte key. -/

namespace HaclStar.Correctness.Auth

open Endianness Memory Api.Haclnacl SecretBox

/-- Sealing writes the authenticator of the key and the input, and verification accepts exactly that tag,
whatever else is stored in memory. -/
def Authenticates (key data : Bytes) : Prop :=
  ∀ (h : Mem) (tag input : Buffer) (inputLen : UInt64) (keyb : Buffer),
    AuthArgs h tag input inputLen keyb → h.read keyb = key → h.read input = data →
    cryptoAuth tag input inputLen keyb h = some (0, h.write tag (Spec.HMAC.hmac key data)) ∧
    cryptoAuthVerify tag input inputLen keyb h =
      some (if h.read tag = Spec.HMAC.hmac key data then 0 else -1, h)

/-- A memory with a tag, an input, and a key that nothing is stored behind. -/
def exactMem (key data : Bytes) : Mem := [List.replicate 32 0, data, key]

variable {key data : Bytes}

/-- A 32-byte key is brought to one block with zeros. -/
theorem wrapKey_short (size : key.length = 32) :
    Spec.HMAC.wrapKey key = key ++ List.replicate 32 0 := by
  have block : Spec.SHA2.sizeBlock 4 = 64 := rfl
  rw [Spec.HMAC.wrapKey, if_pos (by omega), size]
  rfl

/-- The memory has the arguments. -/
theorem exactMem_args (size : key.length = 32) (bounded : data.length < 2 ^ 32 - 64) :
    AuthArgs (exactMem key data) (whole 0 32) (whole 1 data.length) (UInt64.ofNat data.length)
      (whole 2 32) := by
  constructor
  case liveTag => exact ⟨by simp [exactMem, whole], by simp [exactMem, whole, Mem.block]⟩
  case liveInput => exact ⟨by simp [exactMem, whole], by simp [exactMem, whole, Mem.block]⟩
  case liveKey => exact ⟨by simp [exactMem, whole], by simp [exactMem, whole, Mem.block, size]⟩
  case tagSize => rfl
  case keySize => rfl
  case inputSize =>
    rw [UInt64.toNat_ofNat_of_lt' (show data.length < 2 ^ 64 by omega)]
    rfl
  case bounded =>
    rw [UInt64.toNat_ofNat_of_lt' (show data.length < 2 ^ 64 by omega)]
    exact bounded

/-- Nothing is stored behind the key. -/
theorem exactMem_beyond (size : key.length = 32) :
    ¬ (exactMem key data).Live ((whole 2 32).slice 0 64) := by
  intro live
  have bound := live.2
  simp [exactMem, whole, Mem.block, size] at bound

/-- For no key and input are the functions right in every memory: without bytes behind the key they leave
its object. -/
theorem not_authenticates (size : key.length = 32) (bounded : data.length < 2 ^ 32 - 64) :
    ¬ Authenticates key data := by
  intro claimed
  have args := exactMem_args size bounded
  have ran := (claimed _ _ _ _ _ args (by simp [exactMem, whole, Mem.read, Mem.block, size])
    (by simp [exactMem, whole, Mem.read, Mem.block])).1
  rw [cryptoAuth_fault args (exactMem_beyond size)] at ran
  cases ran

/-- The functions never authenticate under the 32-byte key alone. They leave the object of a key that has
fewer than 32 bytes behind it, and otherwise use these bytes as the second half of a 64-byte key, which is
right when they are zero. -/
theorem auth_uses_following_bytes (size : key.length = 32) (bounded : data.length < 2 ^ 32 - 64) :
    ¬ Authenticates key data ∧
    ∀ (h : Mem) (tag input : Buffer) (inputLen : UInt64) (keyb : Buffer),
      AuthArgs h tag input inputLen keyb → h.read keyb = key → h.read input = data →
      (¬ h.Live (keyb.slice 0 64) →
        cryptoAuth tag input inputLen keyb h = none ∧ cryptoAuthVerify tag input inputLen keyb h = none) ∧
      (h.Live (keyb.slice 0 64) →
        cryptoAuth tag input inputLen keyb h =
          some (0, h.write tag (Spec.HMAC.hmacCore (key ++ h.read (keyb.slice 32 32)) data)) ∧
        cryptoAuthVerify tag input inputLen keyb h =
          some (if h.read tag = Spec.HMAC.hmacCore (key ++ h.read (keyb.slice 32 32)) data then 0 else -1, h)) ∧
      (h.Live (keyb.slice 0 64) → h.read (keyb.slice 32 32) = List.replicate 32 0 →
        cryptoAuth tag input inputLen keyb h = some (0, h.write tag (Spec.HMAC.hmac key data)) ∧
        cryptoAuthVerify tag input inputLen keyb h =
          some (if h.read tag = Spec.HMAC.hmac key data then 0 else -1, h)) := by
  refine ⟨not_authenticates size bounded, ?_⟩
  rintro h tag input inputLen keyb args rfl rfl
  refine ⟨fun beyond => ⟨cryptoAuth_fault args beyond, cryptoAuthVerify_fault args beyond⟩,
    fun readable => ⟨cryptoAuth_run args readable, cryptoAuthVerify_run args readable⟩,
    fun readable zeros => ?_⟩
  -- Zeros behind the key complete it as the specification does.
  have wrapped : keyBlock h keyb = Spec.HMAC.wrapKey (h.read keyb) := by
    rw [keyBlock, zeros, wrapKey_short size]
  have sealed := cryptoAuth_run args readable
  have verified := cryptoAuthVerify_run args readable
  rw [wrapped] at sealed verified
  exact ⟨sealed, verified⟩

theorem auth_uses_following_bytes_zero : ¬ Authenticates (List.replicate 32 0) [] :=
  (@auth_uses_following_bytes (List.replicate 32 0) [] rfl (by decide)).1

/-- Under a zero key in an object of 32 bytes, the empty input is not authenticated. -/
theorem authenticates_fails : ¬ ∀ key data : Bytes, key.length = 32 → data.length < 2 ^ 32 - 64 →
    Authenticates key data := by
  intro claimed
  have args : AuthArgs (exactMem (List.replicate 32 0) []) (whole 0 32) (whole 1 0) 0 (whole 2 32) :=
    @exactMem_args (List.replicate 32 0) [] rfl (by decide)
  have ran := (claimed (List.replicate 32 0) [] rfl (by decide) _ _ _ _ _ args (by decide) (by decide)).1
  rw [cryptoAuth_fault args (exactMem_beyond rfl)] at ran
  cases ran

end HaclStar.Correctness.Auth
