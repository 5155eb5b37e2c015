import HaclStar.Api.SecretBoxZeroPad
import HaclStar.Spec.Curve25519

/-! Public-key boxes over padded buffers. -/

namespace HaclStar.Api.Box

open Endianness Keystream Memory Impl.HSalsa20 Spec.SecretBox SecretBox.ZeroPad

/-- A scalar multiplication: thirty-two bytes that depend on the secret and the point only. -/
structure Curve25519 where
  scalarmult : Bytes → Bytes → Bytes
  scalarmult_length : ∀ secret basepoint, (scalarmult secret basepoint).length = 32

/-- The scalar multiplication of the specification. -/
def Curve25519.spec : Curve25519 where
  scalarmult := Spec.Curve25519.scalarmult
  scalarmult_length := Spec.Curve25519.scalarmult_length

section ZeroPad

variable (curve : Curve25519)

/-- Multiply a point by a secret. -/
def cryptoScalarmult (mypublic secret basepoint : Buffer) : Stack Unit := do
  let secret ← secret.load
  let basepoint ← basepoint.load
  mypublic.store (curve.scalarmult secret basepoint)

/-- Compute the shared key. -/
def cryptoBoxBeforenm (k pk sk : Buffer) : Stack UInt32 := inFrame do
  let tmp ← create 48
  let hsalsaK ← tmp.sub 0 32
  let hsalsaN ← tmp.sub 32 16
  cryptoScalarmult curve hsalsaK sk pk
  hsalsa20 k hsalsaK hsalsaN
  return 0

/-- Seal under a shared key. -/
def cryptoBoxDetachedAfternm (c mac m : Buffer) (mlen : UInt64) (n k : Buffer) : Stack UInt32 :=
  cryptoSecretboxDetached c mac m mlen n k

/-- Compute the shared key, and seal. -/
def cryptoBoxDetached (c mac m : Buffer) (mlen : UInt64) (n pk sk : Buffer) : Stack UInt32 :=
  inFrame do
    let key ← create 80
    let k ← key.sub 0 32
    let subkey ← key.sub 32 32
    let hsalsaN ← key.sub 64 16
    cryptoScalarmult curve k sk pk
    hsalsa20 subkey k hsalsaN
    cryptoSecretboxDetached c mac m mlen n subkey

/-- Compute the shared key, and open. -/
def cryptoBoxOpenDetached (m c mac : Buffer) (mlen : UInt64) (n pk sk : Buffer) : Stack UInt32 :=
  inFrame do
    let key ← create 80
    let k ← key.sub 0 32
    let subkey ← key.sub 32 32
    let hsalsaN ← key.sub 64 16
    cryptoScalarmult curve k sk pk
    hsalsa20 subkey k hsalsaN
    cryptoSecretboxOpenDetached m c mac mlen n subkey

/-- Seal under a shared key, and put the tag into the second half of the padding. -/
def cryptoBoxEasyAfternm (c m : Buffer) (mlen : UInt64) (n k : Buffer) : Stack UInt32 := inFrame do
  let cmac ← create 16
  let z ← cryptoBoxDetachedAfternm c cmac m mlen n k
  Buffer.blit cmac 0 c 16 16
  return z

/-- Seal, and put the tag into the second half of the padding. -/
def cryptoBoxEasy (c m : Buffer) (mlen : UInt64) (n pk sk : Buffer) : Stack UInt32 := inFrame do
  let cmac ← create 16
  let res ← cryptoBoxDetached curve c cmac m mlen n pk sk
  Buffer.blit cmac 0 c 16 16
  return res

/-- Open, taking the tag from the second half of the padding. -/
def cryptoBoxOpenEasy (m c : Buffer) (mlen : UInt64) (n pk sk : Buffer) : Stack UInt32 := do
  let mac ← c.sub 16 16
  cryptoBoxOpenDetached curve m c mac mlen n pk sk

/-- Open under a shared key. -/
def cryptoBoxOpenDetachedAfternm (m c mac : Buffer) (mlen : UInt64) (n k : Buffer) : Stack UInt32 :=
  cryptoSecretboxOpenDetached m c mac mlen n k

/-- Open under a shared key, taking the tag from the second half of the padding. -/
def cryptoBoxOpenEasyAfternm (m c : Buffer) (mlen : UInt64) (n k : Buffer) : Stack UInt32 := do
  let mac ← c.sub 16 16
  cryptoBoxOpenDetachedAfternm m c mac mlen n k

end ZeroPad

/-- The key that two parties share. -/
def sharedKey (curve : Curve25519) (pk sk : Bytes) : Bytes :=
  Spec.HSalsa20.hsalsa20 (curve.scalarmult sk pk) (List.replicate 16 0)

variable (curve : Curve25519) {h : Mem} {c c' mac m m' n k pk sk : Buffer} {len : UInt64}

@[simp] theorem sharedKey_length (pk sk : Bytes) : (sharedKey curve pk sk).length = 32 :=
  Spec.HSalsa20.hsalsa20_length _ _

/-- The product is written. -/
theorem cryptoScalarmult_run {mypublic secret basepoint : Buffer} (live : h.Live mypublic)
    (live' : h.Live secret) (live'' : h.Live basepoint) (size : mypublic.length = 32) :
    cryptoScalarmult curve mypublic secret basepoint h =
      some ((), h.write mypublic (curve.scalarmult (h.read secret) (h.read basepoint))) := by
  rw [cryptoScalarmult, Stack.bind_run (Buffer.load_run live'), Stack.bind_run (Buffer.load_run live''),
    Buffer.store_run live (by rw [curve.scalarmult_length, size])]

/-- The two calls that write the shared key from a product and a nonce in one zero local block. -/
theorem sharedKey_run {inner : Mem} {tmp out : Buffer} {start : Nat} (outer : h.Outer inner)
    (live : inner.Live tmp) (new : h.length ≤ tmp.base) (livePk : h.Live pk) (liveSk : h.Live sk)
    (zeros : inner.read (tmp.slice start 16) = List.replicate 16 0) (after : 32 ≤ start)
    (room : start + 16 ≤ tmp.length) (liveOut : inner.Live out) (size : out.length = 32) :
    ∃ inner', inner' = inner.write (tmp.slice 0 32) (curve.scalarmult (h.read sk) (h.read pk)) ∧
      h.Outer inner' ∧ inner'.Live tmp ∧ inner'.Live out ∧
      cryptoScalarmult curve (tmp.slice 0 32) sk pk inner = some ((), inner') ∧
      hsalsa20 out (tmp.slice 0 32) (tmp.slice start 16) inner' =
        some ((), inner'.write out (sharedKey curve (h.read pk) (h.read sk))) := by
  have product0 := live.slice (i := 0) (n := 32) (by omega)
  have step1 := cryptoScalarmult_run curve product0 (outer.live liveSk) (outer.live livePk) rfl
  rw [outer.read liveSk, outer.read livePk] at step1
  set product := curve.scalarmult (h.read sk) (h.read pk) with product_def
  have productSize : product.length = (tmp.slice 0 32).length := curve.scalarmult_length _ _
  have live1 : (inner.write (tmp.slice 0 32) product).Live tmp := live.write product0 productSize.le
  have liveOut1 : (inner.write (tmp.slice 0 32) product).Live out := liveOut.write product0 productSize.le
  have step2 := hsalsa20_run liveOut1 (live1.slice (i := 0) (n := 32) (by omega))
    (live1.slice (i := start) (n := 16) room) size.ge rfl rfl
  have apart : (tmp.slice 0 32).Disjoint (tmp.slice start 16) := Buffer.disjoint_slices _ (by omega)
  rw [Mem.read_write_same product0 productSize, Mem.read_write_disjoint product0 productSize.le apart,
    zeros, product_def, ← sharedKey] at step2
  exact ⟨_, rfl, outer.write_new (b := tmp.slice 0 32) new _, live1, liveOut1, step1, step2⟩

/-- The shared key is written, and nothing else. -/
theorem cryptoBoxBeforenm_run (live : h.Live k) (livePk : h.Live pk) (liveSk : h.Live sk)
    (size : k.length = 32) :
    cryptoBoxBeforenm curve k pk sk h =
      some (0, h.write k (sharedKey curve (h.read pk) (h.read sk))) := by
  have outer0 : h.Outer (h.alloc 48) := (Mem.Outer.refl h).alloc 48
  have live0 : (h.alloc 48).Live (h.fresh 48) := Mem.fresh_live h 48
  have room : (h.fresh 48).length = 48 := rfl
  have zeros : (h.alloc 48).read ((h.fresh 48).slice 32 16) = List.replicate 16 0 := by
    rw [Mem.read_slice _ _ (by omega), Mem.read_fresh, List.drop_replicate, List.take_replicate]
    rfl
  obtain ⟨inner, -, outer, -, -, step1, step2⟩ := sharedKey_run curve outer0 live0 le_rfl
    livePk liveSk zeros le_rfl (by omega) (outer0.live live) size
  exact inFrame_outer (by rw [Stack.bind_run (create_run 48),
    Stack.bind_run (Buffer.sub_run _ (by omega)), Stack.bind_run (Buffer.sub_run _ (by omega)),
    Stack.bind_run step1, Stack.bind_run step2, Stack.pure_run]) (outer.write_old live _)
    (by rw [Mem.write_length])

/-- Under a shared key that was computed before, the box is a secret-key box. -/
theorem cryptoBoxEasyAfternm_eq (c m : Buffer) (len : UInt64) (n k : Buffer) :
    cryptoBoxEasyAfternm c m len n k = cryptoSecretboxEasy c m len n k := rfl

end HaclStar.Api.Box
