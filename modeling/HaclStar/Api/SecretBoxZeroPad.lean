import HaclStar.Impl.Policies
import HaclStar.Impl.Poly1305
import HaclStar.Impl.Salsa20
import HaclStar.Spec.SecretBox

/-! Secret-key boxes over buffers whose first thirty-two bytes are padding. -/

namespace HaclStar.Api.SecretBox.ZeroPad

open Endianness Keystream Memory Impl Impl.HSalsa20 Impl.Salsa20 Impl.Poly1305 Impl.Policies
open Spec.SecretBox

/-- Clear the first thirty-two bytes, one store after another. -/
def setZeroBytes (b : Buffer) : Stack Unit := do
  let b ← b.sub 0 32
  b.store (List.replicate 32 0)

/-- Seal a padded message, and write the tag to a buffer of its own. -/
def cryptoSecretboxDetached (c mac m : Buffer) (mlen : UInt64) (n k : Buffer) : Stack UInt32 := do
  let mlen_ := mlen.toUInt32
  inFrame do
    let subkey ← create 32
    let n1 ← n.sub 0 16
    hsalsa20 subkey k n1
    let n2 ← n.sub 16 8
    salsa20 c m (mlen_ + 32) subkey n2 0
    let cipher ← c.sub 32 mlen_.toNat
    let mackey ← c.sub 0 32
    cryptoOnetimeauth mac cipher mlen mackey
    setZeroBytes c
    setZeroBytes subkey
    return 0

/-- Decrypt when the comparison of the tags has succeeded. -/
def cryptoSecretboxOpenDetachedDecrypt (m c : Buffer) (clen : UInt64) (n subkey : Buffer)
    (verify : UInt8) : Stack UInt32 := do
  let clen_ := clen.toUInt32
  if verify = 0 then
    let n2 ← n.sub 16 8
    salsa20 m c (clen_ + 32) subkey n2 0
    setZeroBytes subkey
    setZeroBytes m
    return 0
  else return 0xffffffff

/-- Open a padded ciphertext whose tag is in a buffer of its own. -/
def cryptoSecretboxOpenDetached (m c mac : Buffer) (clen : UInt64) (n k : Buffer) : Stack UInt32 :=
  inFrame do
    let tmp ← create 112
    let subkey ← tmp.sub 0 32
    let mackey ← tmp.sub 32 32
    let mackey' ← tmp.sub 64 32
    let cmac ← tmp.sub 96 16
    let n1 ← n.sub 0 16
    hsalsa20 subkey k n1
    let n2 ← n.sub 16 8
    salsa20 mackey mackey' 32 subkey n2 0
    let clen_ := clen.toUInt32
    let cipher ← c.sub 32 clen_.toNat
    cryptoOnetimeauth cmac cipher clen mackey
    let result ← cmpBytes mac cmac 16
    cryptoSecretboxOpenDetachedDecrypt m c clen n subkey result

/-- Seal a padded message, and put the tag into the second half of the padding. -/
def cryptoSecretboxEasy (c m : Buffer) (mlen : UInt64) (n k : Buffer) : Stack UInt32 := inFrame do
  let cmac ← create 16
  let res ← cryptoSecretboxDetached c cmac m mlen n k
  Buffer.blit cmac 0 c 16 16
  return res

/-- Open a padded ciphertext, taking the tag from the first half of the padding. -/
def cryptoSecretboxOpenEasy (m c : Buffer) (clen : UInt64) (n k : Buffer) : Stack UInt32 := do
  let mac ← c.sub 0 16
  cryptoSecretboxOpenDetached m c mac clen n k

/-- What sealing and opening rely on: live views of the right sizes, with room for the padding. -/
structure Args (h : Mem) (output input n k : Buffer) (len : UInt64) : Prop where
  liveOutput : h.Live output
  liveInput : h.Live input
  liveNonce : h.Live n
  liveKey : h.Live k
  nonceSize : n.length = 24
  keySize : k.length = 32
  views : SameOrDisjoint output input
  bounded : len.toNat + 32 < 2 ^ 32
  outputFits : len.toNat + 32 ≤ output.length
  inputFits : len.toNat + 32 ≤ input.length

/-- The padding and the message under the keystream. -/
def masked (h : Mem) (input n k : Buffer) (len : UInt64) : Bytes :=
  xorStream (boxStream (h.read k) (h.read n)) ((h.read input).take (len.toNat + 32))

variable {h : Mem} {c mac m n k subkey : Buffer} {len : UInt64}

/-- A length that fits in 32 bits is not changed by the conversion. -/
theorem toUInt32_toNat (bounded : len.toNat + 32 < 2 ^ 32) : len.toUInt32.toNat = len.toNat := by
  rw [UInt64.toNat_toUInt32]
  omega

/-- The length with the padding does not wrap around. -/
theorem padded_toNat (bounded : len.toNat + 32 < 2 ^ 32) :
    (len.toUInt32 + 32).toNat = len.toNat + 32 := by
  rw [UInt32.toNat_add, toUInt32_toNat bounded]
  show (len.toNat + 32) % 2 ^ 32 = _
  omega

/-- Clearing writes thirty-two zero bytes. -/
theorem setZeroBytes_run (live : h.Live c) (fits : 32 ≤ c.length) :
    setZeroBytes c h = some ((), h.write c (List.replicate 32 0)) := by
  rw [setZeroBytes, Stack.bind_run (Buffer.sub_run _ (by omega)),
    Buffer.store_run (live.slice (by omega)) (by simp), Mem.write_slice_zero]

/-- Under a derived key the cipher applies the keystream of the box. -/
theorem salsa20_boxStream {output input : Buffer} (key : Bytes) (len : UInt32)
    (views : SameOrDisjoint output input) (live : h.Live output) (live' : h.Live input)
    (liveNonce : h.Live n) (liveKey : h.Live subkey) (nonceSize : n.length = 24)
    (keySize : subkey.length = 32)
    (derived : h.read subkey = Spec.HSalsa20.hsalsa20 key ((h.read n).take 16))
    (fits : len.toNat ≤ output.length) (fits' : len.toNat ≤ input.length) :
    salsa20 output input len subkey (n.slice 16 8) 0 h = some ((), h.write output
      (xorStream (boxStream key (h.read n)) ((h.read input).take len.toNat))) := by
  have bytes := Mem.read_length liveNonce
  rw [salsa20_run views live live' liveKey (liveNonce.slice (by omega)) keySize rfl fits fits', derived,
    Mem.read_slice _ _ (by omega), List.take_of_length_le (l := (h.read n).drop 16) (by
      rw [List.length_drop]; omega)]
  rfl

/-- The key derived for a box. -/
theorem hsalsa20_derive {output : Buffer} (live : h.Live output) (liveKey : h.Live k)
    (liveNonce : h.Live n) (size : output.length = 32) (keySize : k.length = 32)
    (nonceSize : n.length = 24) :
    hsalsa20 output k (n.slice 0 16) h = some ((), h.write output
      (Spec.HSalsa20.hsalsa20 (h.read k) ((h.read n).take 16))) := by
  rw [hsalsa20_run live liveKey (liveNonce.slice (by omega)) size.ge keySize rfl,
    Mem.read_slice _ _ (by omega), List.drop_zero]

/-- The arguments are as good inside a frame. -/
theorem Args.inner {inner : Mem} (args : Args h c m n k len) (outer : h.Outer inner) :
    Args inner c m n k len :=
  { args with
    liveOutput := outer.live args.liveOutput
    liveInput := outer.live args.liveInput
    liveNonce := outer.live args.liveNonce
    liveKey := outer.live args.liveKey }

/-- The masked message has the length of the padding and the message. -/
theorem masked_length (args : Args h c m n k len) :
    (masked h m n k len).length = len.toNat + 32 := by
  have size := Mem.read_length args.liveInput
  have fits := args.inputFits
  rw [masked, xorStream_length, List.length_take]
  omega

/-- Sealing writes the zero padding and the masked message, and the tag under the masked padding. -/
theorem cryptoSecretboxDetached_run (args : Args h c m n k len) (live : h.Live mac)
    (size : 16 ≤ mac.length) (apart : mac.Disjoint c) :
    cryptoSecretboxDetached c mac m len n k h =
      some (0, (h.write c (List.replicate 32 0 ++ (masked h m n k len).drop 32)).write mac
        (Spec.Poly1305.poly1305 ((masked h m n k len).drop 32) ((masked h m n k len).take 32))) := by
  have maskedSize := masked_length args
  obtain ⟨liveC, liveM, liveN, liveK, nonceSize, keySize, views, bounded, fitsC, fitsM⟩ := args
  have padded := padded_toNat bounded
  have short := toUInt32_toNat bounded
  -- The derived key is local; the outer memory sees the ciphertext, the tag and the zero padding.
  set sk := h.fresh 32 with sk_def
  have new : h.length ≤ sk.base := le_rfl
  have outer0 : h.Outer (h.alloc 32) := (Mem.Outer.refl h).alloc 32
  have live0 : (h.alloc 32).Live sk := Mem.fresh_live h 32
  set x := masked h m n k len with x_def
  set derived := Spec.HSalsa20.hsalsa20 (h.read k) ((h.read n).take 16) with derived_def
  have step1 := hsalsa20_derive live0 (outer0.live liveK) (outer0.live liveN) rfl keySize nonceSize
  rw [outer0.read liveK, outer0.read liveN, ← derived_def] at step1
  set m1 := (h.alloc 32).write sk derived with m1_def
  have derivedSize : derived.length = 32 := Spec.HSalsa20.hsalsa20_length _ _
  have outer1 : h.Outer m1 := outer0.write_new new derived
  have live1 : m1.Live sk := live0.write live0 derivedSize.le
  have key1 : m1.read sk = derived := Mem.read_write_same live0 derivedSize
  have step2 := salsa20_boxStream (h.read k) (len.toUInt32 + 32) views (outer1.live liveC)
    (outer1.live liveM) (outer1.live liveN) live1 nonceSize rfl
    (by rw [key1, outer1.read liveN]) (by rw [padded]; exact fitsC) (by rw [padded]; exact fitsM)
  rw [padded, outer1.read liveN, outer1.read liveM, ← masked, ← x_def] at step2
  set m2 := m1.write c x with m2_def
  have xFits : x.length ≤ c.length := by omega
  have outer2 : (h.write c x).Outer m2 := outer1.write_old liveC x
  have live2 : m2.Live c := (outer1.live liveC).write (outer1.live liveC) xFits
  have cipher2 : m2.read (c.slice 32 len.toNat) = x.drop 32 := by
    rw [m2_def, Mem.read_write_slice (outer1.live liveC) (by omega) xFits,
      List.take_of_length_le (by rw [List.length_drop]; omega)]
  have mackey2 : m2.read (c.slice 0 32) = x.take 32 := by
    rw [m2_def, Mem.read_write_slice (outer1.live liveC) (by omega) xFits, List.drop_zero]
  have liveMac : (h.write c x).Live mac := live.write liveC xFits
  have step3 := cryptoOnetimeauth_run len (outer2.live liveMac)
    (live2.slice (i := 32) (n := len.toNat) (by omega)) (live2.slice (i := 0) (n := 32) (by omega)) size
    rfl (by omega) le_rfl
  rw [cipher2, mackey2, List.take_of_length_le (l := x.drop 32) (by
    rw [List.length_drop]; omega)] at step3
  set t := Spec.Poly1305.poly1305 (x.drop 32) (x.take 32) with t_def
  have tFits : t.length ≤ mac.length := by rw [t_def, Spec.Poly1305.poly1305_length]; exact size
  set m3 := m2.write mac t with m3_def
  have outer3 : ((h.write c x).write mac t).Outer m3 := outer2.write_old liveMac t
  have live3 : ((h.write c x).write mac t).Live c :=
    (liveC.write liveC xFits).write liveMac tFits
  have step4 := setZeroBytes_run (outer3.live live3) (by omega)
  have outer4 := outer3.write_old live3 (List.replicate 32 0)
  have liveSk3 : m3.Live sk :=
    (live1.write (outer1.live liveC) xFits).write (outer2.live liveMac) tFits
  have liveSk4 : (m3.write c (List.replicate 32 0)).Live sk :=
    liveSk3.write (outer3.live live3) (by rw [List.length_replicate]; omega)
  have step5 := setZeroBytes_run liveSk4 le_rfl
  have outer5 := outer4.write_new (b := sk) (by
    rw [Mem.write_length, Mem.write_length, Mem.write_length]
    exact new) (List.replicate 32 0)
  have ran : (do
      let subkey ← create 32
      let n1 ← n.sub 0 16
      hsalsa20 subkey k n1
      let n2 ← n.sub 16 8
      salsa20 c m (len.toUInt32 + 32) subkey n2 0
      let cipher ← c.sub 32 len.toUInt32.toNat
      let mackey ← c.sub 0 32
      cryptoOnetimeauth mac cipher len mackey
      setZeroBytes c
      setZeroBytes subkey
      return 0 : Stack UInt32) h = some (0, (m3.write c (List.replicate 32 0)).write sk
        (List.replicate 32 0)) := by
    rw [Stack.bind_run (create_run 32), Stack.bind_run (Buffer.sub_run _ (by omega)),
      Stack.bind_run step1, Stack.bind_run (Buffer.sub_run _ (by omega)), Stack.bind_run step2, short,
      Stack.bind_run (Buffer.sub_run _ (by omega)), Stack.bind_run (Buffer.sub_run _ (by omega)),
      Stack.bind_run step3, Stack.bind_run step4, Stack.bind_run step5, Stack.pure_run]
  rw [cryptoSecretboxDetached, inFrame_outer ran outer5 (by
    rw [Mem.write_length, Mem.write_length, Mem.write_length])]
  -- Clearing the padding commutes with writing the tag.
  rw [Mem.write_comm liveMac (liveC.write liveC xFits) tFits (by
    rw [List.length_replicate]; omega) apart, Mem.write_prefix liveC xFits (by
    rw [List.length_replicate]; omega), List.length_replicate]

/-- Whether a buffer holds the tag of the ciphertext behind the padding. -/
def Authentic (h : Mem) (c mac n k : Buffer) (len : UInt64) : Prop :=
  h.read mac = tag (h.read k) (h.read n) (((h.read c).drop 32).take len.toNat)

instance (h : Mem) (c mac n k : Buffer) (len : UInt64) : Decidable (Authentic h c mac n k len) :=
  inferInstanceAs (Decidable (_ = _))

/-- Opening first derives the key and the one-time key in local memory. -/
theorem cryptoSecretboxOpenDetached_derive (m c mac : Buffer) (len : UInt64) (liveN : h.Live n)
    (liveK : h.Live k) (nonceSize : n.length = 24) (keySize : k.length = 32) :
    ∃ inner tmp, h.Outer inner ∧ inner.Live tmp ∧ h.length ≤ tmp.base ∧ tmp.length = 112 ∧
      inner.read (tmp.slice 0 32) = Spec.HSalsa20.hsalsa20 (h.read k) ((h.read n).take 16) ∧
      inner.read (tmp.slice 32 32) = macKey (h.read k) (h.read n) ∧
      cryptoSecretboxOpenDetached m c mac len n k h = inFrame (fun _ => (do
        let cipher ← c.sub 32 len.toUInt32.toNat
        cryptoOnetimeauth (tmp.slice 96 16) cipher len (tmp.slice 32 32)
        let result ← cmpBytes mac (tmp.slice 96 16) 16
        cryptoSecretboxOpenDetachedDecrypt m c len n (tmp.slice 0 32) result : Stack UInt32) inner) h := by
  set tmp := h.fresh 112 with tmp_def
  have outer0 : h.Outer (h.alloc 112) := (Mem.Outer.refl h).alloc 112
  have live0 : (h.alloc 112).Live tmp := Mem.fresh_live h 112
  have room : tmp.length = 112 := rfl
  have zeros0 : (h.alloc 112).read tmp = List.replicate 112 0 := Mem.read_fresh h 112
  set derived := Spec.HSalsa20.hsalsa20 (h.read k) ((h.read n).take 16) with derived_def
  have derivedSize : derived.length = 32 := Spec.HSalsa20.hsalsa20_length _ _
  -- The key, the one-time key and its zero input are parts of one local block.
  have sk0 := live0.slice (i := 0) (n := 32) (by omega)
  have step1 := hsalsa20_derive sk0 (outer0.live liveK) (outer0.live liveN) rfl keySize nonceSize
  rw [outer0.read liveK, outer0.read liveN, ← derived_def] at step1
  set m1 := (h.alloc 112).write (tmp.slice 0 32) derived with m1_def
  have outer1 : h.Outer m1 := outer0.write_new (b := tmp.slice 0 32) le_rfl derived
  have live1 : m1.Live tmp := live0.write sk0 derivedSize.le
  have sk1 := live1.slice (i := 0) (n := 32) (by omega)
  have mk1 := live1.slice (i := 32) (n := 32) (by omega)
  have key1 : m1.read (tmp.slice 0 32) = derived := Mem.read_write_same sk0 derivedSize
  have zeros1 : m1.read (tmp.slice 64 32) = List.replicate 32 0 := by
    rw [m1_def, Mem.read_write_disjoint sk0 derivedSize.le (Buffer.disjoint_slices _ (by omega)),
      Mem.read_slice _ _ (by omega), zeros0, List.drop_replicate, List.take_replicate]
    rfl
  have apart : (tmp.slice 32 32).Disjoint (tmp.slice 64 32) := Buffer.disjoint_slices _ (by omega)
  have step2 := salsa20_boxStream (h.read k) 32 (Or.inr apart) mk1
    (live1.slice (i := 64) (n := 32) (by omega)) (outer1.live liveN) sk1 nonceSize rfl
    (by rw [key1, outer1.read liveN]) le_rfl le_rfl
  rw [outer1.read liveN, zeros1, List.take_of_length_le (by rw [List.length_replicate]; exact le_rfl),
    ← macKey] at step2
  have keyFits : (macKey (h.read k) (h.read n)).length ≤ (tmp.slice 32 32).length :=
    (macKey_length _ _).le
  refine ⟨m1.write (tmp.slice 32 32) (macKey (h.read k) (h.read n)), tmp,
    outer1.write_new (b := tmp.slice 32 32) le_rfl _, live1.write mk1 keyFits, le_rfl, room, ?_,
    Mem.read_write_same mk1 (macKey_length _ _), inFrame_reached ?_⟩
  · rw [Mem.read_write_disjoint mk1 keyFits
      (Buffer.disjoint_slices tmp (by omega : 0 + 32 ≤ 32)).symm, key1]
  · rw [Stack.bind_run (create_run 112), ← tmp_def, Stack.bind_run (Buffer.sub_run _ (by omega)),
      Stack.bind_run (Buffer.sub_run _ (by omega)), Stack.bind_run (Buffer.sub_run _ (by omega)),
      Stack.bind_run (Buffer.sub_run _ (by omega)), Stack.bind_run (Buffer.sub_run _ (by omega)),
      Stack.bind_run step1, Stack.bind_run (Buffer.sub_run _ (by omega)), Stack.bind_run step2]

/-- Opening compares the tags before it writes anything that outlives it. -/
theorem cryptoSecretboxOpenDetached_verify (m : Buffer) (liveC : h.Live c) (liveMac : h.Live mac)
    (liveN : h.Live n) (liveK : h.Live k) (size : mac.length = 16) (nonceSize : n.length = 24)
    (keySize : k.length = 32) (bounded : len.toNat + 32 < 2 ^ 32)
    (fits : len.toNat + 32 ≤ c.length) :
    ∃ inner sk, h.Outer inner ∧ inner.Live sk ∧ h.length ≤ sk.base ∧ sk.length = 32 ∧
      inner.read sk = Spec.HSalsa20.hsalsa20 (h.read k) ((h.read n).take 16) ∧
      cryptoSecretboxOpenDetached m c mac len n k h =
        inFrame (fun _ => cryptoSecretboxOpenDetachedDecrypt m c len n sk
          (if Authentic h c mac n k len then 0 else 255) inner) h := by
  have short := toUInt32_toNat bounded
  obtain ⟨m2, tmp, outer2, live2, new, room, key2, mackey2, ran⟩ :=
    cryptoSecretboxOpenDetached_derive m c mac len liveN liveK nonceSize keySize
  have cmac2 := live2.slice (i := 96) (n := 16) (by omega)
  have step3 := cryptoOnetimeauth_run len cmac2
    ((outer2.live liveC).slice (i := 32) (n := len.toNat) (by omega))
    (live2.slice (i := 32) (n := 32) (by omega)) le_rfl rfl (by omega) le_rfl
  rw [Mem.read_slice _ _ (by omega), outer2.read liveC, mackey2, List.take_take, Nat.min_self,
    ← tag] at step3
  set t := tag (h.read k) (h.read n) (((h.read c).drop 32).take len.toNat) with t_def
  set m3 := m2.write (tmp.slice 96 16) t with m3_def
  have tFits : t.length ≤ (tmp.slice 96 16).length := (tag_length _ _ _).le
  have outer3 : h.Outer m3 := outer2.write_new (b := tmp.slice 96 16) new _
  have live3 : m3.Live tmp := live2.write cmac2 tFits
  have key3 : m3.read (tmp.slice 0 32) =
      Spec.HSalsa20.hsalsa20 (h.read k) ((h.read n).take 16) := by
    rw [m3_def, Mem.read_write_disjoint cmac2 tFits
      (Buffer.disjoint_slices tmp (by omega : 0 + 32 ≤ 96)).symm, key2]
  have cmac3 : m3.read (tmp.slice 96 16) = t := Mem.read_write_same cmac2 (tag_length _ _ _)
  have macBytes := Mem.read_length liveMac
  have step4 := cmpBytes_run 16 (outer3.live liveMac)
    (live3.slice (i := 96) (n := 16) (by omega)) size.ge le_rfl
  rw [outer3.read liveMac, cmac3, List.take_of_length_le (by omega),
    List.take_of_length_le (l := t) (by rw [t_def, tag_length])] at step4
  refine ⟨m3, tmp.slice 0 32, outer3, live3.slice (by omega), new, rfl, key3, ?_⟩
  rw [ran, short, Stack.bind_run (Buffer.sub_run _ (by omega)), Stack.bind_run step3,
    Stack.bind_run step4]
  rfl

/-- A ciphertext that is too short for the length faults. -/
theorem cryptoSecretboxOpenDetached_fault (m mac : Buffer) (liveN : h.Live n) (liveK : h.Live k)
    (nonceSize : n.length = 24) (keySize : k.length = 32) (bounded : len.toNat < 2 ^ 32)
    (beyond : c.length < len.toNat + 32) : cryptoSecretboxOpenDetached m c mac len n k h = none := by
  have short : len.toUInt32.toNat = len.toNat := by rw [UInt64.toNat_toUInt32]; omega
  obtain ⟨inner, tmp, -, -, -, -, -, -, ran⟩ :=
    cryptoSecretboxOpenDetached_derive m c mac len liveN liveK nonceSize keySize
  rw [ran, short, Stack.bind_fault (Buffer.sub_fault _ (by omega))]
  rfl

/-- A wrong tag is rejected, and nothing is written. -/
theorem cryptoSecretboxOpenDetached_reject (m : Buffer) (liveC : h.Live c) (liveMac : h.Live mac)
    (liveN : h.Live n) (liveK : h.Live k) (size : mac.length = 16) (nonceSize : n.length = 24)
    (keySize : k.length = 32) (bounded : len.toNat + 32 < 2 ^ 32)
    (fits : len.toNat + 32 ≤ c.length) (forged : ¬ Authentic h c mac n k len) :
    cryptoSecretboxOpenDetached m c mac len n k h = some (0xffffffff, h) := by
  obtain ⟨inner, sk, outer, -, -, -, -, ran⟩ := cryptoSecretboxOpenDetached_verify m liveC liveMac liveN
    liveK size nonceSize keySize bounded fits
  rw [ran, if_neg forged]
  exact inFrame_finish rfl outer rfl

/-- The right tag is accepted, and zero padding and the message are written. -/
theorem cryptoSecretboxOpenDetached_accept (args : Args h m c n k len) (liveMac : h.Live mac)
    (size : mac.length = 16) (authentic : Authentic h c mac n k len) :
    cryptoSecretboxOpenDetached m c mac len n k h =
      some (0, h.write m (List.replicate 32 0 ++ (masked h c n k len).drop 32)) := by
  have maskedSize := masked_length args
  obtain ⟨liveM, liveC, liveN, liveK, nonceSize, keySize, views, bounded, fitsM, fitsC⟩ := args
  have padded := padded_toNat bounded
  obtain ⟨inner, sk, outer, liveSk, new, skSize, key, ran⟩ := cryptoSecretboxOpenDetached_verify m
    liveC liveMac liveN liveK size nonceSize keySize bounded fitsC
  rw [ran, if_pos authentic]
  set x := masked h c n k len with x_def
  have xFits : x.length ≤ m.length := by omega
  -- Decryption writes the message, and clears the local key and the padding.
  have step1 := salsa20_boxStream (h.read k) (len.toUInt32 + 32) views (outer.live liveM)
    (outer.live liveC) (outer.live liveN) liveSk nonceSize skSize (by rw [key, outer.read liveN])
    (by rw [padded]; exact fitsM) (by rw [padded]; exact fitsC)
  rw [padded, outer.read liveN, outer.read liveC, ← masked, ← x_def] at step1
  have outer1 := outer.write_old liveM x
  have liveSk1 : (inner.write m x).Live sk := liveSk.write (outer.live liveM) xFits
  have step2 := setZeroBytes_run liveSk1 skSize.ge
  have outer2 := outer1.write_new (b := sk) (by rw [Mem.write_length]; exact new) (List.replicate 32 0)
  have liveM1 : (h.write m x).Live m := liveM.write liveM xFits
  have step3 := setZeroBytes_run (outer2.live liveM1) (by omega)
  have outer3 := outer2.write_old liveM1 (List.replicate 32 0)
  have decrypted : cryptoSecretboxOpenDetachedDecrypt m c len n sk 0 inner =
      some (0, ((inner.write m x).write sk (List.replicate 32 0)).write m (List.replicate 32 0)) := by
    rw [cryptoSecretboxOpenDetachedDecrypt, if_pos rfl, Stack.bind_run (Buffer.sub_run _ (by omega)),
      Stack.bind_run step1, Stack.bind_run step2, Stack.bind_run step3, Stack.pure_run]
  rw [inFrame_finish decrypted outer3 (by rw [Mem.write_length, Mem.write_length]),
    Mem.write_prefix liveM xFits (by rw [List.length_replicate]; omega), List.length_replicate]

/-- Sealing with too little room for the ciphertext, or more bytes asked for than the message has,
faults. -/
theorem cryptoSecretboxDetached_fault (mac : Buffer) (liveN : h.Live n) (liveK : h.Live k)
    (nonceSize : n.length = 24) (keySize : k.length = 32) (bounded : len.toNat < 2 ^ 32)
    (bounded' : c.length < 2 ^ 32)
    (beyond : c.length < len.toNat + 32 ∨ m.length < len.toNat + 32 ∧ len.toNat + 32 < 2 ^ 32) :
    cryptoSecretboxDetached c mac m len n k h = none := by
  have short : len.toUInt32.toNat = len.toNat := by rw [UInt64.toNat_toUInt32]; omega
  have outer0 : h.Outer (h.alloc 32) := (Mem.Outer.refl h).alloc 32
  have live0 : (h.alloc 32).Live (h.fresh 32) := Mem.fresh_live h 32
  have step1 := hsalsa20_derive live0 (outer0.live liveK) (outer0.live liveN) rfl keySize nonceSize
  have size : (Spec.HSalsa20.hsalsa20 ((h.alloc 32).read k) (((h.alloc 32).read n).take 16)).length ≤
      (h.fresh 32).length := (Spec.HSalsa20.hsalsa20_length _ _).le
  refine inFrame_fault ?_
  rw [Stack.bind_run (create_run 32), Stack.bind_run (Buffer.sub_run _ (by omega)),
    Stack.bind_run step1, Stack.bind_run (Buffer.sub_run _ (by omega))]
  rcases Nat.lt_or_ge (len.toNat + 32) (2 ^ 32) with small | large
  · exact Stack.bind_fault (salsa20_fault (live0.write live0 size)
      (((outer0.live liveN).write live0 size).slice (by omega)) rfl rfl
      (by rw [padded_toNat small]; omega)) _
  · -- The padded length wraps around, and the ciphertext does not reach as far as the length.
    refine Stack.bind_fault_of_forall _ fun _ inner => ?_
    rw [short, Stack.bind_fault (Buffer.sub_fault _ (by omega))]

/-- A seal into local memory whose tag is then copied into the padding leaves zeros, the tag and the
ciphertext. -/
theorem easy_run {detached : Buffer → Stack UInt32} {t cipher : Bytes} (live : h.Live c)
    (tagSize : t.length = 16) (fits : 32 + cipher.length ≤ c.length)
    (ran : detached (h.fresh 16) (h.alloc 16) = some (0,
      ((h.alloc 16).write c (List.replicate 32 0 ++ cipher)).write (h.fresh 16) t)) :
    inFrame (do
      let cmac ← create 16
      let res ← detached cmac
      Buffer.blit cmac 0 c 16 16
      return res : Stack UInt32) h = some (0, h.write c (List.replicate 16 0 ++ t ++ cipher)) := by
  have outer0 : h.Outer (h.alloc 16) := (Mem.Outer.refl h).alloc 16
  have live0 : (h.alloc 16).Live (h.fresh 16) := Mem.fresh_live h 16
  have sealedSize : (List.replicate 32 0 ++ cipher).length = 32 + cipher.length := by
    rw [List.length_append, List.length_replicate]
  have outer1 := outer0.write_old live (List.replicate 32 0 ++ cipher)
  have live1 : ((h.alloc 16).write c (List.replicate 32 0 ++ cipher)).Live (h.fresh 16) :=
    live0.write (outer0.live live) (by omega)
  have outer2 := outer1.write_new (b := h.fresh 16) (by rw [Mem.write_length]; exact le_rfl) t
  have liveC : (h.write c (List.replicate 32 0 ++ cipher)).Live c := live.write live (by omega)
  have live2 := live1.write live1 (show t.length ≤ (h.fresh 16).length from tagSize.le)
  have copied := Buffer.blit_run live2 (outer2.live liveC) (show 0 + 16 ≤ (h.fresh 16).length from le_rfl)
    (show 16 + 16 ≤ c.length by omega)
  rw [Mem.read_write_same live1 tagSize, List.drop_zero, List.take_of_length_le tagSize.le] at copied
  have outer3 := outer2.write_old (liveC.slice (i := 16) (n := 16) (by omega)) t
  have spliced : splice (List.replicate 32 0 ++ cipher) 16 t = List.replicate 16 0 ++ t ++ cipher := by
    rw [splice, List.take_append_of_le_length (by rw [List.length_replicate]; omega),
      List.take_replicate, tagSize, List.drop_left' List.length_replicate]
    rfl
  -- The tag replaces the second half of the padding.
  have replaced : (h.write c (List.replicate 32 0 ++ cipher)).write (c.slice 16 16) t =
      h.write c (List.replicate 16 0 ++ t ++ cipher) := by
    rw [Mem.write_within live (by omega) tagSize (by omega), spliced]
  rw [replaced] at outer3
  exact inFrame_outer (by rw [Stack.bind_run (create_run 16), Stack.bind_run ran, Stack.bind_run copied,
    Stack.pure_run]) outer3 (by rw [Mem.write_length])

/-- Sealing in place of the padding puts the tag before the ciphertext. -/
theorem cryptoSecretboxEasy_run (args : Args h c m n k len) :
    cryptoSecretboxEasy c m len n k h = some (0, h.write c (List.replicate 16 0 ++
      Spec.Poly1305.poly1305 ((masked h m n k len).drop 32) ((masked h m n k len).take 32) ++
      (masked h m n k len).drop 32)) := by
  have size := masked_length args
  have room := args.outputFits
  have outer0 : h.Outer (h.alloc 16) := (Mem.Outer.refl h).alloc 16
  have same : masked (h.alloc 16) m n k len = masked h m n k len := by
    rw [masked, masked, outer0.read args.liveInput, outer0.read args.liveNonce, outer0.read args.liveKey]
  have ran := cryptoSecretboxDetached_run (args.inner outer0) (Mem.fresh_live h 16) le_rfl
    (Mem.fresh_disjoint args.liveOutput 16)
  rw [same] at ran
  exact easy_run args.liveOutput (Spec.Poly1305.poly1305_length _ _)
    (by rw [List.length_drop]; omega) ran

end HaclStar.Api.SecretBox.ZeroPad
