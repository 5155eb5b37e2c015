import HaclStar.Impl.Bignum
import HaclStar.Lib.Stack
import HaclStar.Spec.Poly1305

/-! The Poly1305 implementation on 44-bit limbs. -/

namespace HaclStar.Impl.Poly1305

open Endianness Memory Limbs Bignum

/-- The clamped key and the accumulator. -/
structure State where
  r : Felem
  h : Felem

/-- Load sixteen little-endian bytes. -/
def load128Le (b : Buffer) : Stack Wide := do
  let b ← b.sub 0 16
  let bytes ← b.load
  return BitVec.ofNat 128 (littleEndian bytes)

/-- Store sixteen little-endian bytes. -/
def store128Le (b : Buffer) (z : Wide) : Stack Unit := do
  let b ← b.sub 0 16
  b.store (littleBytes 16 z.toNat)

/-! The positions of the three limbs. -/

theorem bottomLimb : 0 < 3 := by decide

theorem middleLimb : 1 < 3 := by decide

theorem topLimb : 2 < 3 := by decide

def clampMask : Wide := 0x0ffffffc0ffffffc0ffffffc0fffffff

def mask44 : Limb := 0xfffffffffff

def p44m5 : Limb := 0xffffffffffb

def p44m1 : Limb := 0xfffffffffff

def p42m1 : Limb := 0x3ffffffffff

/-- Load the key, clamp it and split it into limbs. -/
def encodeR (key : Buffer) : Stack Felem := do
  let k ← load128Le key
  let kClamped := k &&& clampMask
  let r0 := wideToLimb kClamped &&& mask44
  let r1 := wideToLimb (kClamped >>> 44) &&& mask44
  let r2 := wideToLimb (kClamped >>> 88)
  return #v[r0, r1, r2]

/-- Load a block and split it into limbs. -/
def toField (block : Buffer) : Stack Felem := do
  let m ← load128Le block
  let r0 := wideToLimb m &&& mask44
  let r1 := wideToLimb (m >>> 44) &&& mask44
  let r2 := wideToLimb (m >>> 88)
  return #v[r0, r1, r2]

/-- Load a whole block, with a one bit above its bytes. -/
def toFieldPlus2128 (m : Buffer) : Stack Felem := do
  let b ← toField m
  let b2 := getElem b 2 topLimb
  let b2' := 0x10000000000 ||| b2
  return b.set 2 b2' topLimb

/-- The zero accumulator. -/
def start : Felem := #v[0, 0, 0]

/-- The state before the first block. -/
def init (key : Buffer) : Stack State := do
  let key ← key.sub 0 16
  let r ← encodeR key
  return ⟨r, start⟩

/-- Absorb a whole block. -/
def update (st : State) (m : Buffer) : Stack State := do
  let tmp ← toFieldPlus2128 m
  return { st with h := addAndMultiply st.h tmp st.r }

/-- Copy a partial block to the start of a block. -/
def concat (b m : Buffer) (len : Nat) : Stack Unit := Buffer.blit m 0 b 0 len

/-- Absorb a block that already has its one bit. -/
def processLastBlock_ (block : Buffer) (st : State) : Stack State := do
  let tmp ← toField block
  return { st with h := addAndMultiply st.h tmp st.r }

/-- Absorb a final partial block: its bytes, a one and zeros. -/
def processLastBlock (st : State) (m : Buffer) (rem' : Nat) : Stack State := inFrame do
  let block ← create 16
  concat block m rem'
  let one ← block.sub rem' 1
  one.store [1]
  processLastBlock_ block st

/-- Subtract the modulus when the accumulator is not below it. -/
def lastPass_ (acc : Felem) : Felem :=
  let a0 := getElem acc 0 bottomLimb
  let a1 := getElem acc 1 middleLimb
  let a2 := getElem acc 2 topLimb
  let mask0 := gteMask a0 p44m5
  let mask1 := eqMask a1 p44m1
  let mask2 := eqMask a2 p42m1
  let mask := mask0 &&& mask1 &&& mask2
  let a0' := a0 - (p44m5 &&& mask)
  let a1' := a1 - (p44m1 &&& mask)
  let a2' := a2 - (p42m1 &&& mask)
  #v[a0', a1', a2']

/-- Carry from the bottom to the top limb. -/
def carryLimbUnrolled (acc : Felem) : Felem :=
  let a0 := getElem acc 0 bottomLimb
  let a1 := getElem acc 1 middleLimb
  let a2 := getElem acc 2 topLimb
  let a0' := a0 &&& mask44
  let r0 := a0 >>> 44
  let a1' := (a1 + r0) &&& mask44
  let r1 := (a1 + r0) >>> 44
  let a2' := a2 + r1
  #v[a0', a1', a2']

/-- Fold the top bits, and carry once. -/
def carryLastUnrolled (acc : Felem) : Felem := carry0To1 (carryTop acc)

/-- Reduce the accumulator below the modulus. -/
def lastPass (acc : Felem) : Felem :=
  let acc := carryLimb acc
  let acc := carryTop acc
  let acc := carryLimbUnrolled acc
  let acc := carryLastUnrolled acc
  lastPass_ acc

/-- The low 128 bits of an accumulator. -/
def bignumTo128 (acc : Felem) : Wide :=
  let h0 := getElem acc 0 bottomLimb
  let h1 := getElem acc 1 middleLimb
  let h2 := getElem acc 2 topLimb
  let accl := (h1 <<< 44) ||| h0
  let acch := (h2 <<< 24) ||| (h1 >>> 20)
  (limbToWide acch <<< 64) ||| limbToWide accl

/-- Absorb a final partial block when there is one. -/
def finish' (st : State) (m : Buffer) (len : Nat) : Stack State :=
  if len = 0 then return st
  else processLastBlock st m len

/-- Absorb a final partial block, and reduce the accumulator. -/
def updateLast (st : State) (m : Buffer) (len : Nat) : Stack State := do
  let st ← finish' st m len
  return { st with h := lastPass st.h }

/-- Add the second half of the key to a reduced accumulator, and store the tag. -/
def finish (st : State) (mac keyS : Buffer) : Stack Unit := do
  let k' ← load128Le keyS
  let acc' := bignumTo128 st.h
  let mac' := acc' + k'
  store128Le mac mac'

/-- Absorb whole blocks. -/
def blocks (st : State) (m : Buffer) : Nat → Stack State
  | 0 => return st
  | len + 1 => do
    let block ← m.sub 0 16
    let tail ← m.offset 16
    let st ← update st block
    blocks st tail len

/-- Start with a key, and absorb whole blocks. -/
def poly1305Partial (input : Buffer) (len : Nat) (kr : Buffer) : Stack State := do
  let st ← init kr
  blocks st input len

/-- Absorb a whole message. -/
def complete (m : Buffer) (len : UInt64) (k : Buffer) : Stack State := do
  let kr ← k.sub 0 16
  let len16 := len >>> 4
  let rem16 := len &&& 0xf
  let partInput ← m.sub 0 (16 * len16).toUInt32.toNat
  let lastBlock ← m.sub (16 * len16).toUInt32.toNat rem16.toUInt32.toNat
  let st ← poly1305Partial partInput len16.toNat kr
  updateLast st lastBlock rem16.toNat

/-- Write the tag of a message. -/
def cryptoOnetimeauth (output input : Buffer) (len : UInt64) (k : Buffer) : Stack Unit := do
  let _ ← k.sub 0 16
  let keyS ← k.sub 16 16
  let st ← complete input len k
  finish st output keyS

/-- A mask of forty-four ones. -/
@[simp] theorem mask44_toNat (x : Limb) : (x &&& mask44).toNat = x.toNat % 2 ^ 44 :=
  toNat_and_mask 44 rfl

/-- The specification and the limbs agree on the modulus. -/
theorem prime_eq : Bignum.prime = Spec.Poly1305.prime := rfl

/-- The limbs of a 128-bit number, and its value. -/
theorem split_spec (w : Wide) :
    Bounds #v[wideToLimb w &&& mask44, wideToLimb (w >>> 44) &&& mask44, wideToLimb (w >>> 88)]
      (2 ^ 44) (2 ^ 44) (2 ^ 40) ∧
    seval #v[wideToLimb w &&& mask44, wideToLimb (w >>> 44) &&& mask44, wideToLimb (w >>> 88)] =
      w.toNat := by
  have bound := w.isLt
  have first : (wideToLimb w &&& mask44).toNat = w.toNat % 2 ^ 44 := by
    rw [mask44_toNat, wideToLimb_toNat]
    omega
  have second : (wideToLimb (w >>> 44) &&& mask44).toNat = w.toNat / 2 ^ 44 % 2 ^ 44 := by
    rw [mask44_toNat, wideToLimb_toNat, BitVec.toNat_ushiftRight, Nat.shiftRight_eq_div_pow]
    omega
  have third : (wideToLimb (w >>> 88)).toNat = w.toNat / 2 ^ 88 := by
    rw [wideToLimb_toNat, BitVec.toNat_ushiftRight, Nat.shiftRight_eq_div_pow]
    omega
  refine ⟨⟨?_, ?_, ?_⟩, ?_⟩
  · show (wideToLimb w &&& mask44).toNat < _
    omega
  · show (wideToLimb (w >>> 44) &&& mask44).toNat < _
    omega
  · show (wideToLimb (w >>> 88)).toNat < _
    omega
  · rw [seval_eq]
    show (wideToLimb w &&& mask44).toNat + 2 ^ 44 * (wideToLimb (w >>> 44) &&& mask44).toNat +
      2 ^ 88 * (wideToLimb (w >>> 88)).toNat = _
    rw [first, second, third]
    omega

variable {h : Mem} {b m : Buffer}

/-- Sixteen bytes are loaded as the number they encode. -/
theorem load128Le_run (live : h.Live b) (size : b.length = 16) :
    ∃ w : Wide, w.toNat = littleEndian (h.read b) ∧ load128Le b h = some (w, h) := by
  have bound := littleEndian_lt (h.read b)
  rw [Mem.read_length live, size] at bound
  have all : b.slice 0 16 = b := by rw [← size, Buffer.slice_all]
  refine ⟨BitVec.ofNat 128 (littleEndian (h.read b)), ?_, ?_⟩
  · rw [BitVec.toNat_ofNat, Nat.mod_eq_of_lt bound]
  · rw [load128Le, Stack.bind_run (Buffer.sub_run _ (by omega)), all,
      Stack.bind_run (Buffer.load_run live), Stack.pure_run]

/-- A number is stored as sixteen bytes. -/
theorem store128Le_run (live : h.Live b) (size : 16 ≤ b.length) (z : Wide) :
    store128Le b z h = some ((), h.write b (littleBytes 16 z.toNat)) := by
  rw [store128Le, Stack.bind_run (Buffer.sub_run _ (by omega)),
    Buffer.store_run (live.slice (by omega)) (by rw [littleBytes_length, Buffer.slice_length]),
    Mem.write_slice_zero]

/-- The key is clamped as in the specification. -/
theorem encodeR_run (live : h.Live b) (size : b.length = 16) :
    ∃ r, Red44 r ∧ seval r = Spec.Poly1305.encodeR (h.read b) ∧ encodeR b h = some (r, h) := by
  obtain ⟨w, value, ran⟩ := load128Le_run live size
  obtain ⟨⟨r0, r1, r2⟩, whole⟩ := split_spec (w &&& clampMask)
  refine ⟨_, ⟨r0, r1, by omega⟩, ?_, by rw [encodeR, Stack.bind_run ran, Stack.pure_run]⟩
  rw [whole, BitVec.toNat_and, value]
  rfl

/-- A block that has its one bit is split into limbs. -/
theorem toField_run (live : h.Live b) (size : b.length = 16) :
    ∃ e, Bounds e (2 ^ 44) (2 ^ 44) (2 ^ 40) ∧ seval e = littleEndian (h.read b) ∧
      toField b h = some (e, h) := by
  obtain ⟨w, value, ran⟩ := load128Le_run live size
  obtain ⟨bound, whole⟩ := split_spec w
  exact ⟨_, bound, by rw [whole, value], by rw [toField, Stack.bind_run ran, Stack.pure_run]⟩

/-- A whole block gets a one bit above its bytes. -/
theorem toFieldPlus2128_run (live : h.Live b) (size : b.length = 16) :
    ∃ e, Red44 e ∧ seval e = littleEndian (h.read b) + 2 ^ 128 ∧
      toFieldPlus2128 b h = some (e, h) := by
  obtain ⟨e, ⟨e0, e1, e2⟩, value, ran⟩ := toField_run live size
  -- The top limb has forty bits, so the one bit does not meet them.
  have top : ((0x10000000000 : Limb) ||| e[2]).toNat = 2 ^ 40 + e[2].toNat := by
    rw [UInt64.toNat_or]
    exact @mul_or_eq_add 1 _ _ e2
  have replaced (x : Limb) : (e.set 2 x)[0] = e[0] ∧ (e.set 2 x)[1] = e[1] ∧ (e.set 2 x)[2] = x := by
    simp
  obtain ⟨first, second, third⟩ := replaced ((0x10000000000 : Limb) ||| e[2])
  refine ⟨e.set 2 ((0x10000000000 : Limb) ||| e[2]), ⟨?_, ?_, ?_⟩, ?_, ?_⟩
  · rw [first]
    exact e0
  · rw [second]
    exact e1
  · rw [third, top]
    omega
  · rw [seval_eq] at value ⊢
    rw [first, second, third, top]
    omega
  · rw [toFieldPlus2128, Stack.bind_run ran, Stack.pure_run]

/-- A state has absorbed a text under a key: its limbs are bounded, and its value is the polynomial. -/
structure Absorbed (kr : Bytes) (text : List Bytes) (st : State) : Prop where
  key : Red44 st.r
  keyValue : seval st.r = Spec.Poly1305.encodeR kr
  acc : Red45 st.h
  accValue : seval st.h % Spec.Poly1305.prime =
    Spec.Poly1305.poly text (Spec.Poly1305.encodeR kr)

variable {st : State} {kr : Bytes} {text : List Bytes}

/-- The initial state has absorbed nothing. -/
theorem init_run (live : h.Live b) (size : b.length = 16) :
    ∃ st, Absorbed (h.read b) [] st ∧ st.h = start ∧ init b h = some (st, h) := by
  obtain ⟨r, bound, value, ran⟩ := encodeR_run live size
  have all : b.slice 0 16 = b := by rw [← size, Buffer.slice_all]
  have zero : Red45 start := ⟨by decide, by decide, by decide⟩
  have empty : seval start % Spec.Poly1305.prime = 0 := by decide
  refine ⟨⟨r, start⟩, ⟨bound, value, zero, empty⟩, rfl, ?_⟩
  rw [init, Stack.bind_run (Buffer.sub_run _ (by omega)), all, Stack.bind_run ran, Stack.pure_run]

/-- Adding a block and multiplying by the key absorbs the block. -/
theorem Absorbed.step (absorbed : Absorbed kr text st) {e : Felem} (bound : Red44 e) {w : Bytes}
    (value : seval e = littleEndian w + 2 ^ (8 * w.length)) :
    Absorbed kr (w :: text) { st with h := addAndMultiply st.h e st.r } := by
  obtain ⟨acc, product⟩ := addAndMultiply_spec absorbed.acc bound absorbed.key
  refine ⟨absorbed.key, absorbed.keyValue, acc, ?_⟩
  rw [prime_eq, absorbed.keyValue] at product
  -- The polynomial adds the same block to the same value modulo the modulus.
  rw [Spec.Poly1305.poly, ← absorbed.accValue, Spec.Poly1305.fmul, Spec.Poly1305.fadd,
    Spec.Poly1305.encode, Spec.Poly1305.fadd, Nat.add_comm (2 ^ (8 * w.length)), ← value]
  show seval (addAndMultiply st.h e st.r) % _ = _
  rw [product, ← Nat.add_mod, Nat.mod_mul_mod, Nat.add_comm]

/-- A relation of texts and states that every whole block extends. -/
def Tracks (Absorbs : List Bytes → State → Prop) : Prop :=
  ∀ ⦃text : List Bytes⦄ ⦃st : State⦄ ⦃e : Felem⦄ ⦃w : Bytes⦄, Absorbs text st → Red44 e →
    w.length = 16 → seval e = littleEndian w + 2 ^ 128 →
    Absorbs (w :: text) { st with h := addAndMultiply st.h e st.r }

/-- Whole blocks are absorbed. -/
theorem absorbed_tracks (kr : Bytes) : Tracks (Absorbed kr) := by
  intro text st e w absorbed bound size value
  exact absorbed.step bound (by rw [value, size])

variable {Absorbs : List Bytes → State → Prop}

/-- A whole block is absorbed. -/
theorem update_run (tracks : Tracks Absorbs) (absorbed : Absorbs text st) (live : h.Live m)
    (size : m.length = 16) :
    ∃ st', Absorbs (h.read m :: text) st' ∧ update st m h = some (st', h) := by
  obtain ⟨e, bound, value, ran⟩ := toFieldPlus2128_run live size
  have bytes : (h.read m).length = 16 := (Mem.read_length live).trans size
  exact ⟨_, tracks absorbed bound bytes value, by rw [update, Stack.bind_run ran, Stack.pure_run]⟩

/-- Absorbing block after block absorbs a message of whole blocks, whatever the limbs are. -/
theorem absorb_blocks {σ : Type} {Absorbs : List Bytes → σ → Prop} (step : σ → Buffer → Stack σ)
    (run : σ → Buffer → Nat → Stack σ) {total : Nat}
    (absorb : ∀ {text st m}, Absorbs text st → h.Live m → m.length = 16 →
      ∃ st', Absorbs (h.read m :: text) st' ∧ step st m h = some (st', h))
    (stop : ∀ st m, run st m 0 h = some (st, h))
    (next : ∀ {st st' m n}, n < total → 16 * (n + 1) ≤ m.length →
      step st (m.slice 0 16) h = some (st', h) →
      run st m (n + 1) h = run st' (m.slice 16 (m.length - 16)) n h)
    {done : Bytes} (whole : done.length % 16 = 0) {st : σ}
    (absorbed : Absorbs (Spec.Poly1305.encodeBytes done) st) (live : h.Live m) {len : Nat}
    (within : len ≤ total) (fits : 16 * len ≤ m.length) :
    ∃ st', Absorbs (Spec.Poly1305.encodeBytes (done ++ (h.read m).take (16 * len))) st' ∧
      run st m len h = some (st', h) := by
  -- Each step absorbs the first block of the message that is left.
  induction len generalizing done st m with
  | zero => exact ⟨st, by simpa using absorbed, stop st m⟩
  | succ len ih =>
    have bytes := Mem.read_length live
    have first := Mem.read_slice h m (i := 0) (n := 16) (by omega)
    have rest := Mem.read_slice h m (i := 16) (n := m.length - 16) (by omega)
    rw [List.drop_zero] at first
    rw [List.take_of_length_le (by rw [List.length_drop]; omega)] at rest
    have one : ((h.read m).take 16).length = 16 := by rw [List.length_take]; omega
    obtain ⟨st', absorbed', ran⟩ := absorb absorbed (live.slice (i := 0) (n := 16) (by omega)) rfl
    rw [first, ← Spec.Poly1305.encodeBytes_concat whole (by
      intro empty
      rw [empty] at one
      exact absurd one (by decide)) one.le] at absorbed'
    obtain ⟨st'', absorbed'', ran'⟩ := ih (by rw [List.length_append, one]; omega) absorbed'
      (live.slice (i := 16) (n := m.length - 16) (by omega)) (by omega)
      (by rw [Buffer.slice_length]; omega)
    rw [rest, List.append_assoc, ← List.take_add, Nat.add_comm 16, ← Nat.mul_succ] at absorbed''
    exact ⟨st'', absorbed'', by rw [next within fits ran, ran']⟩

/-- Whole blocks are absorbed. -/
theorem blocks_run (tracks : Tracks Absorbs) {done : Bytes} (whole : done.length % 16 = 0)
    (absorbed : Absorbs (Spec.Poly1305.encodeBytes done) st) (live : h.Live m) (len : Nat)
    (fits : 16 * len ≤ m.length) :
    ∃ st', Absorbs (Spec.Poly1305.encodeBytes (done ++ (h.read m).take (16 * len))) st' ∧
      blocks st m len h = some (st', h) := by
  refine absorb_blocks update blocks (update_run tracks) (fun _ _ => rfl) ?_ whole absorbed live le_rfl fits
  intro st st' m n _ fits ran
  rw [blocks, Stack.bind_run (Buffer.sub_run _ (by omega)),
    Stack.bind_run (Buffer.offset_run _ (by omega)), Stack.bind_run ran]

/-- A partial block is copied to a zero block, and a one is put after it. -/
theorem lastBlock_run {σ : Type} {absorb : Buffer → Stack σ} {Absorbs : σ → Prop} (live : h.Live m)
    {len : Nat} (short : len < 16) (fits : len ≤ m.length)
    (absorbs : ∀ {h' : Mem} {block : Buffer}, h'.Live block → block.length = 16 →
      h'.read block = (h.read m).take len ++ 1 :: List.replicate (16 - (len + 1)) 0 →
      ∃ st', Absorbs st' ∧ absorb block h' = some (st', h')) :
    ∃ st', Absorbs st' ∧ inFrame (do
      let block ← create 16
      Buffer.blit m 0 block 0 len
      let one ← block.sub len 1
      one.store [1]
      absorb block) h = some (st', h) := by
  have bytes := Mem.read_length live
  set w := (h.read m).take len with w_def
  have size : w.length = len := by rw [w_def, List.length_take]; omega
  have fresh := Mem.fresh_live h 16
  have covers : (h.fresh 16).length = 16 := rfl
  have copied : Buffer.blit m 0 (h.fresh 16) 0 len (h.alloc 16) =
      some ((), Mem.write (h.alloc 16) (h.fresh 16) w) := by
    rw [Buffer.blit_run (live.alloc 16) fresh (by omega) (by omega), Mem.write_slice_zero,
      Mem.read_alloc live, List.drop_zero]
  have fresh' : (Mem.write (h.alloc 16) (h.fresh 16) w).Live (h.fresh 16) :=
    fresh.write fresh (by omega)
  have marked := Mem.write_append fresh w [1] 1 (by simp; omega) (by simp) (by omega)
  rw [size] at marked
  have filled : (Mem.write (h.alloc 16) (h.fresh 16) (w ++ [1])).read (h.fresh 16) =
      w ++ 1 :: List.replicate (16 - (len + 1)) 0 := by
    rw [Mem.read_write_prefix fresh (by simp; omega), Mem.read_fresh, List.drop_replicate,
      List.length_append, size, List.append_assoc]
    rfl
  have fresh'' : (Mem.write (h.alloc 16) (h.fresh 16) (w ++ [1])).Live (h.fresh 16) :=
    fresh.write fresh (by simp; omega)
  obtain ⟨st', absorbed, ran⟩ := absorbs fresh'' covers filled
  have ran' : (do
      let block ← create 16
      Buffer.blit m 0 block 0 len
      let one ← block.sub len 1
      one.store [1]
      absorb block : Stack σ) h =
        some (st', Mem.write (h.alloc 16) (h.fresh 16) (w ++ [1])) := by
    rw [Stack.bind_run (create_run 16), Stack.bind_run copied,
      Stack.bind_run (Buffer.sub_run _ (by omega)),
      Stack.bind_run (Buffer.store_run (fresh'.slice (by omega)) (by simp)), marked, ran]
  exact ⟨st', absorbed, by rw [inFrame_run ran', Mem.take_write_fresh, Mem.take_alloc]⟩

/-- A partial block is absorbed as the block of its bytes. -/
theorem processLastBlock_run {done : Bytes} (whole : done.length % 16 = 0)
    (absorbed : Absorbed kr (Spec.Poly1305.encodeBytes done) st) (live : h.Live m) {len : Nat}
    (positive : 0 < len) (short : len < 16) (fits : len ≤ m.length) :
    ∃ st', Absorbed kr (Spec.Poly1305.encodeBytes (done ++ (h.read m).take len)) st' ∧
      processLastBlock st m len h = some (st', h) := by
  have bytes := Mem.read_length live
  set w := (h.read m).take len with w_def
  have size : w.length = len := by rw [w_def, List.length_take]; omega
  have nonempty : w ≠ [] := List.ne_nil_of_length_pos (by omega)
  refine lastBlock_run live short fits fun {h' block} fresh covers filled => ?_
  obtain ⟨e, ⟨e0, e1, e2⟩, value, ran⟩ := toField_run fresh covers
  rw [filled, littleEndian_one_above] at value
  refine ⟨_, ?_, by rw [processLastBlock_, Stack.bind_run ran, Stack.pure_run]⟩
  rw [Spec.Poly1305.encodeBytes_concat whole nonempty (by omega)]
  exact absorbed.step ⟨e0, e1, by omega⟩ value

/-- The unrolled carries are the carries over the three limbs. -/
theorem carryLimbUnrolled_eq (acc : Felem) : carryLimbUnrolled acc = carryLimb acc := by
  apply Vector.ext
  intro i inside
  -- Limb by limb both sides compute the same words.
  interval_cases i <;> simp [carryLimbUnrolled, carryLimb, carryLimbStep, mask44, climbMask]

/-- The carries before the final subtraction bring the limbs in range, and keep the value. -/
theorem carries_spec {acc : Felem} (bound : Red45 acc) :
    Bounds (carryLastUnrolled (carryLimbUnrolled (carryTop (carryLimb acc))))
      (2 ^ 44) (2 ^ 44) (2 ^ 42) ∧
    seval (carryLastUnrolled (carryLimbUnrolled (carryTop (carryLimb acc)))) ≡ seval acc
      [MOD Bignum.prime] := by
  obtain ⟨limb0, limb1, limb2, keeps⟩ := carryLimb_toNat bound
  obtain ⟨a0, a1, a2⟩ := bound
  obtain ⟨top0, top1, top2, keeps'⟩ := carryTop_toNat (a := carryLimb acc) (by omega)
  set e := carryTop (carryLimb acc)
  rw [← UInt64.toNat_inj] at top1
  obtain ⟨next0, next1, next2, keeps''⟩ := carryLimb_toNat (a := e) ⟨by omega, by omega, by omega⟩
  rw [carryLimbUnrolled_eq]
  set f := carryLimb e
  -- The top limb overflows only where the carry has emptied the middle limb.
  have f0 : f[0].toNat < 2 ^ 44 := by omega
  have full : f[2].toNat < 2 ^ 42 ∨ f[2].toNat = 2 ^ 42 ∧ f[1].toNat = 0 := by omega
  have f1 : f[1].toNat < 2 ^ 44 := by omega
  clear next0 next1 next2 top0 top1 top2 limb0 limb1 limb2
  obtain ⟨high0, high1, high2, folds⟩ := carryTop_toNat (a := f) (by omega)
  rw [← UInt64.toNat_inj] at high1
  obtain ⟨last0, last1, last2, folds'⟩ := carry0To1_toNat (a := carryTop f) (by omega)
  rw [← UInt64.toNat_inj] at last2
  refine ⟨⟨?_, ?_, ?_⟩, ?_⟩
  · rw [carryLastUnrolled, last0]
    omega
  · rw [carryLastUnrolled, last1]
    omega
  · rw [carryLastUnrolled, last2]
    omega
  · calc seval (carryLastUnrolled f) = seval (carryTop f) := folds'
      _ ≡ seval f [MOD Bignum.prime] := folds
      _ = seval e := keeps''
      _ ≡ seval (carryLimb acc) [MOD Bignum.prime] := keeps'
      _ = seval acc := keeps

/-- The final subtraction reduces the value below the modulus. -/
theorem subtractPrime_spec {acc : Felem} (bound : Bounds acc (2 ^ 44) (2 ^ 44) (2 ^ 42)) :
    Bounds (lastPass_ acc) (2 ^ 44) (2 ^ 44) (2 ^ 42) ∧
      seval (lastPass_ acc) = seval acc % Bignum.prime := by
  obtain ⟨a0, a1, a2⟩ := bound
  have value := seval_eq acc
  have value' := seval_eq (lastPass_ acc)
  have modulus : Bignum.prime = 2 ^ 130 - 5 := rfl
  -- The value is at least the modulus exactly when all three masks are ones.
  by_cases above : p44m5 ≤ acc[0] ∧ acc[1] = p44m1 ∧ acc[2] = p42m1
  · obtain ⟨low, middle, high⟩ := above
    have mask : gteMask acc[0] p44m5 &&& eqMask acc[1] p44m1 &&& eqMask acc[2] p42m1 =
        0xffffffffffffffff := by
      rw [gteMask, if_pos low, eqMask, if_pos middle, eqMask, if_pos high]
      rfl
    have least : p44m5.toNat ≤ acc[0].toNat := UInt64.le_iff_toNat_le.mp low
    have e0 : (lastPass_ acc)[0].toNat = acc[0].toNat - p44m5.toNat := by
      show (acc[0] - (p44m5 &&& _)).toNat = _
      rw [mask, show p44m5 &&& 0xffffffffffffffff = p44m5 from rfl, UInt64.toNat_sub_of_le _ _ low]
    have e1 : (lastPass_ acc)[1].toNat = 0 := by
      show (acc[1] - (p44m1 &&& _)).toNat = _
      rw [mask, middle]
      rfl
    have e2 : (lastPass_ acc)[2].toNat = 0 := by
      show (acc[2] - (p42m1 &&& _)).toNat = _
      rw [mask, high]
      rfl
    have m0 : p44m5.toNat = 2 ^ 44 - 5 := rfl
    have m1 : acc[1].toNat = 2 ^ 44 - 1 := by rw [middle]; rfl
    have m2 : acc[2].toNat = 2 ^ 42 - 1 := by rw [high]; rfl
    exact ⟨⟨by omega, by omega, by omega⟩, by rw [modulus]; omega⟩
  · have mask : gteMask acc[0] p44m5 &&& eqMask acc[1] p44m1 &&& eqMask acc[2] p42m1 = 0 := by
      unfold gteMask eqMask
      split_ifs <;> first | rfl | exact absurd ⟨‹_›, ‹_›, ‹_›⟩ above
    have same : lastPass_ acc = acc := by
      apply Vector.ext
      intro i inside
      simp only [lastPass_, mask, UInt64.and_zero, UInt64.sub_zero]
      interval_cases i <;> rfl
    have below : ¬ (2 ^ 44 - 5 ≤ acc[0].toNat ∧ acc[1].toNat = 2 ^ 44 - 1 ∧
        acc[2].toNat = 2 ^ 42 - 1) := by
      rintro ⟨low, middle, high⟩
      exact above ⟨UInt64.le_iff_toNat_le.mpr low, UInt64.toNat_inj.mp middle,
        UInt64.toNat_inj.mp high⟩
    rw [same]
    exact ⟨⟨a0, a1, a2⟩, by rw [modulus]; omega⟩

/-- The reduced accumulator is the value modulo the modulus. -/
theorem lastPass_spec {acc : Felem} (bound : Red45 acc) :
    Bounds (lastPass acc) (2 ^ 44) (2 ^ 44) (2 ^ 42) ∧
      seval (lastPass acc) = seval acc % Bignum.prime := by
  obtain ⟨carried, keeps⟩ := carries_spec bound
  obtain ⟨reduced, value⟩ := subtractPrime_spec carried
  exact ⟨reduced, value.trans keeps⟩

/-- The low 128 bits of the value. -/
theorem bignumTo128_toNat {acc : Felem} (bound : Bounds acc (2 ^ 44) (2 ^ 44) (2 ^ 42)) :
    (bignumTo128 acc).toNat = seval acc % 2 ^ 128 := by
  obtain ⟨a0, a1, a2⟩ := bound
  -- Each half is made of bits that do not overlap.
  have low : ((acc[1] <<< 44) ||| acc[0]).toNat = acc[1].toNat % 2 ^ 20 * 2 ^ 44 + acc[0].toNat := by
    rw [UInt64.toNat_or, toNat_shiftLeft 44 rfl (by omega), ← mul_or_eq_add a0]
    congr 1
    omega
  have high : ((acc[2] <<< 24) ||| (acc[1] >>> 20)).toNat =
      acc[2].toNat % 2 ^ 40 * 2 ^ 24 + acc[1].toNat / 2 ^ 20 := by
    rw [UInt64.toNat_or, toNat_shiftLeft 24 rfl (by omega), toNat_shiftRight 20 rfl (by omega),
      ← mul_or_eq_add (by omega)]
    congr 1
    omega
  have lifted (x : Limb) : (limbToWide x <<< 64).toNat = x.toNat * 2 ^ 64 := by
    have small := x.toNat_lt
    rw [BitVec.toNat_shiftLeft, limbToWide_toNat, Nat.shiftLeft_eq]
    omega
  show ((limbToWide ((acc[2] <<< 24) ||| (acc[1] >>> 20)) <<< 64) |||
    limbToWide ((acc[1] <<< 44) ||| acc[0])).toNat = _
  rw [BitVec.toNat_or, lifted, limbToWide_toNat, mul_or_eq_add (UInt64.toNat_lt _), low, high,
    seval_eq]
  omega

/-- A final partial block is absorbed, and the accumulator is the polynomial of the text. -/
theorem updateLast_run {done : Bytes} (whole : done.length % 16 = 0)
    (absorbed : Absorbed kr (Spec.Poly1305.encodeBytes done) st) (live : h.Live m) (len : Nat)
    (short : len < 16) (fits : len ≤ m.length) :
    ∃ st', Bounds st'.h (2 ^ 44) (2 ^ 44) (2 ^ 42) ∧
      seval st'.h = Spec.Poly1305.poly (Spec.Poly1305.encodeBytes (done ++ (h.read m).take len))
        (Spec.Poly1305.encodeR kr) ∧
      updateLast st m len h = some (st', h) := by
  have last : ∃ st', Absorbed kr (Spec.Poly1305.encodeBytes (done ++ (h.read m).take len)) st' ∧
      finish' st m len h = some (st', h) := by
    rcases Nat.eq_zero_or_pos len with rfl | positive
    · exact ⟨st, by simpa using absorbed, rfl⟩
    · rw [finish', if_neg (by omega)]
      exact processLastBlock_run whole absorbed live positive short fits
  obtain ⟨st', absorbed', ran⟩ := last
  obtain ⟨bound, value⟩ := lastPass_spec absorbed'.acc
  exact ⟨{ st' with h := lastPass st'.h }, bound, value.trans absorbed'.accValue, by
    rw [updateLast, Stack.bind_run ran, Stack.pure_run]⟩

/-- The tag is the low half of the sum of the polynomial and the second half of the key. -/
theorem finish_run {mac keyS : Buffer} (live : h.Live mac) (live' : h.Live keyS)
    (size : 16 ≤ mac.length) (size' : keyS.length = 16)
    (bound : Bounds st.h (2 ^ 44) (2 ^ 44) (2 ^ 42)) :
    finish st mac keyS h =
      some ((), h.write mac (Spec.Poly1305.finish (seval st.h) (h.read keyS))) := by
  obtain ⟨w, value, ran⟩ := load128Le_run live' size'
  -- The 128-bit addition drops the carry.
  rw [finish, Stack.bind_run ran, store128Le_run live size, BitVec.toNat_add, bignumTo128_toNat bound,
    value, Nat.mod_add_mod, Spec.Poly1305.finish]

/-- The whole blocks of a message and the rest, as the code computes them from its length. -/
structure SplitLength (len : UInt64) : Prop where
  blocks : (len >>> 4).toNat = len.toNat / 16
  rest : (len &&& 0xf).toNat = len.toNat % 16
  start : ((16 : UInt64) * (len >>> 4)).toUInt32.toNat = 16 * (len.toNat / 16)
  rest32 : (len &&& 0xf).toUInt32.toNat = len.toNat % 16

/-- The code splits every length that fits in 32 bits. -/
theorem splitLength (len : UInt64) (bounded : len.toNat < 2 ^ 32) : SplitLength len := by
  have len16 : (len >>> 4).toNat = len.toNat / 16 := toNat_shiftRight 4 rfl (by omega)
  have rem16 : (len &&& 0xf).toNat = len.toNat % 16 := toNat_and_mask 4 rfl
  refine ⟨len16, rem16, ?_, ?_⟩
  · rw [UInt64.toNat_toUInt32, UInt64.toNat_mul, len16]
    show 16 * (len.toNat / 16) % 2 ^ 64 % 2 ^ 32 = _
    omega
  · rw [UInt64.toNat_toUInt32, rem16]
    omega

/-- The whole blocks of a message and the rest make up the message. -/
theorem read_split (h : Mem) {input : Buffer} {len : Nat} (fits : len ≤ input.length) :
    ((h.read (input.slice 0 (16 * (len / 16)))).take (16 * (len / 16))) ++
      (h.read (input.slice (16 * (len / 16)) (len % 16))).take (len % 16) = (h.read input).take len := by
  rw [Mem.read_slice _ _ (by omega), Mem.read_slice _ _ (by omega), List.drop_zero, List.take_take,
    List.take_take, Nat.min_self, Nat.min_self, ← List.take_add, Nat.div_add_mod]

/-- The implementation writes the tag of the first `len` input bytes. -/
theorem cryptoOnetimeauth_run {output input k : Buffer} (len : UInt64) (live : h.Live output)
    (live' : h.Live input) (live'' : h.Live k) (size : 16 ≤ output.length) (keySize : k.length = 32)
    (bounded : len.toNat < 2 ^ 32) (fits : len.toNat ≤ input.length) :
    cryptoOnetimeauth output input len k h =
      some ((), h.write output (Spec.Poly1305.poly1305 ((h.read input).take len.toNat) (h.read k))) := by
  obtain ⟨len16, rem16, start, short⟩ := splitLength len bounded
  have keyBytes := Mem.read_length live''
  have text := Mem.read_length live'
  have key := live''.slice (i := 0) (n := 16) (by omega)
  have part := live'.slice (i := 0) (n := 16 * (len.toNat / 16)) (by omega)
  have last := live'.slice (i := 16 * (len.toNat / 16)) (n := len.toNat % 16) (by omega)
  obtain ⟨st, started, -, ran⟩ := init_run key rfl
  rw [← Spec.Poly1305.encodeBytes_nil] at started
  obtain ⟨st', absorbed, ran'⟩ := blocks_run (absorbed_tracks _) rfl started part (len.toNat / 16) le_rfl
  rw [List.nil_append] at absorbed
  obtain ⟨st'', bound, value, ran''⟩ := updateLast_run
    (by rw [List.length_take, Mem.read_length part, Buffer.slice_length]; omega) absorbed last
    (len.toNat % 16) (by omega) le_rfl
  rw [read_split h fits, Mem.read_slice _ _ (by omega), List.drop_zero] at value
  have ran''' : complete input len k h = some (st'', h) := by
    rw [complete, Stack.bind_run (Buffer.sub_run _ (by omega)), start, short, len16, rem16,
      Stack.bind_run (Buffer.sub_run _ (by omega)), Stack.bind_run (Buffer.sub_run _ (by omega)),
      poly1305Partial, Stack.bind_run (by rw [Stack.bind_run ran, ran']), ran'']
  rw [cryptoOnetimeauth, Stack.bind_run (Buffer.sub_run _ (by omega)),
    Stack.bind_run (Buffer.sub_run _ (by omega)), Stack.bind_run ran''',
    finish_run live (live''.slice (by omega)) size rfl bound, value, Mem.read_slice _ _ (by omega)]
  rfl

end HaclStar.Impl.Poly1305
