import HaclStar.Impl.FiveLimbsReduce
import HaclStar.Impl.Poly1305

/-! The Poly1305 implementation on 26-bit limbs in 32-bit words. -/

namespace HaclStar.Impl.Poly1305Word32

open Endianness Memory Limbs FiveLimbs
open Poly1305 (load128Le store128Le load128Le_run store128Le_run clampMask prime_eq)

abbrev Limb := BitVec 32

def mask26 : Limb := 0x3ffffff

def p26m5 : Limb := 0x3fffffb

def p26m1 : Limb := 0x3ffffff

/-- The field: five is a shift and an addition, in a single word. -/
def field : Modulo 32 where
  limbSize := 26
  factor := 5
  climbMask := mask26
  times x := (x <<< 2) + x
  timesWide x := limbToWide ((x <<< 2) + x)
  limbSize_pos := by decide
  limbSize_lt := by decide
  factor_pos := by decide
  factor_lt := by decide
  climbMask_toNat := rfl
  times_toNat x fits := by
    rw [BitVec.toNat_add, BitVec.toNat_shiftLeft, Nat.shiftLeft_eq]
    omega
  timesWide_toNat x fits := by
    rw [limbToWide_toNat, BitVec.toNat_add, BitVec.toNat_shiftLeft, Nat.shiftLeft_eq]
    omega

/-- The clamped key and the accumulator. -/
structure State where
  r : Felem 32
  h : Felem 32

/-- Load four little-endian bytes. -/
def load32Le (b : Buffer) : Stack Limb := do
  let bytes ← b.load
  return BitVec.ofNat 32 (littleEndian bytes)

/-- The limb of a 128-bit number from a bit on. -/
def shiftMask (k : BitVec 128) (x : Nat) : Limb := (k >>> x).setWidth 32 &&& mask26

/-- Load the key, clamp it and split it into limbs. -/
def encodeR (key : Buffer) : Stack (Felem 32) := do
  let k ← load128Le key
  let kClamped := k &&& clampMask
  let r0 := shiftMask kClamped 0
  let r1 := shiftMask kClamped 26
  let r2 := shiftMask kClamped 52
  let r3 := shiftMask kClamped 78
  let r4 := shiftMask kClamped 104
  return upd5 r0 r1 r2 r3 r4

/-- Load a block and split it into limbs: each limb lies in four bytes. -/
def toField (block : Buffer) : Stack (Felem 32) := do
  let s0 ← block.sub 0 4
  let s1 ← block.sub 3 4
  let s2 ← block.sub 6 4
  let s3 ← block.sub 9 4
  let s4 ← block.sub 12 4
  let i0 ← load32Le s0
  let i1 ← load32Le s1
  let i2 ← load32Le s2
  let i3 ← load32Le s3
  let i4 ← load32Le s4
  let r0 := i0 &&& mask26
  let r1 := (i1 >>> 2) &&& mask26
  let r2 := (i2 >>> 4) &&& mask26
  let r3 := (i3 >>> 6) &&& mask26
  let r4 := i4 >>> 8
  return upd5 r0 r1 r2 r3 r4

/-- Put a one bit above the bytes of a block. -/
def plus2128 (b : Felem 32) : Felem 32 :=
  let b4' := 0x1000000 ||| b.get limb4
  upd5 (b.get limb0) (b.get limb1) (b.get limb2) (b.get limb3) b4'

/-- Load a whole block, with a one bit above its bytes. -/
def toFieldPlus2128 (m : Buffer) : Stack (Felem 32) := do
  let b ← toField m
  return plus2128 b

/-- The zero accumulator. -/
def start : Felem 32 := upd5 0 0 0 0 0

/-- The state before the first block. -/
def init (key : Buffer) : Stack State := do
  let key ← key.sub 0 16
  let r ← encodeR key
  return ⟨r, start⟩

/-- Add a block to the accumulator, and multiply by the key. -/
def addAndMultiply (acc block r : Felem 32) : Felem 32 :=
  let acc := fsum acc block
  field.fmul acc r

/-- Absorb a whole block. -/
def update (st : State) (m : Buffer) : Stack State := do
  let tmp ← toFieldPlus2128 m
  return { st with h := addAndMultiply st.h tmp st.r }

/-- Copy a partial block to the start of a block. -/
def concat (b m : Buffer) (len : Nat) : Stack Unit := Buffer.blit m 0 b 0 len

/-- Absorb a block that already has its one bit. -/
def processLastBlock_ (block : Buffer) (st : State) : Stack State := do
  let tmp ← toField block
  return { st with h := addAndMultiply st.h tmp st.r }

/-- Absorb a final partial block: its bytes, a one and zeros. -/
def processLastBlock (st : State) (m : Buffer) (rem' : Nat) : Stack State := inFrame do
  let block ← create 16
  concat block m rem'
  let one ← block.sub rem' 1
  one.store [1]
  processLastBlock_ block st

/-- Subtract the modulus when the accumulator is not below it. -/
def lastPass_ (acc : Felem 32) : Felem 32 :=
  let a0 := acc.get limb0
  let a1 := acc.get limb1
  let a2 := acc.get limb2
  let a3 := acc.get limb3
  let a4 := acc.get limb4
  let mask0 := gteMask a0 p26m5
  let mask1 := eqMask a1 p26m1
  let mask2 := eqMask a2 p26m1
  let mask3 := eqMask a3 p26m1
  let mask4 := eqMask a4 p26m1
  let mask := mask0 &&& mask1 &&& mask2 &&& mask3 &&& mask4
  let a0' := a0 - (p26m5 &&& mask)
  let a1' := a1 - (p26m1 &&& mask)
  let a2' := a2 - (p26m1 &&& mask)
  let a3' := a3 - (p26m1 &&& mask)
  let a4' := a4 - (p26m1 &&& mask)
  upd5 a0' a1' a2' a3' a4'

/-- Carry from the bottom to the top limb. -/
def fcontractFirstCarryPass (acc : Felem 32) : Felem 32 :=
  let t0 := acc.get limb0
  let t1 := acc.get limb1
  let t2 := acc.get limb2
  let t3 := acc.get limb3
  let t4 := acc.get limb4
  let t1' := t1 + (t0 >>> 26)
  let t0' := t0 &&& mask26
  let t2' := t2 + (t1' >>> 26)
  let t1'' := t1' &&& mask26
  let t3' := t3 + (t2' >>> 26)
  let t2'' := t2' &&& mask26
  let t4' := t4 + (t3' >>> 26)
  let t3'' := t3' &&& mask26
  upd5 t0' t1'' t2'' t3'' t4'

/-- The first carries of the contraction. -/
def fcontractFirstCarryFull (acc : Felem 32) : Felem 32 :=
  let acc := fcontractFirstCarryPass acc
  field.carryTop acc

/-- The second carries of the contraction: the same pass, and a last carry from the bottom. -/
def fcontractSecondCarryPassFull (acc : Felem 32) : Felem 32 :=
  let acc := fcontractFirstCarryPass acc
  let acc := field.carryTop acc
  field.carry0To1 acc

/-- Reduce the accumulator below the modulus. -/
def lastPass (acc : Felem 32) : Felem 32 :=
  let acc := field.carryLimb acc
  let acc := field.carryTop acc
  let acc := fcontractFirstCarryFull acc
  let acc := fcontractSecondCarryPassFull acc
  lastPass_ acc

/-- The low 128 bits of an accumulator. -/
def bignumTo128 (acc : Felem 32) : BitVec 128 :=
  let x0 := (acc.get limb0).setWidth 128
  let x1 := (acc.get limb1).setWidth 128 <<< 26
  let x2 := (acc.get limb2).setWidth 128 <<< 52
  let x3 := (acc.get limb3).setWidth 128 <<< 78
  let x4 := (acc.get limb4).setWidth 128 <<< 104
  x4 ||| (x3 ||| (x2 ||| (x1 ||| x0)))

/-- Absorb a final partial block when there is one. -/
def finish' (st : State) (m : Buffer) (len : Nat) : Stack State :=
  if len = 0 then return st
  else processLastBlock st m len

/-- Absorb a final partial block, and reduce the accumulator. -/
def updateLast (st : State) (m : Buffer) (len : Nat) : Stack State := do
  let st ← finish' st m len
  return { st with h := lastPass st.h }

/-- Add the second half of the key to a reduced accumulator, and store the tag. -/
def finish (st : State) (mac keyS : Buffer) : Stack Unit := do
  let k' ← load128Le keyS
  let acc' := bignumTo128 st.h
  let mac' := acc' + k'
  store128Le mac mac'

/-- Absorb whole blocks. -/
def blocks (st : State) (m : Buffer) : Nat → Stack State
  | 0 => return st
  | len + 1 => do
    let block ← m.sub 0 16
    let tail ← m.offset 16
    let st ← update st block
    blocks st tail len

/-- Start with a key, and absorb whole blocks. -/
def poly1305Partial (input : Buffer) (len : Nat) (kr : Buffer) : Stack State := do
  let st ← init kr
  blocks st input len

/-- Absorb a whole message. -/
def complete (m : Buffer) (len : UInt64) (k : Buffer) : Stack State := do
  let kr ← k.sub 0 16
  let len16 := len >>> 4
  let rem16 := len &&& 0xf
  let partInput ← m.sub 0 (16 * len16).toUInt32.toNat
  let lastBlock ← m.sub (16 * len16).toUInt32.toNat rem16.toUInt32.toNat
  let st ← poly1305Partial partInput len16.toNat kr
  updateLast st lastBlock rem16.toNat

/-- Write the tag of a message. -/
def cryptoOnetimeauth_ (output input : Buffer) (len : UInt64) (k : Buffer) : Stack Unit := do
  let _ ← k.sub 0 16
  let keyS ← k.sub 16 16
  let st ← complete input len k
  finish st output keyS

/-- Write the tag of a message. -/
def cryptoOnetimeauth (output input : Buffer) (len : UInt64) (k : Buffer) : Stack Unit :=
  cryptoOnetimeauth_ output input len k

/-- The specification and the limbs agree on the modulus. -/
theorem field_prime : field.prime = Spec.Poly1305.prime := rfl

/-- A mask of twenty-six ones. -/
theorem mask26_toNat (x : Limb) : (x &&& mask26).toNat = x.toNat % 2 ^ 26 := toNat_and_mask' 26 rfl

/-- The value is the weighted sum of the limbs. -/
theorem seval_eq (a : Felem 32) :
    field.seval a = (a.get 0).toNat + 2 ^ 26 * (a.get 1).toNat + 2 ^ 52 * (a.get 2).toNat +
      2 ^ 78 * (a.get 3).toNat + 2 ^ 104 * (a.get 4).toNat := by
  show value 26 _ = _
  simp only [value, Nat.ofDigits_cons, Nat.ofDigits_nil]
  ring

/-- The limbs of a 128-bit number. -/
theorem shiftMask_toNat (k : BitVec 128) (x : Nat) :
    (shiftMask k x).toNat = k.toNat / 2 ^ x % 2 ^ 26 := by
  rw [shiftMask, mask26_toNat, BitVec.toNat_setWidth, BitVec.toNat_ushiftRight,
    Nat.shiftRight_eq_div_pow, Nat.mod_mod_of_dvd _ (by decide)]

variable {h : Mem} {b m : Buffer}

/-- The key is clamped as in the specification. -/
theorem encodeR_run (live : h.Live b) (size : b.length = 16) :
    ∃ r, Below (2 ^ 26) r ∧ field.seval r = Spec.Poly1305.encodeR (h.read b) ∧
      encodeR b h = some (r, h) := by
  obtain ⟨w, loaded, ran⟩ := load128Le_run live size
  have bound := (w &&& clampMask).isLt
  have clamped : (w &&& clampMask).toNat = Spec.Poly1305.encodeR (h.read b) := by
    rw [BitVec.toNat_and, loaded]
    rfl
  have limb (x : Nat) := shiftMask_toNat (w &&& clampMask) x
  refine ⟨_, below_upd5.mpr ⟨?_, ?_, ?_, ?_, ?_⟩, ?_, by
    rw [encodeR, Stack.bind_run ran, Stack.pure_run]⟩
  · rw [limb]
    exact Nat.mod_lt _ (by decide)
  · rw [limb]
    exact Nat.mod_lt _ (by decide)
  · rw [limb]
    exact Nat.mod_lt _ (by decide)
  · rw [limb]
    exact Nat.mod_lt _ (by decide)
  · rw [limb]
    exact Nat.mod_lt _ (by decide)
  · rw [seval_eq, ← clamped]
    show (shiftMask _ 0).toNat + 2 ^ 26 * (shiftMask _ 26).toNat + 2 ^ 52 * (shiftMask _ 52).toNat +
      2 ^ 78 * (shiftMask _ 78).toNat + 2 ^ 104 * (shiftMask _ 104).toNat = _
    rw [limb, limb, limb, limb, limb]
    omega

/-- Four bytes are loaded as the number they encode. -/
theorem load32Le_run (live : h.Live b) (size : b.length = 4) :
    ∃ w : Limb, w.toNat = littleEndian (h.read b) ∧ load32Le b h = some (w, h) := by
  have bound := littleEndian_lt (h.read b)
  rw [Mem.read_length live, size] at bound
  refine ⟨BitVec.ofNat 32 (littleEndian (h.read b)), ?_, ?_⟩
  · rw [BitVec.toNat_ofNat, Nat.mod_eq_of_lt bound]
  · rw [load32Le, Stack.bind_run (Buffer.load_run live), Stack.pure_run]

/-- Four bytes of a block are loaded as the bits of its value. -/
theorem load32Le_slice (live : h.Live b) (size : b.length = 16) {i : Nat} (within : i + 4 ≤ 16) :
    ∃ w : Limb, w.toNat = littleEndian (h.read b) / 2 ^ (8 * i) % 2 ^ 32 ∧
      load32Le (b.slice i 4) h = some (w, h) := by
  have bytes := Mem.read_length live
  obtain ⟨w, loaded, ran⟩ := load32Le_run (live.slice (i := i) (n := 4) (by omega)) rfl
  rw [Mem.read_slice _ _ (by omega), littleEndian_slice _ _ (by omega)] at loaded
  exact ⟨w, loaded, ran⟩

/-- A row of limbs that are the bits of a number below `2 ^ 128` has its value. -/
theorem split_spec {x : Nat} (bound : x < 2 ^ 128) (r0 r1 r2 r3 r4 : Limb)
    (limb0 : r0.toNat = x % 2 ^ 26) (limb1 : r1.toNat = x / 2 ^ 26 % 2 ^ 26)
    (limb2 : r2.toNat = x / 2 ^ 52 % 2 ^ 26) (limb3 : r3.toNat = x / 2 ^ 78 % 2 ^ 26)
    (limb4 : r4.toNat = x / 2 ^ 104) :
    Below (2 ^ 26) (upd5 r0 r1 r2 r3 r4) ∧ r4.toNat < 2 ^ 24 ∧
      field.seval (upd5 r0 r1 r2 r3 r4) = x := by
  refine ⟨below_upd5.mpr ⟨by omega, by omega, by omega, by omega, by omega⟩, by omega, ?_⟩
  rw [seval_eq]
  show r0.toNat + 2 ^ 26 * r1.toNat + 2 ^ 52 * r2.toNat + 2 ^ 78 * r3.toNat + 2 ^ 104 * r4.toNat = x
  omega

/-- A block that has its one bit is split into limbs. -/
theorem toField_run (live : h.Live b) (size : b.length = 16) :
    ∃ e, Below (2 ^ 26) e ∧ (e.get 4).toNat < 2 ^ 24 ∧ field.seval e = littleEndian (h.read b) ∧
      toField b h = some (e, h) := by
  have bound := littleEndian_lt (h.read b)
  rw [Mem.read_length live, size] at bound
  obtain ⟨i0, load0, ran0⟩ := load32Le_slice live size (i := 0) (by decide)
  obtain ⟨i1, load1, ran1⟩ := load32Le_slice live size (i := 3) (by decide)
  obtain ⟨i2, load2, ran2⟩ := load32Le_slice live size (i := 6) (by decide)
  obtain ⟨i3, load3, ran3⟩ := load32Le_slice live size (i := 9) (by decide)
  obtain ⟨i4, load4, ran4⟩ := load32Le_slice live size (i := 12) (by decide)
  set x := littleEndian (h.read b)
  have shifted (i : Limb) (k : Nat) : (i >>> k).toNat = i.toNat / 2 ^ k := by
    rw [BitVec.toNat_ushiftRight, Nat.shiftRight_eq_div_pow]
  -- Each limb begins in the first byte of its four, at the shift.
  obtain ⟨below, top, value⟩ := split_spec (x := x) bound (i0 &&& mask26) ((i1 >>> 2) &&& mask26)
    ((i2 >>> 4) &&& mask26) ((i3 >>> 6) &&& mask26) (i4 >>> 8)
    (by rw [mask26_toNat, load0]; omega) (by rw [mask26_toNat, shifted, load1]; omega)
    (by rw [mask26_toNat, shifted, load2]; omega) (by rw [mask26_toNat, shifted, load3]; omega)
    (by rw [shifted, load4]; omega)
  refine ⟨_, below, top, value, ?_⟩
  rw [toField, Stack.bind_run (Buffer.sub_run _ (by omega)),
    Stack.bind_run (Buffer.sub_run _ (by omega)), Stack.bind_run (Buffer.sub_run _ (by omega)),
    Stack.bind_run (Buffer.sub_run _ (by omega)), Stack.bind_run (Buffer.sub_run _ (by omega)),
    Stack.bind_run ran0, Stack.bind_run ran1, Stack.bind_run ran2, Stack.bind_run ran3,
    Stack.bind_run ran4, Stack.pure_run]

/-- A one bit above a block of 128 bits adds its weight. -/
theorem plus2128_spec {e : Felem 32} (below : Below (2 ^ 26) e) (top : (e.get 4).toNat < 2 ^ 24) :
    Below (2 ^ 26) (plus2128 e) ∧ field.seval (plus2128 e) = field.seval e + 2 ^ 128 := by
  obtain ⟨e0, e1, e2, e3, e4, rfl⟩ := five e
  obtain ⟨below0, below1, below2, below3, below4⟩ := below_upd5.mp below
  change e4.toNat < 2 ^ 24 at top
  -- The top limb has twenty-four bits, so the one bit does not meet them.
  have joined : ((0x1000000 : Limb) ||| e4).toNat = 2 ^ 24 + e4.toNat := by
    rw [BitVec.toNat_or]
    exact @mul_or_eq_add 1 _ _ top
  constructor
  · exact below_upd5.mpr ⟨below0, below1, below2, below3, by
      show ((0x1000000 : Limb) ||| e4).toNat < _
      omega⟩
  · rw [seval_eq, seval_eq]
    show e0.toNat + 2 ^ 26 * e1.toNat + 2 ^ 52 * e2.toNat + 2 ^ 78 * e3.toNat +
      2 ^ 104 * ((0x1000000 : Limb) ||| e4).toNat = e0.toNat + 2 ^ 26 * e1.toNat +
        2 ^ 52 * e2.toNat + 2 ^ 78 * e3.toNat + 2 ^ 104 * e4.toNat + 2 ^ 128
    rw [joined]
    omega

/-- A state has absorbed a text under a key: its limbs are bounded, and its value is the polynomial. -/
structure Absorbed (kr : Bytes) (text : List Bytes) (st : State) : Prop where
  key : Below (2 ^ 26) st.r
  keyValue : field.seval st.r = Spec.Poly1305.encodeR kr
  acc : Below field.carriedBound st.h
  accValue : field.seval st.h % Spec.Poly1305.prime =
    Spec.Poly1305.poly text (Spec.Poly1305.encodeR kr)

/-- A sum of an accumulator and a block may be multiplied by the key. -/
theorem field_fits : field.Fits (2 ^ 27 + 2 ^ 6 - 1) (2 ^ 26 - 1) where
  times := by decide
  sum := by decide
  top := by decide

variable {st : State} {kr : Bytes} {text : List Bytes}

/-- One step of the accumulation: the bounds are kept, and the value is that of the formula. -/
theorem addAndMultiply_spec {acc block r : Felem 32} (below : Below field.carriedBound acc)
    (below' : Below (2 ^ 26) block) (below'' : Below (2 ^ 26) r) :
    Below field.carriedBound (addAndMultiply acc block r) ∧
      field.seval (addAndMultiply acc block r) ≡
        (field.seval acc + field.seval block) * field.seval r [MOD field.prime] := by
  obtain ⟨summed, sum⟩ := fsum_spec field below below' (by decide)
  have product := Modulo.fmul_spec field_fits summed below''
  rwa [sum] at product

/-- A key and the zero accumulator have absorbed nothing. -/
theorem absorbed_nil {r : Felem 32} (below : Below (2 ^ 26) r)
    (value : field.seval r = Spec.Poly1305.encodeR kr) : Absorbed kr [] ⟨r, start⟩ where
  key := below
  keyValue := value
  acc := below_upd5.mpr ⟨by decide, by decide, by decide, by decide, by decide⟩
  accValue := by
    have zero : field.seval start % Spec.Poly1305.prime = 0 := by decide
    exact zero

/-- Adding a block and multiplying by the key absorbs the block. -/
theorem Absorbed.step (absorbed : Absorbed kr text st) {e : Felem 32} (below : Below (2 ^ 26) e)
    {w : Bytes} (value : field.seval e = littleEndian w + 2 ^ (8 * w.length)) :
    Absorbed kr (w :: text) { st with h := addAndMultiply st.h e st.r } := by
  obtain ⟨acc, product⟩ := addAndMultiply_spec absorbed.acc below absorbed.key
  refine ⟨absorbed.key, absorbed.keyValue, acc, ?_⟩
  rw [field_prime, absorbed.keyValue] at product
  -- The polynomial adds the same block to the same value modulo the modulus.
  rw [Spec.Poly1305.poly, ← absorbed.accValue, Spec.Poly1305.fmul, Spec.Poly1305.fadd,
    Spec.Poly1305.encode, Spec.Poly1305.fadd, Nat.add_comm (2 ^ (8 * w.length)), ← value]
  show field.seval (addAndMultiply st.h e st.r) % _ = _
  rw [product, ← Nat.add_mod, Nat.mod_mul_mod, Nat.add_comm]

/-- The initial state has absorbed nothing. -/
theorem init_run (live : h.Live b) (size : b.length = 16) :
    ∃ st, Absorbed (h.read b) [] st ∧ init b h = some (st, h) := by
  obtain ⟨r, below, value, ran⟩ := encodeR_run live size
  have all : b.slice 0 16 = b := by rw [← size, Buffer.slice_all]
  refine ⟨⟨r, start⟩, absorbed_nil below value, ?_⟩
  rw [init, Stack.bind_run (Buffer.sub_run _ (by omega)), all, Stack.bind_run ran, Stack.pure_run]

/-- A whole block is absorbed. -/
theorem update_run (absorbed : Absorbed kr text st) (live : h.Live m) (size : m.length = 16) :
    ∃ st', Absorbed kr (h.read m :: text) st' ∧ update st m h = some (st', h) := by
  obtain ⟨e, below, top, value, ran⟩ := toField_run live size
  obtain ⟨below', value'⟩ := plus2128_spec below top
  refine ⟨_, absorbed.step below' (w := h.read m) ?_, by
    rw [update, toFieldPlus2128, Stack.bind_run (by rw [Stack.bind_run ran, Stack.pure_run]),
      Stack.pure_run]⟩
  rw [value', value, Mem.read_length live, size]

/-- Whole blocks are absorbed. -/
theorem blocks_run {done : Bytes} (whole : done.length % 16 = 0)
    (absorbed : Absorbed kr (Spec.Poly1305.encodeBytes done) st) (live : h.Live m) (len : Nat)
    (fits : 16 * len ≤ m.length) :
    ∃ st', Absorbed kr (Spec.Poly1305.encodeBytes (done ++ (h.read m).take (16 * len))) st' ∧
      blocks st m len h = some (st', h) := by
  refine Poly1305.absorb_blocks update blocks update_run (fun _ _ => rfl) ?_ whole absorbed live
    le_rfl fits
  intro st st' m n _ fits ran
  rw [blocks, Stack.bind_run (Buffer.sub_run _ (by omega)),
    Stack.bind_run (Buffer.offset_run _ (by omega)), Stack.bind_run ran]

/-- A partial block is absorbed as the block of its bytes. -/
theorem processLastBlock_run {done : Bytes} (whole : done.length % 16 = 0)
    (absorbed : Absorbed kr (Spec.Poly1305.encodeBytes done) st) (live : h.Live m) {len : Nat}
    (positive : 0 < len) (short : len < 16) (fits : len ≤ m.length) :
    ∃ st', Absorbed kr (Spec.Poly1305.encodeBytes (done ++ (h.read m).take len)) st' ∧
      processLastBlock st m len h = some (st', h) := by
  have bytes := Mem.read_length live
  have size : ((h.read m).take len).length = len := by rw [List.length_take]; omega
  have nonempty : (h.read m).take len ≠ [] := List.ne_nil_of_length_pos (by omega)
  refine Poly1305.lastBlock_run live short fits fun {h' block} fresh covers filled => ?_
  obtain ⟨e, below, -, value, ran⟩ := toField_run fresh covers
  rw [filled, littleEndian_one_above] at value
  refine ⟨_, ?_, by rw [processLastBlock_, Stack.bind_run ran, Stack.pure_run]⟩
  rw [Spec.Poly1305.encodeBytes_concat whole nonempty (by omega)]
  exact absorbed.step below value

/-- The contraction is the carries followed by passes that change nothing. -/
theorem lastPass_spec {acc : Felem 32} (below : Below field.carriedBound acc) :
    Below (2 ^ 26) (lastPass acc) ∧ field.seval (lastPass acc) = field.seval acc % field.prime := by
  obtain ⟨reduced, kept⟩ := field.carries_spec (by decide) (by decide) below
  have result : lastPass acc =
      subtractPrime p26m5 p26m1 (field.carryLimb (field.carryTop (field.carryLimb acc))) := by
    show subtractPrime p26m5 p26m1 (field.carry0To1 (field.carryTop (field.carryLimb (field.carryTop
      (field.carryLimb (field.carryTop (field.carryLimb acc))))))) = _
    rw [Modulo.carryTop_of_below reduced, Modulo.carryLimb_of_below reduced, Modulo.carryTop_of_below reduced,
      Modulo.carry0To1_of_below reduced]
  obtain ⟨below', value⟩ := field.subtractPrime_spec p26m5 p26m1 rfl rfl reduced
  rw [result]
  exact ⟨below', value.trans kept⟩

/-- A limb moved up in 128 bits. -/
theorem toNat_shifted (x : Limb) (k : Nat) :
    (x.setWidth 128 <<< k).toNat = x.toNat * 2 ^ k % 2 ^ 128 := by
  have small := x.isLt
  have wide : (x.setWidth 128).toNat = x.toNat := by
    rw [BitVec.toNat_setWidth]
    omega
  rw [BitVec.toNat_shiftLeft, wide, Nat.shiftLeft_eq]

/-- The low 128 bits of the value. -/
theorem bignumTo128_toNat {acc : Felem 32} (below : Below (2 ^ 26) acc) :
    (bignumTo128 acc).toNat = field.seval acc % 2 ^ 128 := by
  obtain ⟨a0, a1, a2, a3, a4, rfl⟩ := five acc
  obtain ⟨below0, below1, below2, below3, below4⟩ := below_upd5.mp below
  have x0 : (a0.setWidth 128).toNat = a0.toNat := by
    rw [BitVec.toNat_setWidth]
    omega
  have x1 : (a1.setWidth 128 <<< 26).toNat = a1.toNat * 2 ^ 26 := by
    rw [toNat_shifted]
    omega
  have x2 : (a2.setWidth 128 <<< 52).toNat = a2.toNat * 2 ^ 52 := by
    rw [toNat_shifted]
    omega
  have x3 : (a3.setWidth 128 <<< 78).toNat = a3.toNat * 2 ^ 78 := by
    rw [toNat_shifted]
    omega
  have x4 : (a4.setWidth 128 <<< 104).toNat = a4.toNat % 2 ^ 24 * 2 ^ 104 := by
    rw [toNat_shifted]
    omega
  show (a4.setWidth 128 <<< 104 ||| (a3.setWidth 128 <<< 78 ||| (a2.setWidth 128 <<< 52 |||
    (a1.setWidth 128 <<< 26 ||| a0.setWidth 128)))).toNat = _
  -- From the bottom up, each limb starts above the bits of those below it.
  have join1 : a1.toNat * 2 ^ 26 ||| a0.toNat = a1.toNat * 2 ^ 26 + a0.toNat := mul_or_eq_add below0
  have join2 : a2.toNat * 2 ^ 52 ||| (a1.toNat * 2 ^ 26 + a0.toNat) =
      a2.toNat * 2 ^ 52 + (a1.toNat * 2 ^ 26 + a0.toNat) := mul_or_eq_add (by omega)
  have join3 : a3.toNat * 2 ^ 78 ||| (a2.toNat * 2 ^ 52 + (a1.toNat * 2 ^ 26 + a0.toNat)) =
      a3.toNat * 2 ^ 78 + (a2.toNat * 2 ^ 52 + (a1.toNat * 2 ^ 26 + a0.toNat)) :=
    mul_or_eq_add (by omega)
  rw [BitVec.toNat_or, BitVec.toNat_or, BitVec.toNat_or, BitVec.toNat_or, x0, x1, x2, x3, x4, join1,
    join2, join3, mul_or_eq_add (by omega), seval_eq]
  show _ = (a0.toNat + 2 ^ 26 * a1.toNat + 2 ^ 52 * a2.toNat + 2 ^ 78 * a3.toNat +
    2 ^ 104 * a4.toNat) % 2 ^ 128
  omega

/-- A final partial block is absorbed, and the accumulator is the polynomial of the text. -/
theorem updateLast_run {done : Bytes} (whole : done.length % 16 = 0)
    (absorbed : Absorbed kr (Spec.Poly1305.encodeBytes done) st) (live : h.Live m) (len : Nat)
    (short : len < 16) (fits : len ≤ m.length) :
    ∃ st', Below (2 ^ 26) st'.h ∧
      field.seval st'.h = Spec.Poly1305.poly (Spec.Poly1305.encodeBytes (done ++ (h.read m).take len))
        (Spec.Poly1305.encodeR kr) ∧
      updateLast st m len h = some (st', h) := by
  have last : ∃ st', Absorbed kr (Spec.Poly1305.encodeBytes (done ++ (h.read m).take len)) st' ∧
      finish' st m len h = some (st', h) := by
    rcases Nat.eq_zero_or_pos len with rfl | positive
    · exact ⟨st, by simpa using absorbed, rfl⟩
    · rw [finish', if_neg (by omega)]
      exact processLastBlock_run whole absorbed live positive short fits
  obtain ⟨st', absorbed', ran⟩ := last
  obtain ⟨below, value⟩ := lastPass_spec absorbed'.acc
  exact ⟨{ st' with h := lastPass st'.h }, below, value.trans absorbed'.accValue, by
    rw [updateLast, Stack.bind_run ran, Stack.pure_run]⟩

/-- The tag is the low half of the sum of the polynomial and the second half of the key. -/
theorem finish_run {mac keyS : Buffer} (live : h.Live mac) (live' : h.Live keyS)
    (size : 16 ≤ mac.length) (size' : keyS.length = 16) (below : Below (2 ^ 26) st.h) :
    finish st mac keyS h =
      some ((), h.write mac (Spec.Poly1305.finish (field.seval st.h) (h.read keyS))) := by
  obtain ⟨w, value, ran⟩ := load128Le_run live' size'
  -- The 128-bit addition drops the carry.
  rw [finish, Stack.bind_run ran, store128Le_run live size, BitVec.toNat_add, bignumTo128_toNat below,
    value, Nat.mod_add_mod, Spec.Poly1305.finish]

/-- The implementation writes the tag of the first `len` input bytes. -/
theorem cryptoOnetimeauth_run {output input k : Buffer} (len : UInt64) (live : h.Live output)
    (live' : h.Live input) (live'' : h.Live k) (size : 16 ≤ output.length) (keySize : k.length = 32)
    (bounded : len.toNat < 2 ^ 32) (fits : len.toNat ≤ input.length) :
    cryptoOnetimeauth output input len k h =
      some ((), h.write output (Spec.Poly1305.poly1305 ((h.read input).take len.toNat) (h.read k))) := by
  obtain ⟨len16, rem16, start, short⟩ := Poly1305.splitLength len bounded
  have keyBytes := Mem.read_length live''
  have text := Mem.read_length live'
  have key := live''.slice (i := 0) (n := 16) (by omega)
  have part := live'.slice (i := 0) (n := 16 * (len.toNat / 16)) (by omega)
  have last := live'.slice (i := 16 * (len.toNat / 16)) (n := len.toNat % 16) (by omega)
  obtain ⟨st, started, ran⟩ := init_run key rfl
  rw [← Spec.Poly1305.encodeBytes_nil] at started
  obtain ⟨st', absorbed, ran'⟩ := blocks_run rfl started part (len.toNat / 16) le_rfl
  rw [List.nil_append] at absorbed
  obtain ⟨st'', below, value, ran''⟩ := updateLast_run
    (by rw [List.length_take, Mem.read_length part, Buffer.slice_length]; omega) absorbed last
    (len.toNat % 16) (by omega) le_rfl
  rw [Poly1305.read_split h fits, Mem.read_slice _ _ (by omega), List.drop_zero] at value
  have completed : complete input len k h = some (st'', h) := by
    rw [complete, Stack.bind_run (Buffer.sub_run _ (by omega)), start, short, len16, rem16,
      Stack.bind_run (Buffer.sub_run _ (by omega)), Stack.bind_run (Buffer.sub_run _ (by omega)),
      poly1305Partial, Stack.bind_run (by rw [Stack.bind_run ran, ran']), ran'']
  rw [cryptoOnetimeauth, cryptoOnetimeauth_, Stack.bind_run (Buffer.sub_run _ (by omega)),
    Stack.bind_run (Buffer.sub_run _ (by omega)), Stack.bind_run completed,
    finish_run live (live''.slice (by omega)) size rfl below, value, Mem.read_slice _ _ (by omega)]
  rfl

end HaclStar.Impl.Poly1305Word32
