import HaclStar.Impl.Poly1305Word32

/-! The experimental Poly1305 implementation on 26-bit limbs, which loads and stores 32-bit words. -/

namespace HaclStar.Impl.Poly1305Experimental

open Endianness Memory Limbs FiveLimbs
open Poly1305 (clampMask)
open Poly1305Word32 (Limb mask26 field start addAndMultiply plus2128 lastPass_)

/-- A byte, as a limb. -/
def byteToLimb (x : UInt8) : Limb := x.toBitVec.setWidth 32

/-- Load four little-endian bytes. -/
def load32Le (b : Buffer) : Stack Limb := do
  let b0 ← b.index 0
  let b1 ← b.index 1
  let b2 ← b.index 2
  let b3 ← b.index 3
  return byteToLimb b0 ||| (byteToLimb b1 <<< 8) ||| (byteToLimb b2 <<< 16) ||| (byteToLimb b3 <<< 24)

/-- The low byte of a limb. -/
def limbToByte (z : Limb) : UInt8 := UInt8.ofBitVec (z.setWidth 8)

/-- Store four little-endian bytes. -/
def store32Le (b : Buffer) (z : Limb) : Stack Unit := do
  let b0 := limbToByte z
  let b1 := limbToByte (z >>> 8)
  let b2 := limbToByte (z >>> 16)
  let b3 := limbToByte (z >>> 24)
  b.store [b0, b1, b2, b3]

/-- The limbs of a number of four words. -/
def splitWords (t0 t1 t2 t3 : Limb) : Felem 32 :=
  let r0 := t0 &&& mask26
  let r1 := ((t0 >>> 26) ||| (t1 <<< 6)) &&& mask26
  let r2 := ((t1 >>> 20) ||| (t2 <<< 12)) &&& mask26
  let r3 := ((t2 >>> 14) ||| (t3 <<< 18)) &&& mask26
  let r4 := (t3 >>> 8) &&& mask26
  upd5 r0 r1 r2 r3 r4

/-- Load the key, clamp it and split it into limbs. -/
def encodeR (key : Buffer) : Stack (Felem 32) := do
  let t0 ← load32Le (← key.sub 0 4)
  let t1 ← load32Le (← key.sub 4 4)
  let t2 ← load32Le (← key.sub 8 4)
  let t3 ← load32Le (← key.sub 12 4)
  let t0 := t0 &&& 0x0fffffff
  let t1 := t1 &&& 0x0ffffffc
  let t2 := t2 &&& 0x0ffffffc
  let t3 := t3 &&& 0x0ffffffc
  return splitWords t0 t1 t2 t3

/-- Load a block and split it into limbs. -/
def toField (m : Buffer) : Stack (Felem 32) := do
  let t0 ← load32Le (← m.sub 0 4)
  let t1 ← load32Le (← m.sub 4 4)
  let t2 ← load32Le (← m.sub 8 4)
  let t3 ← load32Le (← m.sub 12 4)
  return splitWords t0 t1 t2 t3

/-- Load a whole block, with a one bit above its bytes. -/
def toFieldPlus2128 (m : Buffer) : Stack (Felem 32) := do
  let b ← toField m
  return plus2128 b

/-- The state before the first block. -/
def init (key : Buffer) : Stack Poly1305Word32.State := do
  let r ← encodeR (← key.sub 0 16)
  return ⟨r, start⟩

/-- Absorb the first block of a message. -/
def update (st : Poly1305Word32.State) (m : Buffer) : Stack Poly1305Word32.State := do
  let tmp ← toFieldPlus2128 (← m.sub 0 16)
  return { st with h := addAndMultiply st.h tmp st.r }

/-- Absorb whole blocks, while at least one is left. -/
def blocks (st : Poly1305Word32.State) (m : Buffer) (len : UInt64) : Stack Poly1305Word32.State :=
  if len < 16 then return st
  else do
    let st ← update st m
    let m ← m.offset 16
    blocks st m (len - 16)
termination_by len.toNat
decreasing_by
  rename_i long
  have enough : (16 : UInt64) ≤ len := UInt64.not_lt.mp long
  rw [UInt64.toNat_sub_of_le _ _ enough]
  have atLeast := UInt64.le_iff_toNat_le.mp enough
  change 16 ≤ len.toNat at atLeast
  show len.toNat - 16 < len.toNat
  omega

/-- Copy a partial block to the start of a block. -/
def concat (b m : Buffer) (len : Nat) : Stack Unit := Buffer.blit m 0 b 0 len

/-- Absorb a block that already has its one bit. -/
def processLastBlock_ (block : Buffer) (st : Poly1305Word32.State) : Stack Poly1305Word32.State := do
  let tmp ← toField block
  return { st with h := addAndMultiply st.h tmp st.r }

/-- Absorb a final partial block: its bytes, a one and zeros. -/
def processLastBlock (st : Poly1305Word32.State) (m : Buffer) (rem' : Nat) : Stack Poly1305Word32.State := inFrame do
  let block ← create 16
  concat block m rem'
  let one ← block.sub rem' 1
  one.store [1]
  processLastBlock_ block st

/-- Reduce the accumulator below the modulus. -/
def lastPass (acc : Felem 32) : Felem 32 :=
  let acc := field.carryLimb acc
  let acc := field.carryTop acc
  let acc := field.carryLimb acc
  let acc := field.carryTop acc
  let acc := field.carry0To1 acc
  lastPass_ acc

/-- Absorb the final partial block of a message, when there is one. -/
def finish' (st : Poly1305Word32.State) (m : Buffer) (len : UInt64) : Stack Poly1305Word32.State :=
  let rem' := len &&& 0xf
  if rem' = 0 then return st
  else do
    let start := (len - rem').toUInt32
    let l := rem'.toUInt32
    let lastBlock ← m.sub start.toNat l.toNat
    processLastBlock st lastBlock rem'.toNat

/-- Absorb the final partial block, reduce, add the second half of the key and store the tag. -/
def finish_ (st : Poly1305Word32.State) (mac m : Buffer) (len : UInt64) (keyS : Buffer) : Stack Unit := do
  let tmp ← toField keyS
  let st ← finish' st m len
  let h := lastPass st.h
  let h := fsum h tmp
  let h := field.carryLimb h
  -- The words of the key are loaded again, and not used.
  let _ ← load32Le (← keyS.sub 0 4)
  let _ ← load32Le (← keyS.sub 4 4)
  let _ ← load32Le (← keyS.sub 8 4)
  let _ ← load32Le (← keyS.sub 12 4)
  let h0 := h.get limb0
  let h1 := h.get limb1
  let h2 := h.get limb2
  let h3 := h.get limb3
  let h4 := h.get limb4
  let acc0 := h0 ||| (h1 <<< 26)
  let acc1 := (h1 >>> 6) ||| (h2 <<< 20)
  let acc2 := (h2 >>> 12) ||| (h3 <<< 14)
  let acc3 := (h3 >>> 18) ||| (h4 <<< 8)
  store32Le (← mac.sub 0 4) acc0
  store32Le (← mac.sub 4 4) acc1
  store32Le (← mac.sub 8 4) acc2
  store32Le (← mac.sub 12 4) acc3

/-- Write the tag of a message. -/
def cryptoOnetimeauth (output input : Buffer) (len : UInt64) (k : Buffer) : Stack Unit := do
  let _ ← k.sub 0 16
  let keyS ← k.sub 16 16
  let st ← init k
  let st ← blocks st input len
  finish_ st output input len keyS

variable {h : Mem} {b m : Buffer}

/-- Four bytes are joined to the number they encode. -/
theorem join_bytes (b0 b1 b2 b3 : UInt8) :
    (byteToLimb b0 ||| (byteToLimb b1 <<< 8) ||| (byteToLimb b2 <<< 16) |||
      (byteToLimb b3 <<< 24)).toNat = littleEndian [b0, b1, b2, b3] := by
  have small0 := b0.toNat_lt
  have small1 := b1.toNat_lt
  have small2 := b2.toNat_lt
  have small3 := b3.toNat_lt
  have limb (x : UInt8) : (byteToLimb x).toNat = x.toNat := by
    have small := x.toNat_lt
    rw [byteToLimb, BitVec.toNat_setWidth, UInt8.toNat_toBitVec]
    omega
  have moved (x : UInt8) {k : Nat} (fits : x.toNat * 2 ^ k < 2 ^ 32) :
      (byteToLimb x <<< k).toNat = x.toNat * 2 ^ k := by
    rw [BitVec.toNat_shiftLeft, limb, Nat.shiftLeft_eq, Nat.mod_eq_of_lt fits]
  -- Each byte starts above the bits of those below it.
  have join1 : b0.toNat ||| b1.toNat * 2 ^ 8 = b0.toNat + b1.toNat * 2 ^ 8 := or_mul_eq_add small0
  have join2 : (b0.toNat + b1.toNat * 2 ^ 8) ||| b2.toNat * 2 ^ 16 =
      b0.toNat + b1.toNat * 2 ^ 8 + b2.toNat * 2 ^ 16 := or_mul_eq_add (by omega)
  have join3 : (b0.toNat + b1.toNat * 2 ^ 8 + b2.toNat * 2 ^ 16) ||| b3.toNat * 2 ^ 24 =
      b0.toNat + b1.toNat * 2 ^ 8 + b2.toNat * 2 ^ 16 + b3.toNat * 2 ^ 24 :=
    or_mul_eq_add (by omega)
  rw [BitVec.toNat_or, BitVec.toNat_or, BitVec.toNat_or, limb, moved b1 (by omega),
    moved b2 (by omega), moved b3 (by omega), join1, join2, join3]
  simp only [littleEndian]
  omega

/-- Four bytes of a block are loaded as the bits of its value. -/
theorem load32Le_slice {w : BitVec 128} (live : h.Live b) (size : b.length = 16)
    (value : w.toNat = littleEndian (h.read b)) {i : Nat} (within : i + 4 ≤ 16) :
    load32Le (b.slice i 4) h = some ((w >>> (8 * i)).setWidth 32, h) := by
  have bytes := Mem.read_length live
  have part := live.slice (i := i) (n := 4) (by omega)
  have four := Mem.read_length part
  have loaded := Mem.read_slice h b (i := i) (n := 4) (by omega)
  obtain ⟨b0, b1, b2, b3, read⟩ : ∃ b0 b1 b2 b3, h.read (b.slice i 4) = [b0, b1, b2, b3] := by
    match h.read (b.slice i 4), four with
    | [b0, b1, b2, b3], _ => exact ⟨b0, b1, b2, b3, rfl⟩
  have joined := join_bytes b0 b1 b2 b3
  rw [← read, loaded, littleEndian_slice _ _ (by omega)] at joined
  have word : byteToLimb b0 ||| (byteToLimb b1 <<< 8) ||| (byteToLimb b2 <<< 16) |||
      (byteToLimb b3 <<< 24) = (w >>> (8 * i)).setWidth 32 := by
    apply BitVec.eq_of_toNat_eq
    rw [joined, BitVec.toNat_setWidth, BitVec.toNat_ushiftRight, Nat.shiftRight_eq_div_pow, value]
  rw [load32Le, Stack.bind_run (Buffer.index_run part (by simp)),
    Stack.bind_run (Buffer.index_run part (by simp)), Stack.bind_run (Buffer.index_run part (by simp)),
    Stack.bind_run (Buffer.index_run part (by simp)), Stack.pure_run, read, ← word]
  rfl

/-- The four words of a number are split into its limbs. -/
theorem splitWords_spec (w : BitVec 128) :
    Below (2 ^ 26) (splitWords ((w >>> 0).setWidth 32) ((w >>> 32).setWidth 32)
      ((w >>> 64).setWidth 32) ((w >>> 96).setWidth 32)) ∧
    ((splitWords ((w >>> 0).setWidth 32) ((w >>> 32).setWidth 32) ((w >>> 64).setWidth 32)
      ((w >>> 96).setWidth 32)).get 4).toNat < 2 ^ 24 ∧
    field.seval (splitWords ((w >>> 0).setWidth 32) ((w >>> 32).setWidth 32)
      ((w >>> 64).setWidth 32) ((w >>> 96).setWidth 32)) = w.toNat := by
  have word (k : Nat) : ((w >>> k).setWidth 32 : Limb).toNat = w.toNat / 2 ^ k % 2 ^ 32 := by
    rw [BitVec.toNat_setWidth, BitVec.toNat_ushiftRight, Nat.shiftRight_eq_div_pow]
  have down (x : Limb) (k : Nat) : (x >>> k).toNat = x.toNat / 2 ^ k := by
    rw [BitVec.toNat_ushiftRight, Nat.shiftRight_eq_div_pow]
  -- A limb across two words: the high bits of one below the low bits of the next.
  have across {x y : Limb} {j k : Nat} (total : j + k = 32) :
      ((x >>> j) ||| (y <<< k)).toNat = y.toNat * 2 ^ k % 2 ^ 32 + x.toNat / 2 ^ j := by
    have high : x.toNat / 2 ^ j < 2 ^ k := by
      rw [Nat.div_lt_iff_lt_mul (by positivity), ← Nat.pow_add, Nat.add_comm k, total]
      exact x.isLt
    have low : y.toNat * 2 ^ k % 2 ^ 32 = y.toNat % 2 ^ j * 2 ^ k := by
      have whole : 2 ^ 32 = 2 ^ j * 2 ^ k := by rw [← Nat.pow_add, total]
      rw [whole, Nat.mul_mod_mul_right]
    rw [BitVec.toNat_or, down, BitVec.toNat_shiftLeft, Nat.shiftLeft_eq, Nat.or_comm, low,
      mul_or_eq_add high]
  refine Poly1305Word32.split_spec w.isLt _ _ _ _ _ ?_ ?_ ?_ ?_ ?_
  · rw [Poly1305Word32.mask26_toNat, word]
    omega
  · rw [Poly1305Word32.mask26_toNat, across rfl, word, word]
    omega
  · rw [Poly1305Word32.mask26_toNat, across rfl, word, word]
    omega
  · rw [Poly1305Word32.mask26_toNat, across rfl, word, word]
    omega
  · have bound := w.isLt
    rw [Poly1305Word32.mask26_toNat, down, word]
    omega

/-- A block is a number of 128 bits. -/
theorem block_number (live : h.Live b) (size : b.length = 16) :
    ∃ w : BitVec 128, w.toNat = littleEndian (h.read b) := by
  have bound := littleEndian_lt (h.read b)
  rw [Mem.read_length live, size] at bound
  exact ⟨BitVec.ofNat 128 (littleEndian (h.read b)), by
    rw [BitVec.toNat_ofNat, Nat.mod_eq_of_lt bound]⟩

/-- A block that has its one bit is split into limbs. -/
theorem toField_run (live : h.Live b) (size : b.length = 16) :
    ∃ e, Below (2 ^ 26) e ∧ (e.get 4).toNat < 2 ^ 24 ∧ field.seval e = littleEndian (h.read b) ∧
      toField b h = some (e, h) := by
  obtain ⟨w, value⟩ := block_number live size
  obtain ⟨below, top, whole⟩ := splitWords_spec w
  refine ⟨_, below, top, whole.trans value, ?_⟩
  have load (i : Nat) (within : i + 4 ≤ 16) := load32Le_slice live size value within
  rw [toField, Stack.bind_run (Buffer.sub_run _ (by omega)), Stack.bind_run (load 0 (by decide)),
    Stack.bind_run (Buffer.sub_run _ (by omega)), Stack.bind_run (load 4 (by decide)),
    Stack.bind_run (Buffer.sub_run _ (by omega)), Stack.bind_run (load 8 (by decide)),
    Stack.bind_run (Buffer.sub_run _ (by omega)), Stack.bind_run (load 12 (by decide)),
    Stack.pure_run]

/-- The key is clamped as in the specification, word by word. -/
theorem encodeR_run (live : h.Live b) (size : b.length = 16) :
    ∃ r, Below (2 ^ 26) r ∧ field.seval r = Spec.Poly1305.encodeR (h.read b) ∧
      encodeR b h = some (r, h) := by
  obtain ⟨w, value⟩ := block_number live size
  obtain ⟨below, -, whole⟩ := splitWords_spec (w &&& clampMask)
  have load (i : Nat) (within : i + 4 ≤ 16) := load32Le_slice live size value within
  -- Each word of the clamped number is the word, masked with the word of the mask.
  have masked (k : Nat) : ((w &&& clampMask) >>> k).setWidth 32 =
      (w >>> k).setWidth 32 &&& (clampMask >>> k).setWidth 32 := by
    rw [BitVec.ushiftRight_and_distrib, BitVec.setWidth_and]
  refine ⟨_, below, ?_, ?_⟩
  · rw [whole, BitVec.toNat_and, value]
    rfl
  · rw [encodeR, Stack.bind_run (Buffer.sub_run _ (by omega)), Stack.bind_run (load 0 (by decide)),
      Stack.bind_run (Buffer.sub_run _ (by omega)), Stack.bind_run (load 4 (by decide)),
      Stack.bind_run (Buffer.sub_run _ (by omega)), Stack.bind_run (load 8 (by decide)),
      Stack.bind_run (Buffer.sub_run _ (by omega)), Stack.bind_run (load 12 (by decide)),
      Stack.pure_run, masked 0, masked 32, masked 64, masked 96]
    rfl

variable {st : Poly1305Word32.State} {kr : Bytes} {text : List Bytes}

open Poly1305Word32 (Absorbed absorbed_nil plus2128_spec)

/-- The initial state has absorbed nothing. -/
theorem init_run (live : h.Live b) (size : 16 ≤ b.length) :
    ∃ st, Absorbed ((h.read b).take 16) [] st ∧ init b h = some (st, h) := by
  have bytes := Mem.read_slice h b (i := 0) (n := 16) size
  obtain ⟨r, below, value, ran⟩ := encodeR_run (live.slice (i := 0) (n := 16) (by omega)) rfl
  rw [List.drop_zero] at bytes
  rw [bytes] at value
  exact ⟨⟨r, start⟩, absorbed_nil below value, by
    rw [init, Stack.bind_run (Buffer.sub_run _ (by omega)), Stack.bind_run ran, Stack.pure_run]⟩

/-- Only the first block of a message is absorbed. -/
theorem update_slice (st : Poly1305Word32.State) (size : 16 ≤ m.length) :
    update st (m.slice 0 16) h = update st m h := by
  have first : (m.slice 0 16).slice 0 16 = m.slice 0 16 := by simp [Buffer.slice]
  rw [update, update, Stack.bind_run (Buffer.sub_run _ (by simp)), first,
    Stack.bind_run (Buffer.sub_run _ (by omega))]

/-- A whole block is absorbed. -/
theorem update_run (absorbed : Absorbed kr text st) (live : h.Live m) (size : m.length = 16) :
    ∃ st', Absorbed kr (h.read m :: text) st' ∧ update st m h = some (st', h) := by
  have all : m.slice 0 16 = m := by rw [← size, Buffer.slice_all]
  obtain ⟨e, below, top, value, ran⟩ := toField_run live size
  obtain ⟨below', value'⟩ := plus2128_spec below top
  refine ⟨_, absorbed.step below' (w := h.read m) ?_, by
    rw [update, Stack.bind_run (Buffer.sub_run _ (by omega)), all, toFieldPlus2128,
      Stack.bind_run (by rw [Stack.bind_run ran, Stack.pure_run]), Stack.pure_run]⟩
  rw [value', value, Mem.read_length live, size]

/-- Whole blocks are absorbed, as long as one is left. -/
theorem blocks_run {done : Bytes} (whole : done.length % 16 = 0)
    (absorbed : Absorbed kr (Spec.Poly1305.encodeBytes done) st) (live : h.Live m) (len : UInt64)
    (fits : len.toNat ≤ m.length) :
    ∃ st', Absorbed kr (Spec.Poly1305.encodeBytes (done ++ (h.read m).take (16 * (len.toNat / 16))))
        st' ∧ blocks st m len h = some (st', h) := by
  have bound := len.toNat_lt
  -- The loop counts bytes: those of the blocks that are left, and those of the partial block.
  let bytes (n : Nat) : UInt64 := UInt64.ofNat (16 * n + len.toNat % 16)
  have size {n : Nat} (within : n ≤ len.toNat / 16) : (bytes n).toNat = 16 * n + len.toNat % 16 := by
    rw [UInt64.toNat_ofNat_of_lt']
    show 16 * n + len.toNat % 16 < 2 ^ 64
    omega
  have all : bytes (len.toNat / 16) = len := by
    apply UInt64.toNat_inj.mp
    rw [size le_rfl, Nat.div_add_mod]
  have run := Poly1305.absorb_blocks update (fun st m n => blocks st m (bytes n)) update_run ?stop ?next
    whole absorbed live (Nat.le_refl (len.toNat / 16)) (by omega)
  case stop =>
    intro st m
    have short : bytes 0 < 16 := by
      rw [UInt64.lt_iff_toNat_lt, size (Nat.zero_le _)]
      show 16 * 0 + len.toNat % 16 < 16
      omega
    rw [blocks, if_pos short, Stack.pure_run]
  case next =>
    intro st st' m n within fits ran
    have long : ¬ bytes (n + 1) < 16 := by
      rw [UInt64.lt_iff_toNat_lt, size within]
      show ¬ 16 * (n + 1) + len.toNat % 16 < 16
      omega
    have less : bytes (n + 1) - 16 = bytes n := by
      apply UInt64.toNat_inj.mp
      rw [UInt64.toNat_sub_of_le _ _ (UInt64.not_lt.mp long), size within, size (by omega)]
      show 16 * (n + 1) + len.toNat % 16 - 16 = _
      omega
    rw [update_slice st (by omega)] at ran
    show blocks st m (bytes (n + 1)) h = _
    rw [blocks, if_neg long, Stack.bind_run ran, Stack.bind_run (Buffer.offset_run _ (by omega)), less]
  rwa [all] at run

/-- A partial block is absorbed as the block of its bytes. -/
theorem processLastBlock_run {done : Bytes} (whole : done.length % 16 = 0)
    (absorbed : Absorbed kr (Spec.Poly1305.encodeBytes done) st) (live : h.Live m) {len : Nat}
    (positive : 0 < len) (short : len < 16) (fits : len ≤ m.length) :
    ∃ st', Absorbed kr (Spec.Poly1305.encodeBytes (done ++ (h.read m).take len)) st' ∧
      processLastBlock st m len h = some (st', h) := by
  have bytes := Mem.read_length live
  have size : ((h.read m).take len).length = len := by rw [List.length_take]; omega
  have nonempty : (h.read m).take len ≠ [] := List.ne_nil_of_length_pos (by omega)
  refine Poly1305.lastBlock_run live short fits fun {h' block} fresh covers filled => ?_
  obtain ⟨e, below, -, value, ran⟩ := toField_run fresh covers
  rw [filled, littleEndian_one_above] at value
  refine ⟨_, ?_, by rw [processLastBlock_, Stack.bind_run ran, Stack.pure_run]⟩
  rw [Spec.Poly1305.encodeBytes_concat whole nonempty (by omega)]
  exact absorbed.step below value

/-- The rest of a message after its whole blocks is absorbed. -/
theorem finish'_run (len : UInt64) (bounded : len.toNat < 2 ^ 32)
    (absorbed : Absorbed kr (Spec.Poly1305.encodeBytes ((h.read m).take (16 * (len.toNat / 16)))) st)
    (live : h.Live m) (fits : len.toNat ≤ m.length) :
    ∃ st', Absorbed kr (Spec.Poly1305.encodeBytes ((h.read m).take len.toNat)) st' ∧
      finish' st m len h = some (st', h) := by
  obtain ⟨-, rest, -, rest32⟩ := Poly1305.splitLength len bounded
  have bytes := Mem.read_length live
  by_cases none : len &&& 0xf = 0
  · -- The message ends with a whole block.
    have divides : 16 * (len.toNat / 16) = len.toNat := by
      have zero : len.toNat % 16 = 0 := by rw [← rest, none]; rfl
      omega
    rw [divides] at absorbed
    exact ⟨st, absorbed, by rw [finish', if_pos none, Stack.pure_run]⟩
  · have some : len.toNat % 16 ≠ 0 := fun zero => none (UInt64.toNat_inj.mp (rest.trans zero))
    have start : (len - (len &&& 0xf)).toUInt32.toNat = 16 * (len.toNat / 16) := by
      have le : len &&& 0xf ≤ len := by
        rw [UInt64.le_iff_toNat_le, rest]
        exact Nat.mod_le _ _
      rw [UInt64.toNat_toUInt32, UInt64.toNat_sub_of_le _ _ le, rest]
      omega
    have part := live.slice (i := 16 * (len.toNat / 16)) (n := len.toNat % 16) (by omega)
    obtain ⟨st', absorbed', ran⟩ := processLastBlock_run (by rw [List.length_take]; omega) absorbed part
      (by omega) (Nat.mod_lt _ (by decide)) le_rfl
    rw [Mem.read_slice _ _ (by omega), List.take_take, Nat.min_self, ← List.take_add, Nat.div_add_mod]
      at absorbed'
    exact ⟨st', absorbed', by
      rw [finish', if_neg none, start, rest32, rest, Stack.bind_run (Buffer.sub_run _ (by omega)), ran]⟩

/-- Two rounds of carries are enough: what follows them changes nothing before the subtraction. -/
theorem lastPass_spec {acc : Felem 32} (below : Below field.carriedBound acc) :
    Below (2 ^ 26) (lastPass acc) ∧ field.seval (lastPass acc) = field.seval acc % field.prime := by
  exact field.contract_spec (by decide) (by decide) Poly1305Word32.p26m5 Poly1305Word32.p26m1 rfl rfl below

/-- The four words of five limbs, the four lower ones without high bits. -/
theorem joinLimbs (h0 h1 h2 h3 h4 : Limb) (below0 : h0.toNat < 2 ^ 26) (below1 : h1.toNat < 2 ^ 26)
    (below2 : h2.toNat < 2 ^ 26) (below3 : h3.toNat < 2 ^ 26) {x : Nat}
    (value : field.seval (upd5 h0 h1 h2 h3 h4) = x) :
    (h0 ||| (h1 <<< 26)).toNat = x % 2 ^ 32 ∧
    ((h1 >>> 6) ||| (h2 <<< 20)).toNat = x / 2 ^ 32 % 2 ^ 32 ∧
    ((h2 >>> 12) ||| (h3 <<< 14)).toNat = x / 2 ^ 64 % 2 ^ 32 ∧
    ((h3 >>> 18) ||| (h4 <<< 8)).toNat = x / 2 ^ 96 % 2 ^ 32 := by
  have whole := Poly1305Word32.seval_eq (upd5 h0 h1 h2 h3 h4)
  change _ = h0.toNat + 2 ^ 26 * h1.toNat + 2 ^ 52 * h2.toNat + 2 ^ 78 * h3.toNat + 2 ^ 104 * h4.toNat
    at whole
  rw [value] at whole
  have down (x : Limb) (k : Nat) : (x >>> k).toNat = x.toNat / 2 ^ k := by
    rw [BitVec.toNat_ushiftRight, Nat.shiftRight_eq_div_pow]
  -- The bits of one limb that a word takes lie below those of the next limb.
  have across {low : Nat} {x y : Limb} {j k : Nat} (total : j + k = 32) (small : low < 2 ^ k)
      (is : x.toNat = low) : (x ||| (y <<< k)).toNat = low + y.toNat % 2 ^ j * 2 ^ k := by
    have cut : y.toNat * 2 ^ k % 2 ^ 32 = y.toNat % 2 ^ j * 2 ^ k := by
      have power : 2 ^ 32 = 2 ^ j * 2 ^ k := by rw [← Nat.pow_add, total]
      rw [power, Nat.mul_mod_mul_right]
    rw [BitVec.toNat_or, is, BitVec.toNat_shiftLeft, Nat.shiftLeft_eq, cut, or_mul_eq_add small]
  refine ⟨?_, ?_, ?_, ?_⟩
  · rw [across (j := 6) rfl below0 rfl]
    omega
  · rw [across (j := 12) rfl (by omega) (down h1 6)]
    omega
  · rw [across (j := 18) rfl (by omega) (down h2 12)]
    omega
  · rw [across (j := 24) rfl (by omega) (down h3 18)]
    omega

/-- A word is stored as its four bytes. -/
theorem store32Le_run (live : h.Live b) (size : 4 ≤ b.length) (z : Limb) :
    store32Le b z h = some ((), h.write b (littleBytes 4 z.toNat)) := by
  have byte (k : Nat) : limbToByte (z >>> k) = UInt8.ofNat (z.toNat / 2 ^ k % 256) := by
    apply UInt8.toNat_inj.mp
    rw [limbToByte, UInt8.toNat_ofBitVec, BitVec.toNat_setWidth, BitVec.toNat_ushiftRight,
      Nat.shiftRight_eq_div_pow, UInt8.toNat_ofNat', Nat.mod_mod_of_dvd _ (by decide)]
  have first := byte 0
  rw [BitVec.ushiftRight_zero, Nat.pow_zero, Nat.div_one] at first
  have bytes : [limbToByte z, limbToByte (z >>> 8), limbToByte (z >>> 16), limbToByte (z >>> 24)] =
      littleBytes 4 z.toNat := by
    rw [first, byte, byte, byte]
    simp only [littleBytes, Nat.div_div_eq_div_mul]
    rfl
  show Buffer.store b [limbToByte z, limbToByte (z >>> 8), limbToByte (z >>> 16),
    limbToByte (z >>> 24)] h = _
  rw [bytes, Buffer.store_run live (by rwa [littleBytes_length])]

/-- Four words stored one after another are the encoding of their number. -/
theorem storeWords_run {mac : Buffer} (live : h.Live mac) (size : 16 ≤ mac.length) {x : Nat}
    {acc0 acc1 acc2 acc3 : Limb} (word0 : acc0.toNat = x % 2 ^ 32)
    (word1 : acc1.toNat = x / 2 ^ 32 % 2 ^ 32) (word2 : acc2.toNat = x / 2 ^ 64 % 2 ^ 32)
    (word3 : acc3.toNat = x / 2 ^ 96 % 2 ^ 32) :
    (do
      store32Le (← mac.sub 0 4) acc0
      store32Le (← mac.sub 4 4) acc1
      store32Le (← mac.sub 8 4) acc2
      store32Le (← mac.sub 12 4) acc3 : Stack Unit) h = some ((), h.write mac (littleBytes 16 x)) := by
  have enc (y : Nat) : littleBytes 4 (y % 2 ^ 32) = littleBytes 4 y := littleBytes_mod 4 y
  have step (first : Bytes) (y : Nat) (fits : first.length + 4 ≤ 16) :
      (h.write mac first).write (mac.slice first.length 4) (littleBytes 4 y) =
        h.write mac (first ++ littleBytes 4 y) :=
    Mem.write_append live first (littleBytes 4 y) 4 (by rw [littleBytes_length]; omega) (by simp)
      (by omega)
  have live' (first : Bytes) (fits : first.length + 4 ≤ 16) :
      (h.write mac first).Live (mac.slice first.length 4) :=
    (live.write live (by omega)).slice (by omega)
  have all : littleBytes 16 x = littleBytes 4 x ++ littleBytes 4 (x / 2 ^ 32) ++
      littleBytes 4 (x / 2 ^ 64) ++ littleBytes 4 (x / 2 ^ 96) := by
    rw [littleBytes_add 12 4, littleBytes_add 8 4, littleBytes_add 4 4]
  set first := littleBytes 4 x with first_def
  set second := first ++ littleBytes 4 (x / 2 ^ 32) with second_def
  set third := second ++ littleBytes 4 (x / 2 ^ 64) with third_def
  have size1 : first.length = 4 := by simp [first_def]
  have size2 : second.length = 8 := by simp [second_def, size1]
  have size3 : third.length = 12 := by simp [third_def, size2]
  have step1 := step first (x / 2 ^ 32) (by omega)
  have step2 := step second (x / 2 ^ 64) (by omega)
  have step3 := step third (x / 2 ^ 96) (by omega)
  have live1 := live' first (by omega)
  have live2 := live' second (by omega)
  have live3 := live' third (by omega)
  rw [size1] at step1 live1
  rw [size2] at step2 live2
  rw [size3] at step3 live3
  rw [Stack.bind_run (Buffer.sub_run _ (by omega)),
    Stack.bind_run (store32Le_run (live.slice (by omega)) (by simp) acc0), word0, enc,
    Mem.write_slice_zero, ← first_def, Stack.bind_run (Buffer.sub_run _ (by omega)),
    Stack.bind_run (store32Le_run live1 (by simp) acc1), word1, enc, step1, ← second_def,
    Stack.bind_run (Buffer.sub_run _ (by omega)),
    Stack.bind_run (store32Le_run live2 (by simp) acc2), word2, enc, step2, ← third_def,
    Stack.bind_run (Buffer.sub_run _ (by omega)), store32Le_run live3 (by simp) acc3, word3, enc, step3,
    all]

/-- The rest of the message is absorbed, and the tag is stored word by word. -/
theorem finish_run {mac keyS : Buffer} (live : h.Live mac) (live' : h.Live m) (live'' : h.Live keyS)
    (size : 16 ≤ mac.length) (size' : keyS.length = 16) (len : UInt64) (bounded : len.toNat < 2 ^ 32)
    (fits : len.toNat ≤ m.length)
    (absorbed : Absorbed kr (Spec.Poly1305.encodeBytes ((h.read m).take (16 * (len.toNat / 16)))) st) :
    finish_ st mac m len keyS h = some ((), h.write mac (Spec.Poly1305.finish (Spec.Poly1305.poly
      (Spec.Poly1305.encodeBytes ((h.read m).take len.toNat)) (Spec.Poly1305.encodeR kr))
      (h.read keyS))) := by
  obtain ⟨tmp, below, -, value, ran⟩ := toField_run live'' size'
  obtain ⟨st', absorbed', ran'⟩ := finish'_run len bounded absorbed live' fits
  obtain ⟨reduced, poly⟩ := lastPass_spec absorbed'.acc
  obtain ⟨summed, sum⟩ := fsum_spec field reduced below (by decide)
  have room : Below (2 ^ 31) (fsum (lastPass st'.h) tmp) := summed.mono (by decide)
  have carried := field.carryLimb_carried room
  obtain ⟨h0, h1, h2, h3, h4, limbs⟩ := five (field.carryLimb (fsum (lastPass st'.h) tmp))
  obtain ⟨below0, below1, below2, below3⟩ := carried.bounds
  have total := carried.seval
  rw [limbs] at below0 below1 below2 below3 total
  rw [sum, value, poly, Poly1305Word32.field_prime, absorbed'.accValue] at total
  obtain ⟨word0, word1, word2, word3⟩ := joinLimbs h0 h1 h2 h3 h4 below0 below1 below2 below3 total
  obtain ⟨w, number⟩ := block_number live'' size'
  have load (i : Nat) (within : i + 4 ≤ 16) := load32Le_slice live'' size' number within
  have stored := storeWords_run live size word0 word1 word2 word3
  rw [finish_, Stack.bind_run ran, Stack.bind_run ran']
  simp only [limbs]
  -- The loads of the key leave the memory alone, so what is left is the stores.
  rw [Stack.bind_run (Buffer.sub_run _ (by omega)), Stack.bind_run (load 0 (by decide)),
    Stack.bind_run (Buffer.sub_run _ (by omega)), Stack.bind_run (load 4 (by decide)),
    Stack.bind_run (Buffer.sub_run _ (by omega)), Stack.bind_run (load 8 (by decide)),
    Stack.bind_run (Buffer.sub_run _ (by omega)), Stack.bind_run (load 12 (by decide)),
    Spec.Poly1305.finish, littleBytes_mod 16]
  exact stored

/-- The implementation writes the tag of the first `len` input bytes. -/
theorem cryptoOnetimeauth_run {output input k : Buffer} (len : UInt64) (live : h.Live output)
    (live' : h.Live input) (live'' : h.Live k) (size : 16 ≤ output.length) (keySize : k.length = 32)
    (bounded : len.toNat < 2 ^ 32) (fits : len.toNat ≤ input.length) :
    cryptoOnetimeauth output input len k h =
      some ((), h.write output (Spec.Poly1305.poly1305 ((h.read input).take len.toNat) (h.read k))) := by
  obtain ⟨st, started, ran⟩ := init_run live'' (by omega)
  rw [← Spec.Poly1305.encodeBytes_nil] at started
  obtain ⟨st', absorbed, ran'⟩ := blocks_run rfl started live' len fits
  rw [List.nil_append] at absorbed
  have half := Mem.read_slice h k (i := 16) (n := 16) (by omega)
  rw [cryptoOnetimeauth, Stack.bind_run (Buffer.sub_run _ (by omega)),
    Stack.bind_run (Buffer.sub_run _ (by omega)), Stack.bind_run ran, Stack.bind_run ran',
    finish_run live live' (live''.slice (by omega)) size rfl len bounded fits absorbed, half]
  rfl

end HaclStar.Impl.Poly1305Experimental
