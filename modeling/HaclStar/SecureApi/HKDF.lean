import HaclStar.SecureApi.HMAC
import HaclStar.Spec.HKDF

/-! The agile HKDF: blocks are computed one from the other in one buffer, and copied to the output. -/

namespace HaclStar.SecureApi.HKDF

open Endianness Memory SecureApi.HMAC
open Spec.HKDF (block blocks blockCount)

/-- Extraction is the authenticator of the input under the salt. -/
def hkdfExtract (a : Alg) (prk salt : Buffer) (saltlen : UInt32) (ikm : Buffer) (ikmlen : UInt32) : Stack Unit :=
  hmac a prk salt saltlen ikm ikmlen

/-- The first block is the authenticator of the context and its number. -/
def hkdfExpandFirst (a : Alg) (ti til t prk : Buffer) (prklen : UInt32) (info : Buffer) (infolen i : UInt32) :
    Stack Unit := do
  Buffer.blit info 0 til 0 infolen.toNat
  til.upd infolen.toNat i.toUInt8
  hmac a ti prk prklen til (infolen + 1)
  Buffer.blit ti 0 t 0 (hashSize a).toNat

/-- The next block is the authenticator of the block before it, the context and its number. -/
def hkdfExpandNext (a : Alg) (ti til t prk : Buffer) (prklen : UInt32) (info : Buffer) (infolen i : UInt32) :
    Stack Unit := do
  let sizeTi := hashSize a
  let sizeTil := sizeTi + infolen + 1
  Buffer.blit ti 0 til 0 sizeTi.toNat
  Buffer.blit info 0 til sizeTi.toNat infolen.toNat
  til.upd (sizeTil - 1).toNat i.toUInt8
  hmac a ti prk prklen til sizeTil
  let pos := (i - 1) * sizeTi
  Buffer.blit ti 0 t pos.toNat sizeTi.toNat

/-- Compute the blocks from number `i` to number `n`. The state holds a block, the input of the
authenticator, and the blocks one after another. -/
def hkdfExpandInner (a : Alg) (state prk : Buffer) (prklen : UInt32) (info : Buffer) (infolen n : UInt32)
    (few : n.toNat ≤ 2 ^ 8) (i : UInt32) : Stack Unit := inFrame do
  let sizeTi := hashSize a
  let sizeTil := sizeTi + infolen + 1
  let sizeT := n * sizeTi
  let posTi : UInt32 := 0
  let posTil := sizeTi
  let posT := posTil + sizeTil
  let ti ← state.sub posTi.toNat sizeTi.toNat
  let til ← state.sub posTil.toNat sizeTil.toNat
  let t ← state.sub posT.toNat sizeT.toNat
  if first : i = 1 then
    hkdfExpandFirst a ti til t prk prklen info infolen i
    hkdfExpandInner a state prk prklen info infolen n few (i + 1)
  else if more : i ≤ n then
    hkdfExpandNext a ti til t prk prklen info infolen i
    hkdfExpandInner a state prk prklen info infolen n few (i + 1)
  else pure ()
termination_by n.toNat + 2 - i.toNat
decreasing_by
  · subst first
    show n.toNat + 2 - 2 < n.toNat + 2 - 1
    omega
  · have le := UInt32.le_iff_toNat_le.mp more
    have next : (i + 1).toNat = i.toNat + 1 := by
      rw [UInt32.toNat_add]
      show (i.toNat + 1) % 2 ^ 32 = _
      omega
    omega

/-- The number of blocks that hold `len` bytes. -/
def ceilBlocks (a : Alg) (len : UInt32) : UInt32 :=
  let n0 := if len % hashSize a = 0 then 0 else 1
  len / hashSize a + n0

/-- A number of bytes that is allowed needs at most as many blocks as one byte counts. -/
theorem ceilBlocks_toNat {a : Alg} {len : UInt32} (fits : len.toNat ≤ 255 * (hashSize a).toNat) :
    (ceilBlocks a len).toNat = blockCount (hashAlg a) len.toNat ∧ (ceilBlocks a len).toNat ≤ 255 := by
  have positive : 0 < (hashSize a).toNat := by cases a <;> decide
  have few : len.toNat / (hashSize a).toNat ≤ 255 := by
    rw [Nat.div_le_iff_le_mul_add_pred positive, Nat.mul_comm]
    omega
  have divided := Nat.div_add_mod' len.toNat (hashSize a).toNat
  have small := Nat.mod_lt len.toNat positive
  have number : (len / hashSize a).toNat = len.toNat / (hashSize a).toNat := UInt32.toNat_div _ _
  have rest : (len % hashSize a).toNat = len.toNat % (hashSize a).toNat := UInt32.toNat_mod _ _
  rw [ceilBlocks, UInt32.toNat_add, number, blockCount, ← hashSize_spec]
  by_cases whole : len % hashSize a = 0
  · -- Whole blocks are counted by the division.
    have none : len.toNat % (hashSize a).toNat = 0 := by rw [← rest, whole]; rfl
    have count : (len.toNat + (hashSize a).toNat - 1) / (hashSize a).toNat =
        len.toNat / (hashSize a).toNat := by
      apply Nat.div_eq_of_lt_le
      · omega
      · rw [Nat.succ_mul]
        omega
    rw [if_pos whole, count]
    show (_ + 0) % 2 ^ 32 = _ ∧ (_ + 0) % 2 ^ 32 ≤ 255
    omega
  · -- Otherwise there is one more, which is not full, and it is still among the allowed ones.
    have some : 0 < len.toNat % (hashSize a).toNat := by
      rw [← rest]
      exact Nat.pos_of_ne_zero fun zero => whole (UInt32.toNat_inj.mp zero)
    have count : (len.toNat + (hashSize a).toNat - 1) / (hashSize a).toNat =
        len.toNat / (hashSize a).toNat + 1 := by
      apply Nat.div_eq_of_lt_le
      · rw [Nat.succ_mul]
        omega
      · rw [Nat.succ_mul, Nat.succ_mul]
        omega
    have fewer : len.toNat / (hashSize a).toNat < 255 := by
      rw [Nat.div_lt_iff_lt_mul positive]
      refine Nat.lt_of_le_of_ne fits fun all => ?_
      rw [all, Nat.mul_mod_left] at some
      omega
    rw [if_neg whole, count]
    show (_ + 1) % 2 ^ 32 = _ ∧ (_ + 1) % 2 ^ 32 ≤ 255
    omega

/-- Compute as many blocks as hold `len` bytes, and copy these bytes. -/
def hkdfExpand (a : Alg) (okm prk : Buffer) (prklen : UInt32) (info : Buffer) (infolen len : UInt32)
    (fits : len.toNat ≤ 255 * (hashSize a).toNat) : Stack Unit := inFrame do
  let sizeTi := hashSize a
  let n := ceilBlocks a len
  let sizeT := n * sizeTi
  let sizeTil := sizeTi + infolen + 1
  let posTil := sizeTi
  let posT := posTil + sizeTil
  let state ← create (sizeTi + sizeTil + sizeT).toNat
  if 0 < n then
    hkdfExpandInner a state prk prklen info infolen n ((ceilBlocks_toNat fits).2.trans (by decide)) 1
  let t ← state.sub posT.toNat sizeT.toNat
  Buffer.blit t 0 okm 0 len.toNat

section Runs

variable {a : Alg} {h m : Mem} {state prk info : Buffer} {prklen infolen n : UInt32}

/-- The bytes in front of the blocks: a block, and the input of the authenticator. -/
def headSize (a : Alg) (infolen : UInt32) : Nat := (hashSize a).toNat + ((hashSize a).toNat + infolen.toNat + 1)

/-- The memory after `j` blocks, with the key and the context that the expansion is for. -/
structure Expanded (a : Alg) (h m : Mem) (state : Buffer) (infolen : UInt32) (key context : Bytes) (j : Nat) : Prop where
  outer : h.Outer m
  live : m.Live state
  last : 0 < j → m.read (state.slice 0 (hashSize a).toNat) = block (hashAlg a) key context j
  stored : m.read (state.slice (headSize a infolen) (j * (hashSize a).toNat)) =
    blocks (hashAlg a) key context j

/-- What the expansion relies on: the key and the context are live outside the frame of the state, and the
state holds its parts. -/
structure Views (a : Alg) (h : Mem) (state prk : Buffer) (prklen : UInt32) (info : Buffer) (infolen n : UInt32) :
    Prop where
  localState : h.length ≤ state.base
  livePrk : h.Live prk
  liveInfo : h.Live info
  prkFits : prklen.toNat ≤ prk.length
  infoFits : infolen.toNat ≤ info.length
  size : state.length = headSize a infolen + n.toNat * (hashSize a).toNat
  room : headSize a infolen + n.toNat * (hashSize a).toNat < 2 ^ 32

/-- The announced bytes of a view: the key, or the context. -/
def keyOf (h : Mem) (prk : Buffer) (prklen : UInt32) : Bytes := (h.read prk).take prklen.toNat

/-- With its input in place, the authenticator is the next block, which is then stored. -/
theorem mac_run (views : Views a h state prk prklen info infolen n) {key context : Bytes} {j : Nat}
    (expanded : Expanded a h m state infolen key context j) (below : j < n.toNat)
    (keyed : key = keyOf h prk prklen) {x : Bytes}
    (input : x = block (hashAlg a) key context j ++ context ++ [UInt8.ofNat (j + 1)]) {len : UInt32}
    (announced : x.length = len.toNat) (fits : x.length ≤ (hashSize a).toNat + infolen.toNat + 1) :
    ∃ m', Expanded a h m' state infolen key context (j + 1) ∧ m'.length = m.length ∧
      (do
        hmac a (state.slice 0 (hashSize a).toNat) prk prklen
          (state.slice (hashSize a).toNat ((hashSize a).toNat + infolen.toNat + 1)) len
        Buffer.blit (state.slice 0 (hashSize a).toNat) 0
          (state.slice (headSize a infolen) (n.toNat * (hashSize a).toNat)) (j * (hashSize a).toNat)
          (hashSize a).toNat)
        (m.write (state.slice (hashSize a).toNat ((hashSize a).toNat + infolen.toNat + 1)) x) =
        some ((), m') := by
  obtain ⟨localState, livePrk, liveInfo, prkFits, infoFits, size, room⟩ := views
  obtain ⟨outer, live, last, stored⟩ := expanded
  set H := (hashSize a).toNat with H_def
  have head : headSize a infolen = H + (H + infolen.toNat + 1) := rfl
  set posT := headSize a infolen with posT_def
  have inside : j * H + H ≤ n.toNat * H := by
    rw [← Nat.succ_mul]
    exact Nat.mul_le_mul_right _ below
  set ti := state.slice 0 H with ti_def
  set til := state.slice H (H + infolen.toNat + 1) with til_def
  have liveTi : m.Live ti := live.slice (by omega)
  have liveTil : m.Live til := live.slice (by omega)
  -- The input is in place.
  set m0 := m.write til x with m0_def
  have outer0 : h.Outer m0 := outer.write_new (b := til) localState x
  have readTil : (m0.read til).take len.toNat = x := by
    rw [m0_def, Mem.read_write_prefix liveTil fits, ← announced, List.take_left]
  have liveTi0 : m0.Live ti := liveTi.write liveTil fits
  -- The authenticator is the next block.
  have mac : hmac a ti prk prklen til len m0 = _ :=
    hmac_run liveTi0 (outer0.live livePrk) (liveTil.write liveTil fits) rfl prkFits (by
      rw [← announced]
      exact fits)
  rw [readTil, outer0.read livePrk, ← keyOf, ← keyed, input] at mac
  set next := block (hashAlg a) key context (j + 1) with next_def
  have nextSize : next.length = H := by
    rw [next_def, Spec.HKDF.block_length, ← hashSize_spec]
  change hmac a ti prk prklen til len m0 = some ((), m0.write ti next) at mac
  set m1 := m0.write ti next with m1_def
  have outer1 : h.Outer m1 := outer0.write_new (b := ti) localState next
  have live1 : m1.Live state := (live.write liveTil fits).write liveTi0 nextSize.le
  -- It is copied behind the blocks stored before.
  set t := state.slice posT (n.toNat * H) with t_def
  have liveTi1 : m1.Live ti := live1.slice (by omega)
  have liveT1 : m1.Live t := live1.slice (by omega)
  have readTi1 : m1.read ti = next := Mem.read_write_same liveTi0 nextSize
  have copied : Buffer.blit ti 0 t (j * H) H m1 = some ((), m1.write (t.slice (j * H) H) next) := by
    have whole : ((m1.read ti).drop 0).take H = next := by
      rw [readTi1, List.drop_zero, List.take_of_length_le nextSize.le]
    rw [Buffer.blit_run liveTi1 liveT1 (by simp [ti_def]) inside, whole]
  have place : t.slice (j * H) H = state.slice (posT + j * H) H := Buffer.slice_slice state _ _ _ _
  rw [place] at copied
  set target := state.slice (posT + j * H) H with target_def
  set m2 := m1.write target next with m2_def
  have liveTarget : m1.Live target := live1.slice (by omega)
  have fits' : next.length ≤ target.length := nextSize.le
  -- Each of the three writes leaves the blocks stored before.
  have before : m2.read (state.slice posT (j * H)) = blocks (hashAlg a) key context j := by
    rw [m2_def, Mem.read_write_disjoint liveTarget fits'
      (Buffer.disjoint_slices state (by omega)).symm, m1_def, Mem.read_write_disjoint liveTi0 nextSize.le
      (Buffer.disjoint_slices state (by omega)), m0_def, Mem.read_write_disjoint liveTil fits
      (Buffer.disjoint_slices state (by omega)), stored]
  refine ⟨m2, ⟨outer1.write_new (b := target) localState next, live1.write liveTarget fits', ?_, ?_⟩, ?_, ?_⟩
  · intro _
    rw [m2_def, Mem.read_write_disjoint liveTarget fits' (Buffer.disjoint_slices state (by omega)).symm, readTi1]
  · rw [Nat.succ_mul, Mem.read_slice_append, before, Mem.read_write_same liveTarget nextSize]
    rfl
  · rw [m2_def, Mem.write_length, m1_def, Mem.write_length, m0_def, Mem.write_length]
  · rw [Stack.bind_run mac, copied]

/-- Writing a byte behind what was written extends it. -/
theorem upd_append {b : Buffer} (live : m.Live b) (w : Bytes) (inside : w.length < b.length) (x : UInt8) :
    b.upd w.length x (m.write b w) = some ((), m.write b (w ++ [x])) := by
  rw [Buffer.upd_run (live.write live inside.le) inside, Mem.write_append live w [x] 1
    (by rw [List.length_singleton]; omega) (by simp) (by omega)]

/-- Copying behind what was written extends it. -/
theorem blit_append {b src : Buffer} (live : m.Live b) (w : Bytes) {count : Nat}
    (readable : (m.write b w).Live src) (within : count ≤ src.length) (inside : w.length + count ≤ b.length) :
    Buffer.blit src 0 b w.length count (m.write b w) =
      some ((), m.write b (w ++ ((m.write b w).read src).take count)) := by
  have bytes := Mem.read_length readable
  have taken : (((m.write b w).read src).take count).length = count := by rw [List.length_take]; omega
  rw [Buffer.blit_run readable (live.write live (by omega)) (by omega) inside, List.drop_zero,
    Mem.write_append live w _ count (by omega) (by omega) inside]

/-- The first block. -/
theorem hkdfExpandFirst_run (views : Views a h state prk prklen info infolen n)
    (expanded : Expanded a h m state infolen (keyOf h prk prklen) (keyOf h info infolen) 0) (needed : 0 < n.toNat) :
    ∃ m', Expanded a h m' state infolen (keyOf h prk prklen) (keyOf h info infolen) 1 ∧ m'.length = m.length ∧
      hkdfExpandFirst a (state.slice 0 (hashSize a).toNat)
        (state.slice (hashSize a).toNat ((hashSize a).toNat + infolen.toNat + 1))
        (state.slice (headSize a infolen) (n.toNat * (hashSize a).toNat)) prk prklen info infolen 1 m =
        some ((), m') := by
  have room := views.room
  have size := views.size
  have head : headSize a infolen = (hashSize a).toNat + ((hashSize a).toNat + infolen.toNat + 1) := rfl
  set til := state.slice (hashSize a).toNat ((hashSize a).toNat + infolen.toNat + 1) with til_def
  have liveTil : m.Live til := expanded.live.slice (by omega)
  have liveInfo := expanded.outer.live views.liveInfo
  have readInfo : m.read info = h.read info := expanded.outer.read views.liveInfo
  have bytes := Mem.read_length views.liveInfo
  have context : (keyOf h info infolen).length = infolen.toNat := by
    rw [keyOf, List.length_take, bytes, Nat.min_eq_left views.infoFits]
  -- The context is written first, and then its number.
  have copied : Buffer.blit info 0 til 0 infolen.toNat m = some ((), m.write til (keyOf h info infolen)) := by
    rw [Buffer.blit_run liveInfo liveTil (by have := views.infoFits; omega) (by simp [til_def]; omega),
      readInfo, List.drop_zero, Mem.write_slice_zero, keyOf]
  have numbered := upd_append liveTil (keyOf h info infolen) (by rw [context]; simp [til_def]) 1
  rw [context] at numbered
  have total : (infolen + 1).toNat = infolen.toNat + 1 := by
    rw [UInt32.toNat_add]
    show (infolen.toNat + 1) % 2 ^ 32 = _
    omega
  have announced : (keyOf h info infolen ++ [1]).length = (infolen + 1).toNat := by
    rw [List.length_append, context, total]
    rfl
  obtain ⟨m', expanded', same, ran⟩ := mac_run views expanded needed rfl
    (x := keyOf h info infolen ++ [1]) rfl announced (by rw [announced, total]; omega)
  refine ⟨m', expanded', same, ?_⟩
  rw [Nat.zero_mul] at ran
  rw [hkdfExpandFirst, Stack.bind_run copied]
  exact (Stack.bind_run numbered _).trans ran

/-- A block behind another one. -/
theorem hkdfExpandNext_run (views : Views a h state prk prklen info infolen n) {j : Nat}
    (expanded : Expanded a h m state infolen (keyOf h prk prklen) (keyOf h info infolen) (j + 1)) (below : j + 1 < n.toNat)
    {i : UInt32} (number : i.toNat = j + 2) :
    ∃ m', Expanded a h m' state infolen (keyOf h prk prklen) (keyOf h info infolen) (j + 2) ∧ m'.length = m.length ∧
      hkdfExpandNext a (state.slice 0 (hashSize a).toNat)
        (state.slice (hashSize a).toNat ((hashSize a).toNat + infolen.toNat + 1))
        (state.slice (headSize a infolen) (n.toNat * (hashSize a).toNat)) prk prklen info infolen i m =
        some ((), m') := by
  have room := views.room
  have size := views.size
  have head : headSize a infolen = (hashSize a).toNat + ((hashSize a).toNat + infolen.toNat + 1) := rfl
  have inside : (j + 1) * (hashSize a).toNat ≤ n.toNat * (hashSize a).toNat := Nat.mul_le_mul_right _ below.le
  set ti := state.slice 0 (hashSize a).toNat with ti_def
  set til := state.slice (hashSize a).toNat ((hashSize a).toNat + infolen.toNat + 1) with til_def
  have liveTi : m.Live ti := expanded.live.slice (by omega)
  have liveTil : m.Live til := expanded.live.slice (by omega)
  have bytes := Mem.read_length views.liveInfo
  have context : (keyOf h info infolen).length = infolen.toNat := by
    rw [keyOf, List.length_take, bytes, Nat.min_eq_left views.infoFits]
  set last := block (hashAlg a) (keyOf h prk prklen) (keyOf h info infolen) (j + 1) with last_def
  have lastSize : last.length = (hashSize a).toNat := by
    rw [last_def, Spec.HKDF.block_length, ← hashSize_spec]
  have readTi : m.read ti = last := expanded.last (by omega)
  -- The block before, the context, and the number are written one behind the other.
  have copied : Buffer.blit ti 0 til 0 (hashSize a).toNat m = some ((), m.write til last) := by
    rw [Buffer.blit_run liveTi liveTil (by simp [ti_def]) (by simp [til_def]; omega), readTi, List.drop_zero,
      List.take_of_length_le lastSize.le, Mem.write_slice_zero]
  have outer' : h.Outer (m.write til last) := expanded.outer.write_new (b := til) views.localState last
  have contextual := blit_append liveTil last (outer'.live views.liveInfo) views.infoFits
    (by rw [lastSize]; simp [til_def])
  rw [outer'.read views.liveInfo, ← keyOf, lastSize] at contextual
  have joined : (last ++ keyOf h info infolen).length = (hashSize a).toNat + infolen.toNat := by
    rw [List.length_append, lastSize, context]
  have numbered := upd_append liveTil (last ++ keyOf h info infolen) (by rw [joined]; simp [til_def]) i.toUInt8
  rw [joined] at numbered
  have total : (hashSize a + infolen + 1).toNat = (hashSize a).toNat + infolen.toNat + 1 := by
    rw [UInt32.toNat_add, UInt32.toNat_add]
    show (((hashSize a).toNat + infolen.toNat) % 2 ^ 32 + 1) % 2 ^ 32 = _
    omega
  have place : (hashSize a + infolen + 1 - 1).toNat = (hashSize a).toNat + infolen.toNat := by
    rw [UInt32.toNat_sub_of_le _ _ (by rw [UInt32.le_iff_toNat_le, total]; show 1 ≤ _; omega), total]
    rfl
  have before : (i - 1).toNat = j + 1 := by
    rw [UInt32.toNat_sub_of_le _ _ (by rw [UInt32.le_iff_toNat_le, number]; show 1 ≤ _; omega), number]
    rfl
  have target : ((i - 1) * hashSize a).toNat = (j + 1) * (hashSize a).toNat := by
    rw [UInt32.toNat_mul, before, Nat.mod_eq_of_lt (by omega)]
  have byte : i.toUInt8 = UInt8.ofNat (j + 1 + 1) := by
    rw [← number]
    rfl
  have announced : (last ++ keyOf h info infolen ++ [i.toUInt8]).length = (hashSize a + infolen + 1).toNat := by
    rw [List.length_append, joined, total]
    rfl
  obtain ⟨m', expanded', same, ran⟩ := mac_run views expanded below rfl
    (x := last ++ keyOf h info infolen ++ [i.toUInt8]) (by rw [byte]) announced (by rw [announced, total])
  refine ⟨m', expanded', same, ?_⟩
  rw [hkdfExpandNext, Stack.bind_run copied, Stack.bind_run contextual, place]
  rw [← target] at ran
  exact (Stack.bind_run numbered _).trans ran

/-- Extraction writes the authenticator of the specification. -/
theorem hkdfExtract_run {salt ikm : Buffer} {saltlen ikmlen : UInt32} (live : h.Live prk)
    (live' : h.Live salt) (live'' : h.Live ikm) (size : prk.length = (hashSize a).toNat)
    (fits : saltlen.toNat ≤ salt.length) (fits' : ikmlen.toNat ≤ ikm.length) :
    hkdfExtract a prk salt saltlen ikm ikmlen h = some ((), h.write prk
      (Spec.HKDF.hkdfExtract (hashAlg a) (keyOf h salt saltlen) (keyOf h ikm ikmlen))) :=
  hmac_run live live' live'' size fits fits'

/-- The sizes and positions that the code computes. -/
theorem positions (views : Views a h state prk prklen info infolen n) :
    (hashSize a + infolen + 1).toNat = (hashSize a).toNat + infolen.toNat + 1 ∧
    (hashSize a + (hashSize a + infolen + 1)).toNat = headSize a infolen ∧
    (n * hashSize a).toNat = n.toNat * (hashSize a).toNat := by
  have room := views.room
  have head : headSize a infolen = (hashSize a).toNat + ((hashSize a).toNat + infolen.toNat + 1) := rfl
  have input : (hashSize a + infolen + 1).toNat = (hashSize a).toNat + infolen.toNat + 1 := by
    rw [UInt32.toNat_add, UInt32.toNat_add]
    show (((hashSize a).toNat + infolen.toNat) % 2 ^ 32 + 1) % 2 ^ 32 = _
    omega
  refine ⟨input, ?_, ?_⟩
  · rw [UInt32.toNat_add, input, Nat.mod_eq_of_lt (by omega), head]
  · rw [UInt32.toNat_mul, Nat.mod_eq_of_lt (by omega)]

/-- From the blocks so far, the recursion goes on to all of them. -/
theorem hkdfExpandInner_run (views : Views a h state prk prklen info infolen n) (few : n.toNat ≤ 2 ^ 8) {j : Nat}
    {i : UInt32} (number : i.toNat = j + 1) (needed : 0 < n.toNat) (reached : j ≤ n.toNat)
    (expanded : Expanded a h m state infolen (keyOf h prk prklen) (keyOf h info infolen) j) :
    ∃ m', Expanded a h m' state infolen (keyOf h prk prklen) (keyOf h info infolen) n.toNat ∧
      m'.length = m.length ∧
      hkdfExpandInner a state prk prklen info infolen n few i m = some ((), m') := by
  obtain ⟨input, head, total⟩ := positions views
  have size := views.size
  have front : headSize a infolen = (hashSize a).toNat + ((hashSize a).toNat + infolen.toNat + 1) := rfl
  have zero : (0 : UInt32).toNat = 0 := rfl
  have one : (1 : UInt32).toNat = 1 := rfl
  -- Induction on the number of blocks that are missing.
  obtain ⟨missing, count⟩ : ∃ missing, missing = n.toNat - j := ⟨_, rfl⟩
  induction missing generalizing j i m with
  | zero =>
    have last : ¬ i = 1 := by
      rintro rfl
      omega
    have beyond : ¬ i ≤ n := by
      rw [UInt32.le_iff_toNat_le]
      omega
    obtain rfl : j = n.toNat := by omega
    refine ⟨m, expanded, rfl, ?_⟩
    rw [hkdfExpandInner]
    refine inFrame_outer ?_ (Mem.Outer.refl m) rfl
    rw [zero, head, input, total, Stack.bind_run (Buffer.sub_run _ (by omega)),
      Stack.bind_run (Buffer.sub_run _ (by omega)), Stack.bind_run (Buffer.sub_run _ (by omega)), dif_neg last,
      dif_neg beyond, Stack.pure_run]
  | succ missing ih =>
    have next : (i + 1).toNat = i.toNat + 1 := by
      rw [UInt32.toNat_add]
      show (i.toNat + 1) % 2 ^ 32 = _
      omega
    cases j with
    | zero =>
      obtain rfl : i = 1 := UInt32.toNat_inj.mp number
      obtain ⟨m', expanded', same, ran⟩ := hkdfExpandFirst_run views expanded needed
      obtain ⟨m'', expanded'', same', ran'⟩ := ih next (by omega) expanded' (by omega)
      refine ⟨m'', expanded'', same'.trans same, ?_⟩
      rw [hkdfExpandInner]
      refine inFrame_outer ?_ (Mem.Outer.refl m'') (same'.trans same)
      rw [zero, head, input, total, Stack.bind_run (Buffer.sub_run _ (by omega)),
        Stack.bind_run (Buffer.sub_run _ (by omega)), Stack.bind_run (Buffer.sub_run _ (by omega)), dif_pos rfl,
        Stack.bind_run ran, ran']
    | succ j =>
      have later : ¬ i = 1 := by
        rintro rfl
        omega
      have within : i ≤ n := by
        rw [UInt32.le_iff_toNat_le]
        omega
      obtain ⟨m', expanded', same, ran⟩ := hkdfExpandNext_run views expanded (by omega) number
      obtain ⟨m'', expanded'', same', ran'⟩ := ih (i := i + 1) (by omega) (by omega) expanded' (by omega)
      refine ⟨m'', expanded'', same'.trans same, ?_⟩
      rw [hkdfExpandInner]
      refine inFrame_outer ?_ (Mem.Outer.refl m'') (same'.trans same)
      rw [zero, head, input, total, Stack.bind_run (Buffer.sub_run _ (by omega)),
        Stack.bind_run (Buffer.sub_run _ (by omega)), Stack.bind_run (Buffer.sub_run _ (by omega)), dif_neg later,
        dif_pos within, Stack.bind_run ran, ran']

/-- The expansion writes the first bytes of the blocks. -/
theorem hkdfExpand_run {okm : Buffer} {len : UInt32} (live : h.Live okm) (livePrk : h.Live prk)
    (liveInfo : h.Live info) (okmFits : len.toNat ≤ okm.length) (prkFits : prklen.toNat ≤ prk.length)
    (infoFits : infolen.toNat ≤ info.length) (fits : len.toNat ≤ 255 * (hashSize a).toNat)
    (room : headSize a infolen + blockCount (hashAlg a) len.toNat * (hashSize a).toNat < 2 ^ 32) :
    hkdfExpand a okm prk prklen info infolen len fits h = some ((), h.write (okm.slice 0 len.toNat)
      ((blocks (hashAlg a) (keyOf h prk prklen) (keyOf h info infolen)
        (blockCount (hashAlg a) len.toNat)).take len.toNat)) := by
  obtain ⟨number, few⟩ := ceilBlocks_toNat fits
  have enough := Spec.HKDF.le_blockCount (a := hashAlg a) len.toNat
  rw [← hashSize_spec] at enough
  rw [← number] at room enough ⊢
  set n := ceilBlocks a len with n_def
  set size := headSize a infolen + n.toNat * (hashSize a).toNat with size_def
  set state := h.fresh size with state_def
  have views : Views a h state prk prklen info infolen n :=
    ⟨le_rfl, livePrk, liveInfo, prkFits, infoFits, rfl, room⟩
  obtain ⟨input, head, total⟩ := positions views
  have whole : (hashSize a + (hashSize a + infolen + 1) + n * hashSize a).toNat = size := by
    rw [UInt32.toNat_add, head, total, Nat.mod_eq_of_lt (by omega)]
  have start : Expanded a h (h.alloc size) state infolen (keyOf h prk prklen) (keyOf h info infolen) 0 := by
    refine ⟨(Mem.Outer.refl h).alloc size, Mem.fresh_live h size, by omega, ?_⟩
    rw [Nat.zero_mul, Mem.read, Buffer.slice_length, List.take_zero]
    rfl
  set bytes := (blocks (hashAlg a) (keyOf h prk prklen) (keyOf h info infolen) n.toNat).take len.toNat
  -- From all the blocks, the bytes are copied.
  have finished {m : Mem} (expanded : Expanded a h m state infolen (keyOf h prk prklen) (keyOf h info infolen) n.toNat) :
      Mem.Outer (h.write (okm.slice 0 len.toNat) bytes) (m.write (okm.slice 0 len.toNat) bytes) ∧
      (do
        let t ← state.sub (headSize a infolen) (n.toNat * (hashSize a).toNat)
        Buffer.blit t 0 okm 0 len.toNat) m = some ((), m.write (okm.slice 0 len.toNat) bytes) := by
    have liveT : m.Live (state.slice (headSize a infolen) (n.toNat * (hashSize a).toNat)) :=
      expanded.live.slice le_rfl
    refine ⟨expanded.outer.write_old (live.slice (by omega)) _, ?_⟩
    rw [Stack.bind_run (Buffer.sub_run _ le_rfl), Buffer.blit_run liveT (expanded.outer.live live)
      (by rw [Buffer.slice_length]; omega) (by omega), List.drop_zero, expanded.stored]
  by_cases needed : 0 < n
  · have positive : 0 < n.toNat := UInt32.lt_iff_toNat_lt.mp needed
    obtain ⟨m, expanded, -, ran⟩ := hkdfExpandInner_run views (few.trans (by decide)) (i := 1) rfl positive
      (Nat.zero_le _) start
    obtain ⟨outer, copied⟩ := finished expanded
    refine inFrame_outer ?_ outer (by simp)
    rw [whole, Stack.bind_run (create_run _), if_pos needed, Stack.bind_run ran, head, total]
    exact copied
  · -- No block is needed, and none is computed.
    have none : n.toNat = 0 := by
      rw [UInt32.lt_iff_toNat_lt] at needed
      exact Nat.eq_zero_of_not_pos needed
    obtain ⟨outer, copied⟩ := finished (by rw [none]; exact start)
    refine inFrame_outer ?_ outer (by simp)
    rw [whole, Stack.bind_run (create_run _), if_neg needed, head, total]
    exact copied

end Runs

end HaclStar.SecureApi.HKDF
