import HaclStar.Impl.UInt32x4N
import HaclStar.Spec.Chacha20Vec2

/-! ChaCha20 on a register for each word of the state: a block in each lane. -/

namespace HaclStar.Impl.Chacha20Vec2

open Endianness Keystream Memory

/-- The sixteen words of the states of as many blocks as a register has lanes. -/
abbrev State (g : Nat) := Vector (UInt32x4N.Vec g) 16

variable {g : Nat}

/-- The register of a word. -/
def reg (st : State g) (i : Fin 16) : UInt32x4N.Vec g :=
  getElem st i (Spec.within i)

/-- Overwrite the register of a word. -/
def setReg (st : State g) (i : Fin 16) (v : UInt32x4N.Vec g) : State g :=
  st.set i v (Spec.within i)

/-- Move every counter past the blocks of the state. -/
def stateIncr (k : State g) : State g :=
  let k12 := reg k 12
  let step := UInt32x4N.load32 (UInt32.ofNat (4 * g))
  setReg k 12 (UInt32x4N.add k12 step)

theorem quad_size (v0 v1 v2 v3 : UInt32x4N.Vec g) : #[v0, v1, v2, v3].size = 4 := rfl

/-- Four registers in a row. -/
def quad (v0 v1 v2 v3 : UInt32x4N.Vec g) : Vector (UInt32x4N.Vec g) 4 :=
  ⟨#[v0, v1, v2, v3], quad_size v0 v1 v2 v3⟩

open UInt32x4N (interleave32Low interleave32High interleave64Low interleave64High choose128) in
/-- Transpose the state: the words of each block one after another, and block after block. -/
def stateToKey (k : State g) : State g :=
  let k0 := reg k 0
  let k1 := reg k 1
  let k2 := reg k 2
  let k3 := reg k 3
  let k4 := reg k 4
  let k5 := reg k 5
  let k6 := reg k 6
  let k7 := reg k 7
  let k8 := reg k 8
  let k9 := reg k 9
  let k10 := reg k 10
  let k11 := reg k 11
  let k12 := reg k 12
  let k13 := reg k 13
  let k14 := reg k 14
  let k15 := reg k 15
  let k01l := interleave32Low k0 k1
  let k23l := interleave32Low k2 k3
  let k45l := interleave32Low k4 k5
  let k67l := interleave32Low k6 k7
  let k89l := interleave32Low k8 k9
  let k1011l := interleave32Low k10 k11
  let k1213l := interleave32Low k12 k13
  let k1415l := interleave32Low k14 k15
  let k01h := interleave32High k0 k1
  let k23h := interleave32High k2 k3
  let k45h := interleave32High k4 k5
  let k67h := interleave32High k6 k7
  let k89h := interleave32High k8 k9
  let k1011h := interleave32High k10 k11
  let k1213h := interleave32High k12 k13
  let k1415h := interleave32High k14 k15
  if g = 2 then
    let k03_1 := interleave64Low k01l k23l
    let k47_1 := interleave64Low k45l k67l
    let k07_0 := choose128 k03_1 k47_1 0 2
    let k07_4 := choose128 k03_1 k47_1 1 3
    let k03_2 := interleave64High k01l k23l
    let k47_2 := interleave64High k45l k67l
    let k07_1 := choose128 k03_2 k47_2 0 2
    let k07_5 := choose128 k03_2 k47_2 1 3
    let k811_1 := interleave64Low k89l k1011l
    let k1215_1 := interleave64Low k1213l k1415l
    let k815_0 := choose128 k811_1 k1215_1 0 2
    let k815_4 := choose128 k811_1 k1215_1 1 3
    let k811_2 := interleave64High k89l k1011l
    let k1215_2 := interleave64High k1213l k1415l
    let k815_1 := choose128 k811_2 k1215_2 0 2
    let k815_5 := choose128 k811_2 k1215_2 1 3
    let k03_3 := interleave64Low k01h k23h
    let k47_3 := interleave64Low k45h k67h
    let k07_2 := choose128 k03_3 k47_3 0 2
    let k07_6 := choose128 k03_3 k47_3 1 3
    let k03_4 := interleave64High k01h k23h
    let k47_4 := interleave64High k45h k67h
    let k07_3 := choose128 k03_4 k47_4 0 2
    let k07_7 := choose128 k03_4 k47_4 1 3
    let k811_3 := interleave64Low k89h k1011h
    let k1215_3 := interleave64Low k1213h k1415h
    let k815_2 := choose128 k811_3 k1215_3 0 2
    let k815_6 := choose128 k811_3 k1215_3 1 3
    let k811_4 := interleave64High k89h k1011h
    let k1215_4 := interleave64High k1213h k1415h
    let k815_3 := choose128 k811_4 k1215_4 0 2
    let k815_7 := choose128 k811_4 k1215_4 1 3
    quad k07_0 k815_0 k07_1 k815_1 ++ quad k07_2 k815_2 k07_3 k815_3 ++
      quad k07_4 k815_4 k07_5 k815_5 ++ quad k07_6 k815_6 k07_7 k815_7
  else if g = 1 then
    let k03_0 := interleave64Low k01l k23l
    let k47_0 := interleave64Low k45l k67l
    let k03_1 := interleave64High k01l k23l
    let k47_1 := interleave64High k45l k67l
    let k811_0 := interleave64Low k89l k1011l
    let k1215_0 := interleave64Low k1213l k1415l
    let k811_1 := interleave64High k89l k1011l
    let k1215_1 := interleave64High k1213l k1415l
    let k03_2 := interleave64Low k01h k23h
    let k47_2 := interleave64Low k45h k67h
    let k03_3 := interleave64High k01h k23h
    let k47_3 := interleave64High k45h k67h
    let k811_2 := interleave64Low k89h k1011h
    let k1215_2 := interleave64Low k1213h k1415h
    let k811_3 := interleave64High k89h k1011h
    let k1215_3 := interleave64High k1213h k1415h
    quad k03_0 k47_0 k811_0 k1215_0 ++ quad k03_1 k47_1 k811_1 k1215_1 ++
      quad k03_2 k47_2 k811_2 k1215_2 ++ quad k03_3 k47_3 k811_3 k1215_3
  else k

/-- Store sixteen registers one after another. -/
def vecStore16 (output : Buffer) (st : State g) : Stack Unit :=
  forLoop (fun i _ => UInt32x4N.storeLe (output.slice (16 * g * i) (16 * g)) (reg st (Fin.ofNat 16 i))) 16 ()

/-- Combine a message as long as sixteen registers with them. -/
def vecXor16 (output input : Buffer) (st : State g) : Stack Unit :=
  forLoop (fun i _ => do
    let x ← UInt32x4N.loadLe (input.slice (16 * g * i) (16 * g))
    UInt32x4N.storeLe (output.slice (16 * g * i) (16 * g)) (UInt32x4N.xor x (reg st (Fin.ofNat 16 i)))) 16 ()

/-- Write the bytes of the blocks of a state. -/
def stateToKeyBlock (streamBlock : Buffer) (k : State g) : Stack Unit := do
  let k := stateToKey k
  vecStore16 streamBlock k

/-- The registers of the constants. -/
def constantSetup : Vector (UInt32x4N.Vec g) 4 :=
  quad (UInt32x4N.load32 0x61707865) (UInt32x4N.load32 0x3320646e) (UInt32x4N.load32 0x79622d32)
    (UInt32x4N.load32 0x6b206574)

/-- The registers of the key, whose words are read one after another. -/
def keysetup (k : Buffer) : Stack (Vector (UInt32x4N.Vec g) 8) := do
  let k ← uint32sFromLeBytes k 8
  return k.map UInt32x4N.load32

/-- The register of the counters. -/
def ctrsetup (ctr : UInt32) : UInt32x4N.Vec g :=
  if g = 2 then
    UInt32x4N.load32x8 ctr (ctr + 1) (ctr + 2) (ctr + 3) (ctr + 4) (ctr + 5) (ctr + 6) (ctr + 7)
  else if g = 1 then UInt32x4N.load32x4 ctr (ctr + 1) (ctr + 2) (ctr + 3)
  else UInt32x4N.load32 ctr

/-- The registers of the nonce. -/
def ivsetup (iv : Buffer) : Stack (Vector (UInt32x4N.Vec g) 3) := do
  let n ← uint32sFromLeBytes iv 3
  return n.map UInt32x4N.load32

/-- The registers of a state, in their order. -/
def registers (constants : Vector (UInt32x4N.Vec g) 4) (key : Vector (UInt32x4N.Vec g) 8)
    (ctr : UInt32x4N.Vec g) (iv : Vector (UInt32x4N.Vec g) 3) : State g :=
  constants ++ key ++ Vector.singleton ctr ++ iv

/-- The initial state for a key, a nonce and a counter. -/
def stateSetup (k n : Buffer) (c : UInt32) : Stack (State g) := do
  let key ← keysetup k
  let iv ← ivsetup n
  return registers constantSetup key (ctrsetup c) iv

/-- Add one register to another, and rotate the exclusive or of the sum with a third. -/
def line (st : State g) (a b d : Fin 16) (s : UInt32) : State g :=
  let sa := reg st a
  let sb := reg st b
  let sd := reg st d
  let sa := UInt32x4N.add sa sb
  let sd := UInt32x4N.rotateLeft (UInt32x4N.xor sd sa) s
  let st := setReg st a sa
  setReg st d sd

/-- A round on the columns, all of which are treated alike. -/
def columnRound (st : State g) : State g :=
  let st := line st 0 4 12 16
  let st := line st 1 5 13 16
  let st := line st 2 6 14 16
  let st := line st 3 7 15 16
  let st := line st 8 12 4 12
  let st := line st 9 13 5 12
  let st := line st 10 14 6 12
  let st := line st 11 15 7 12
  let st := line st 0 4 12 8
  let st := line st 1 5 13 8
  let st := line st 2 6 14 8
  let st := line st 3 7 15 8
  let st := line st 8 12 4 7
  let st := line st 9 13 5 7
  let st := line st 10 14 6 7
  line st 11 15 7 7

/-- A round on the diagonals. -/
def diagonalRound (st : State g) : State g :=
  let st := line st 0 5 15 16
  let st := line st 1 6 12 16
  let st := line st 2 7 13 16
  let st := line st 3 4 14 16
  let st := line st 10 15 5 12
  let st := line st 11 12 6 12
  let st := line st 8 13 7 12
  let st := line st 9 14 4 12
  let st := line st 0 5 15 8
  let st := line st 1 6 12 8
  let st := line st 2 7 13 8
  let st := line st 3 4 14 8
  let st := line st 10 15 5 7
  let st := line st 11 12 6 7
  let st := line st 8 13 7 7
  line st 9 14 4 7

/-- Two rounds. -/
def doubleRound (st : State g) : State g :=
  let st := columnRound st
  diagonalRound st

/-- Twenty rounds. -/
def rounds (st : State g) : State g := doubleRound^[10] st

/-- Add the registers of a second state. -/
def sumStates (st' st : State g) : State g := Vector.zipWith UInt32x4N.add st' st

/-- The keystream words of the counters in the state. -/
def chacha20Core (st : State g) : State g :=
  let k := st
  let k := rounds k
  sumStates k st

/-- Write the keystream of the counters in the state. -/
def chacha20Block (streamBlock : Buffer) (st : State g) : Stack Unit := do
  let k := chacha20Core st
  stateToKeyBlock streamBlock k

/-- Encrypt a final part that is shorter than the blocks of a state, byte by byte. -/
def updateLast (output plain : Buffer) (len : Nat) (st : State g) : Stack Unit :=
  maskBundle (256 * g) (fun block => chacha20Block block st) output plain len

/-- Combine the blocks of a state with their keystream. -/
def xorBlock (output plain : Buffer) (st : State g) : Stack Unit := do
  let st := stateToKey st
  vecXor16 output plain st

/-- Encrypt the blocks of a state. -/
def update (output plain : Buffer) (st : State g) : Stack (State g) := do
  let k := chacha20Core st
  xorBlock output plain k
  return stateIncr st

/-- Encrypt the final part, when there is one. -/
def chacha20CounterMode' (output plain : Buffer) (len : Nat) (st : State g) : Stack Unit :=
  if len = 0 then return () else updateLast output plain len st

/-- Encrypt a message: the blocks of one state after another, and then the rest.
The counter `ctr` only bounds how far the lanes may count; the state holds the counters. -/
def chacha20CounterMode [NeZero g] (output plain : Buffer) (len : Nat) (st : State g) (ctr : UInt32) :
    Stack Unit :=
  let bs := 256 * g
  if len < bs then chacha20CounterMode' output plain len st
  else do
    let b ← plain.sub 0 bs
    let b' ← plain.offset bs
    let o ← output.sub 0 bs
    let o' ← output.offset bs
    let st ← update o b st
    chacha20CounterMode o' b' (len - bs) st (ctr + UInt32.ofNat (4 * g))
termination_by len
decreasing_by all_goals have := NeZero.pos g; omega

/-- Encrypt a message with the cipher on registers of `g` groups. -/
def chacha20 (g : Nat) [NeZero g] (output plain : Buffer) (len : UInt32) (k n : Buffer) (ctr : UInt32) :
    Stack Unit := do
  let st : State g ← stateSetup k n ctr
  chacha20CounterMode output plain len.toNat st ctr

/-! Each lane is a state of its own. -/

/-- The state in one lane of a group. -/
def lane (b : Fin g) (j : Fin 4) (st : State g) : Spec.Chacha20.State :=
  st.map fun v => UInt32x4N.laneOf (UInt32x4N.group v b) j

section Lane

variable (b : Fin g) (j : Fin 4) (st : State g)

theorem lane_reg (i : Fin 16) :
    getElem (lane b j st) i (Spec.within i) = UInt32x4N.laneOf (UInt32x4N.group (reg st i) b) j := by
  simp [lane, reg]

theorem lane_setReg (i : Fin 16) (v : UInt32x4N.Vec g) :
    lane b j (setReg st i v) =
      (lane b j st).set i (UInt32x4N.laneOf (UInt32x4N.group v b) j) (Spec.within i) := by
  simp [lane, setReg]

/-- A line works on each lane by itself. -/
theorem lane_line (a c d : Fin 16) (s : UInt32) (apart : a ≠ d) :
    lane b j (line st a c d s) = Spec.Chacha20.line a c d s (lane b j st) := by
  have apart' : (a : Nat) ≠ d := by omega
  set m := lane b j st
  -- The addition changes another word than the one that is rotated.
  have sum : (m.set a (m[a] + m[c]))[a] = m[a] + m[c] := Vector.getElem_set_self a.isLt
  have other : (m.set a (m[a] + m[c]))[d] = m[d] := Vector.getElem_set_ne a.isLt d.isLt apart'
  simp only [line, Spec.Chacha20.line, sum, other, lane_setReg, UInt32x4N.group_add, UInt32x4N.group_rotateLeft,
    UInt32x4N.group_xor, UInt32x4N.laneOf_add, UInt32x4N.laneOf_rotateLeft, UInt32x4N.laneOf_xor, ← lane_reg]
  rfl

theorem lane_columnRound : lane b j (columnRound st) = Spec.Chacha20.columnRound (lane b j st) := by
  rw [← Spec.Chacha20Vec2.columnRound_lines]
  simp (disch := decide) only [columnRound, lane_line]

theorem lane_diagonalRound : lane b j (diagonalRound st) = Spec.Chacha20.diagonalRound (lane b j st) := by
  rw [← Spec.Chacha20Vec2.diagonalRound_lines]
  simp (disch := decide) only [diagonalRound, lane_line]

theorem lane_rounds : lane b j (rounds st) = Spec.Chacha20.rounds (lane b j st) := by
  -- Taking a lane commutes with each of the ten double rounds.
  have commutes : Function.Semiconj (lane b j) doubleRound Spec.Chacha20.doubleRound := by
    intro st
    rw [doubleRound, lane_diagonalRound, lane_columnRound, Spec.Chacha20.doubleRound]
  exact commutes.iterate_right 10 st

theorem lane_chacha20Core : lane b j (chacha20Core st) = Spec.Chacha20.chacha20Core (lane b j st) := by
  rw [Spec.Chacha20.chacha20Core, ← lane_rounds]
  apply Vector.ext
  intro i inside
  simp [chacha20Core, sumStates, lane, UInt32x4N.laneOf, Impl.Vec.add]

end Lane

/-! The lanes hold the successive counters from some counter on. -/

/-- The state that belongs to a key, a nonce and a counter: each lane has a counter of its own. -/
def Keyed (k n : Bytes) (c : Nat) (st : State g) : Prop :=
  ∀ (b : Fin g) (j : Fin 4), lane b j st = Spec.Chacha20.setup k n (c + (4 * b.val + j.val))

variable {h : Mem} {output plain kb nb : Buffer} {k n : Bytes} {c : Nat} {st : State g}

/-- Moving the counters leads past the blocks of the state. -/
theorem Keyed.incr (keyed : Keyed k n c st) : Keyed k n (c + 4 * g) (stateIncr st) := by
  intro b j
  have counter := lane_reg b j st 12
  have word : (lane b j st)[(12 : Fin 16)] = UInt32.ofNat (c + (4 * b.val + j.val)) := by
    rw [keyed b j]
    exact Spec.Chacha20.setup_counter k n _
  have set := Spec.Chacha20.setup_set k n (c + (4 * b.val + j.val)) (UInt32.ofNat (c + (4 * b.val + j.val) + 4 * g))
  -- Only the counter word changes, by the number of lanes.
  rw [stateIncr, lane_setReg, UInt32x4N.group_add, UInt32x4N.group_load32, UInt32x4N.laneOf_add,
    UInt32x4N.laneOf_replicate, ← counter, word, keyed b j, ← UInt32.ofNat_add,
    show c + 4 * g + (4 * b.val + j.val) = c + (4 * b.val + j.val) + 4 * g by omega]
  exact set.trans (by simp only [Spec.Chacha20.setup, UInt32.ofNat_toNat])

/-- Each lane starts with the counter of its block. -/
theorem ctrsetup_lane (width : g = 1 ∨ g = 2) (ctr : UInt32) (b : Fin g) (j : Fin 4) :
    UInt32x4N.laneOf (UInt32x4N.group (ctrsetup ctr) b) j = ctr + UInt32.ofNat (4 * b.val + j.val) := by
  rcases width with rfl | rfl <;> fin_cases b <;> fin_cases j <;>
    simp [ctrsetup, UInt32x4N.group, UInt32x4N.laneOf, UInt32x4N.load32x8, UInt32x4N.load32x4, Impl.Vec.load32x4]

/-- The registers set up hold the specification's states of successive counters. -/
theorem stateSetup_run (width : g = 1 ∨ g = 2) (ctr : UInt32) (live : h.Live kb) (live' : h.Live nb)
    (size : kb.length = 32) (size' : nb.length = 12) :
    ∃ st : State g, Keyed (h.read kb) (h.read nb) ctr.toNat st ∧ stateSetup kb nb ctr h = some (st, h) := by
  have key := Mem.read_length live
  have nonce := Mem.read_length live'
  have loaded : keysetup kb h = some ((Spec.uint32sFromLe 8 (h.read kb)).map (UInt32x4N.load32 (g := g)), h) := by
    rw [keysetup, Stack.bind_run (uint32sFromLeBytes_run live (by omega)),
      List.take_of_length_le (by omega), Stack.pure_run]
  have loaded' : ivsetup nb h = some ((Spec.uint32sFromLe 3 (h.read nb)).map (UInt32x4N.load32 (g := g)), h) := by
    rw [ivsetup, Stack.bind_run (uint32sFromLeBytes_run live' (by omega)),
      List.take_of_length_le (by omega), Stack.pure_run]
  rw [stateSetup, Stack.bind_run loaded, Stack.bind_run loaded', Stack.pure_run]
  refine ⟨_, ?_, rfl⟩
  intro b j
  -- Every word is the same in all lanes, except for the counter.
  have spread {len : Nat} (words : Vector UInt32 len) :
      (words.map UInt32x4N.load32).map (fun v : UInt32x4N.Vec g => UInt32x4N.laneOf (UInt32x4N.group v b) j) =
        words := by
    apply Vector.ext
    intro i inside
    simp
  have constants : constantSetup.map (fun v : UInt32x4N.Vec g => UInt32x4N.laneOf (UInt32x4N.group v b) j) =
      #v[Spec.Chacha20.c0, Spec.Chacha20.c1, Spec.Chacha20.c2, Spec.Chacha20.c3] := by
    simp [constantSetup, quad, Spec.Chacha20.c0, Spec.Chacha20.c1, Spec.Chacha20.c2, Spec.Chacha20.c3]
  have counter : (Vector.singleton (ctrsetup ctr)).map
      (fun v : UInt32x4N.Vec g => UInt32x4N.laneOf (UInt32x4N.group v b) j) =
      #v[UInt32.ofNat (ctr.toNat + (4 * b.val + j.val))] := by
    rw [UInt32.ofNat_add, UInt32.ofNat_toNat, ← ctrsetup_lane width]
    simp [Vector.singleton]
  simp only [lane, registers, Vector.map_append, spread, constants, counter, Spec.Chacha20.setup]

/-! The transposition brings the words of each block together. -/

/-- One lane of four registers. -/
def gather (x y z w : UInt32x4N.Vec g) (b : Fin g) (j : Fin 4) : Impl.Vec :=
  Impl.Vec.load32x4 (UInt32x4N.laneOf (UInt32x4N.group x b) j) (UInt32x4N.laneOf (UInt32x4N.group y b) j)
    (UInt32x4N.laneOf (UInt32x4N.group z b) j) (UInt32x4N.laneOf (UInt32x4N.group w b) j)

section Interleave

open UInt32x4N

variable (x y z w : UInt32x4N.Vec g) (b : Fin g)

theorem interleave_lane0 :
    group (interleave64Low (interleave32Low x y) (interleave32Low z w)) b = gather x y z w b 0 := by
  simp [group, interleave64Low, interleave32Low, gather, laneOf, Impl.Vec.load32x4]

theorem interleave_lane1 :
    group (interleave64High (interleave32Low x y) (interleave32Low z w)) b = gather x y z w b 1 := by
  simp [group, interleave64High, interleave32Low, gather, laneOf, Impl.Vec.load32x4]

theorem interleave_lane2 :
    group (interleave64Low (interleave32High x y) (interleave32High z w)) b = gather x y z w b 2 := by
  simp [group, interleave64Low, interleave32High, gather, laneOf, Impl.Vec.load32x4]

theorem interleave_lane3 :
    group (interleave64High (interleave32High x y) (interleave32High z w)) b = gather x y z w b 3 := by
  simp [group, interleave64High, interleave32High, gather, laneOf, Impl.Vec.load32x4]

end Interleave

/-- The bytes of the registers of a state. -/
def keyBytes (k : State g) : Bytes := k.toList.flatMap UInt32x4N.bytes

/-- The bytes of a block are those of four registers that gather its words. -/
theorem lane_bytes (k : State g) (b : Fin g) (j : Fin 4) :
    Spec.uint32sToLe 16 (lane b j k) =
      Spec.uint32sToLe 4 (gather (reg k 0) (reg k 1) (reg k 2) (reg k 3) b j) ++
        (Spec.uint32sToLe 4 (gather (reg k 4) (reg k 5) (reg k 6) (reg k 7) b j) ++
          (Spec.uint32sToLe 4 (gather (reg k 8) (reg k 9) (reg k 10) (reg k 11) b j) ++
            Spec.uint32sToLe 4 (gather (reg k 12) (reg k 13) (reg k 14) (reg k 15) b j))) := by
  set rows : Chacha20Vec128.State := #v[gather (reg k 0) (reg k 1) (reg k 2) (reg k 3) b j,
    gather (reg k 4) (reg k 5) (reg k 6) (reg k 7) b j, gather (reg k 8) (reg k 9) (reg k 10) (reg k 11) b j,
    gather (reg k 12) (reg k 13) (reg k 14) (reg k 15) b j] with rows_def
  have words : lane b j k = Chacha20Vec128.words rows := by
    apply Vector.ext
    intro i inside
    rw [Chacha20Vec128.words_get]
    interval_cases i <;> simp [lane, rows_def, gather, reg, Impl.Vec.load32x4]
  rw [words, Chacha20Vec128.words_bytes]
  rfl

/-- The bytes of four times four registers. -/
theorem keyBytes_quads (q0 q1 q2 q3 : Vector (UInt32x4N.Vec g) 4) :
    keyBytes (q0 ++ q1 ++ q2 ++ q3 : Vector (UInt32x4N.Vec g) (4 + 4 + 4 + 4)) =
      q0.toList.flatMap UInt32x4N.bytes ++ (q1.toList.flatMap UInt32x4N.bytes ++
        (q2.toList.flatMap UInt32x4N.bytes ++ q3.toList.flatMap UInt32x4N.bytes)) := by
  show List.flatMap UInt32x4N.bytes (q0 ++ q1 ++ q2 ++ q3 : Vector (UInt32x4N.Vec g) (4 + 4 + 4 + 4)).toList = _
  simp only [Vector.toList_append, List.flatMap_append, List.append_assoc]

theorem quad_bytes (v0 v1 v2 v3 : UInt32x4N.Vec g) :
    (quad v0 v1 v2 v3).toList.flatMap UInt32x4N.bytes =
      UInt32x4N.bytes v0 ++ (UInt32x4N.bytes v1 ++ (UInt32x4N.bytes v2 ++ UInt32x4N.bytes v3)) := by
  simp [quad]

/-- The bytes of the four blocks of a group. -/
def groupBytes (k : State g) (b : Fin g) : Bytes :=
  Spec.uint32sToLe 16 (lane b 0 k) ++ (Spec.uint32sToLe 16 (lane b 1 k) ++
    (Spec.uint32sToLe 16 (lane b 2 k) ++ Spec.uint32sToLe 16 (lane b 3 k)))

/-- The lanes of one group are brought into their order. -/
theorem stateToKey_one (k : State 1) : keyBytes (stateToKey k) = groupBytes k 0 := by
  have quads := fun q0 q1 q2 q3 => @keyBytes_quads 1 q0 q1 q2 q3
  simp only [groupBytes, lane_bytes, stateToKey, if_neg (show ¬ 1 = 2 by decide), if_true, quads, quad_bytes,
    UInt32x4N.bytes_one, interleave_lane0, interleave_lane1, interleave_lane2, interleave_lane3, List.append_assoc]

/-- The lanes of two groups are brought into their order. -/
theorem stateToKey_two (k : State 2) : keyBytes (stateToKey k) = groupBytes k 0 ++ groupBytes k 1 := by
  simp only [groupBytes, lane_bytes, stateToKey, if_true, keyBytes_quads, quad_bytes, UInt32x4N.bytes_choose_first,
    UInt32x4N.bytes_choose_second, interleave_lane0, interleave_lane1, interleave_lane2, interleave_lane3,
    List.append_assoc]

/-- The transposed state is the keystream of the counters. -/
theorem Keyed.bytes (width : g = 1 ∨ g = 2) (keyed : Keyed k n c st) :
    keyBytes (stateToKey (chacha20Core st)) =
      (List.range (4 * g)).flatMap fun i => Spec.Chacha20.chacha20Block k n (c + i) := by
  have block (b : Fin g) (j : Fin 4) : Spec.uint32sToLe 16 (lane b j (chacha20Core st)) =
      Spec.Chacha20.chacha20Block k n (c + (4 * b.val + j.val)) := by
    rw [lane_chacha20Core, keyed b j, Spec.Chacha20.chacha20Block]
  rcases width with rfl | rfl
  · simp [stateToKey_one, groupBytes, block, List.range_succ]
  · simp [stateToKey_two, groupBytes, block, List.range_succ]

/-- The registers of a state, by their numbers. -/
theorem keyBytes_range (k : State g) :
    keyBytes k = (List.range 16).flatMap fun i => UInt32x4N.bytes (reg k (Fin.ofNat 16 i)) := by
  have listed : k.toList = (List.range 16).map fun i => reg k (Fin.ofNat 16 i) := by
    apply List.ext_getElem (by simp)
    intro i inside inside'
    have below : i < 16 := by simpa using inside'
    simp [reg, Nat.mod_eq_of_lt below]
  rw [keyBytes, listed, List.flatMap_map]

@[simp] theorem keyBytes_length (k : State g) : (keyBytes k).length = 256 * g := by
  have sizes := mapChunks_length (16 * g) 16 (fun i _ => UInt32x4N.bytes (reg k (Fin.ofNat 16 i))) []
    fun i _ => UInt32x4N.bytes_length _
  rw [keyBytes_range]
  exact sizes.trans (by omega)

/-- Sixteen registers are stored one after another. -/
theorem vecStore16_run (k : State g) (live : h.Live output) (fits : 256 * g ≤ output.length) :
    vecStore16 output k h = some ((), h.write output (keyBytes k)) := by
  -- Each step writes the next register, whatever was there before.
  have step : ∀ i (s : Unit) (m : Mem), i < 16 → True → True → m.Live output → m.Live output →
      ∃ s', True ∧ UInt32x4N.storeLe (output.slice (16 * g * i) (16 * g)) (reg k (Fin.ofNat 16 i)) m =
        some (s', m.write (output.slice (16 * g * i) (16 * g)) (UInt32x4N.bytes (reg k (Fin.ofNat 16 i)))) := by
    intro i _ m below _ _ live _
    have ends : 16 * g * (i + 1) ≤ 16 * g * 16 := Nat.mul_le_mul_left _ below
    rw [Nat.mul_succ] at ends
    exact ⟨(), trivial, UInt32x4N.storeLe_run _ _ _ live (by omega)⟩
  obtain ⟨_, -, ran⟩ := forLoop_chunks (fun _ _ => True) (fun _ => True) (16 * g)
    (fun i _ => UInt32x4N.bytes (reg k (Fin.ofNat 16 i))) (Or.inl rfl) (by omega) (by omega)
    (fun i _ _ _ => UInt32x4N.bytes_length _) (fun _ _ _ _ _ => trivial) step () h trivial trivial live live
  rw [vecStore16, keyBytes_range]
  exact ran

/-- A message as long as sixteen registers is combined with them. -/
theorem vecXor16_run (k : State g) (views : SameOrDisjoint output plain) (live : h.Live output)
    (live' : h.Live plain) (positive : 0 < g) (fits : 256 * g ≤ output.length) (fits' : 256 * g ≤ plain.length) :
    vecXor16 output plain k h =
      some ((), h.write output (Keystream.xor ((h.read plain).take (256 * g)) (keyBytes k))) := by
  have size := Mem.read_length live'
  set block := fun i => UInt32x4N.bytes (reg k (Fin.ofNat 16 i)) with block_def
  -- Each step combines the next part of the message with its register.
  have step : ∀ i (s : Unit) (m : Mem), i < 16 → True → True → m.Live output → m.Live plain →
      ∃ s', True ∧ (do
        let x ← UInt32x4N.loadLe (plain.slice (16 * g * i) (16 * g))
        UInt32x4N.storeLe (output.slice (16 * g * i) (16 * g)) (UInt32x4N.xor x (reg k (Fin.ofNat 16 i))) :
          Stack Unit) m = some (s', m.write (output.slice (16 * g * i) (16 * g))
            (Keystream.xor (m.read (plain.slice (16 * g * i) (16 * g))) (block (0 + i)))) := by
    intro i _ m below _ _ live live'
    have ends : 16 * g * (i + 1) ≤ 16 * g * 16 := Nat.mul_le_mul_left _ below
    rw [Nat.mul_succ] at ends
    obtain ⟨x, loaded, bytes⟩ := UInt32x4N.loadLe_run g (16 * g * i) live' (by omega)
    refine ⟨(), trivial, ?_⟩
    rw [Stack.bind_run loaded, UInt32x4N.storeLe_run _ _ _ live (by omega), UInt32x4N.bytes_xor, bytes, block_def,
      Nat.zero_add]
  obtain ⟨_, -, ran⟩ := forLoop_chunks (fun _ _ => True) (fun _ => True) (16 * g)
    (fun i chunk => Keystream.xor chunk (block (0 + i))) views (by omega) (by omega)
    (fun i chunk _ width => by rw [xor_length, width, block_def, UInt32x4N.bytes_length, Nat.min_self])
    (fun _ _ _ _ _ => trivial) step () h trivial trivial live live'
  have whole : 16 * g * 16 = 256 * g := by omega
  have cut := @mapChunks_take (16 * g) (fun i chunk => Keystream.xor chunk (block (0 + i))) 16 (h.read plain)
  have sizes (i : Nat) (_ : i < 16) : (block (0 + i)).length = 16 * g := UInt32x4N.bytes_length _
  rw [← cut, whole, ← xorStream_chunks (by omega) 16 sizes (by rw [List.length_take]; omega),
    ← xor_blocks (by omega) 16 sizes (by rw [List.length_take]; omega)] at ran
  rw [vecXor16, ran, keyBytes_range, block_def]
  simp only [Nat.zero_add]

/-- The blocks of a state are encrypted with the keystream from its counter on, and the counters move on. -/
theorem update_run (width : g = 1 ∨ g = 2) (keyed : Keyed k n c st) (views : SameOrDisjoint output plain)
    (live : h.Live output) (live' : h.Live plain)
    (fits : 64 * (4 * g) ≤ output.length) (fits' : 64 * (4 * g) ≤ plain.length) :
    ∃ st', Keyed k n (c + 4 * g) st' ∧ update output plain st h =
      some (st', streamed h (keystream (Spec.Chacha20.chacha20Block k n) 64 c) output plain (64 * (4 * g))) := by
  have combined : xorBlock output plain (chacha20Core st) h =
      some ((), streamed h (keystream (Spec.Chacha20.chacha20Block k n) 64 c) output plain (64 * (4 * g))) := by
    have ran := vecXor16_run (stateToKey (chacha20Core st)) views live live' (by omega) (by omega) (by omega)
    rw [keyed.bytes width, xor_blocks (by decide) (4 * g) (fun i _ => Spec.Chacha20.chacha20Block_length k n _)
      (by rw [List.length_take]; omega), show 256 * g = 64 * (4 * g) by omega] at ran
    exact ran
  refine ⟨stateIncr st, keyed.incr, ?_⟩
  rw [update, Stack.bind_run combined, Stack.pure_run]

/-- A final part is encrypted with the start of the keystream from the counter on. -/
theorem counterMode'_run {len : Nat} (width : g = 1 ∨ g = 2) (keyed : Keyed k n c st)
    (views : SameOrDisjoint output plain) (live : h.Live output) (live' : h.Live plain)
    (short : len ≤ 256 * g) (size : output.length = len) (size' : plain.length = len) :
    chacha20CounterMode' output plain len st h =
      some ((), streamed h (keystream (Spec.Chacha20.chacha20Block k n) 64 c) output plain len) := by
  have bytes := Mem.read_length live'
  unfold chacha20CounterMode'
  split
  · next none => rw [Stack.pure_run, none, streamed_zero live]
  · -- The keystream of all blocks is written to a buffer of its own first.
    have filled : chacha20Block (h.fresh (256 * g)) st (h.alloc (256 * g)) =
        some ((), Mem.write (h.alloc (256 * g)) (h.fresh (256 * g)) (keyBytes (stateToKey (chacha20Core st)))) :=
      vecStore16_run _ (Mem.fresh_live h (256 * g)) le_rfl
    rw [updateLast, maskBundle_run views live live' (keyBytes_length _) short size size' filled, keyed.bytes width,
      xor_blocks (by decide) (4 * g) (fun i _ => Spec.Chacha20.chacha20Block_length k n _) (by omega), streamed,
      List.take_of_length_le (by omega)]

/-- A message is encrypted with the keystream of the counters from that of the state on. -/
theorem chacha20CounterMode_run [NeZero g] {len : Nat} (width : g = 1 ∨ g = 2) (ctr : UInt32)
    (keyed : Keyed k n c st) (views : SameOrDisjoint output plain) (live : h.Live output) (live' : h.Live plain)
    (size : output.length = len) (size' : plain.length = len) :
    chacha20CounterMode output plain len st ctr h =
      some ((), streamed h (keystream (Spec.Chacha20.chacha20Block k n) 64 c) output plain len) := by
  have positive := NeZero.pos g
  -- Induction on the length: after the blocks of one state the rest is shorter.
  induction len using Nat.strong_induction_on generalizing output plain h st c ctr with
  | _ len ih =>
    rw [chacha20CounterMode]
    split_ifs with short
    · exact counterMode'_run width keyed views live live' short.le size size'
    · obtain ⟨st', keyed', ran⟩ := update_run width keyed
        (views.slice (i := 0) (n := 64 * (4 * g)) (by omega) (by omega))
        (live.slice (i := 0) (n := 64 * (4 * g)) (by omega))
        (live'.slice (i := 0) (n := 64 * (4 * g)) (by omega)) le_rfl le_rfl
      have whole : 64 * (4 * g) ≤ len := by omega
      have done := @streamed_blocks h output plain (len - 64 * (4 * g)) (Spec.Chacha20.chacha20Block k n) 64 c (4 * g)
        (by decide) views live live' (len - 64 * (4 * g)) (len - 64 * (4 * g)) le_rfl le_rfl (by omega) (by omega)
      rw [streamed_slice le_rfl (by omega)] at ran
      rw [Nat.add_sub_cancel' whole] at done
      rw [show 256 * g = 64 * (4 * g) by omega, Stack.bind_run (Buffer.sub_run _ (by omega)),
        Stack.bind_run (Buffer.offset_run _ (by omega)), Stack.bind_run (Buffer.sub_run _ (by omega)),
        Stack.bind_run (Buffer.offset_run _ (by omega)), Stack.bind_run ran, size, size', ← done]
      -- The rest starts at the counter behind those of the state.
      exact ih (len - 64 * (4 * g)) (by omega) _ keyed'
        (views.slice (i := 64 * (4 * g)) (n := len - 64 * (4 * g)) (by omega) (by omega))
        (streamed_live _ _ _ (live.slice (by omega)) live (by omega))
        (streamed_live _ _ _ (live'.slice (by omega)) live (by omega)) rfl rfl

/-- The message is combined with the specification's keystream. -/
theorem chacha20_run [NeZero g] {len ctr : UInt32} (width : g = 1 ∨ g = 2) (views : SameOrDisjoint output plain)
    (live : h.Live output) (live' : h.Live plain) (liveKey : h.Live kb) (liveNonce : h.Live nb)
    (size : kb.length = 32) (size' : nb.length = 12)
    (fits : output.length = len.toNat) (fits' : plain.length = len.toNat) :
    chacha20 g output plain len kb nb ctr h = some ((), h.write output
      (Spec.Chacha20.chacha20EncryptBytes (h.read kb) (h.read nb) ctr.toNat (h.read plain))) := by
  obtain ⟨st, keyed, ran⟩ := stateSetup_run (g := g) width ctr liveKey liveNonce size size'
  rw [chacha20, Stack.bind_run ran, chacha20CounterMode_run width ctr keyed views live live' fits fits', streamed,
    List.take_of_length_le (by rw [Mem.read_length live', fits']), Spec.Chacha20.chacha20EncryptBytes_keystream]

end HaclStar.Impl.Chacha20Vec2
