import HaclStar.Impl.UInt32x4N

/-! ChaCha20 on rows of one or two groups of lanes: a block for each group, and up to three states at a time. -/

namespace HaclStar.Impl.Chacha20Vec

open Endianness Keystream Memory

/-- The four rows of a state, which holds a block for each group of lanes. -/
abbrev State (g : Nat) := Vector (UInt32x4N.Vec g) 4

variable {g : Nat}

/-- A row of a state. -/
def row (st : State g) (i : Fin 4) : UInt32x4N.Vec g :=
  getElem st i (Spec.withinRow i)

/-- Overwrite a row. -/
def setRow (st : State g) (i : Fin 4) (v : UInt32x4N.Vec g) : State g :=
  st.set i v (Spec.withinRow i)

/-- Move the counters past the blocks of the state. -/
def stateIncr (k : State g) : State g :=
  let k3 := row k 3
  if g = 2 then setRow k 3 (UInt32x4N.add k3 UInt32x4N.twoLe)
  else setRow k 3 (UInt32x4N.add k3 UInt32x4N.oneLe)

/-- Put the rows of each block next to each other. -/
def stateToKey (k : State g) : State g :=
  if g = 2 then
    let k0 := row k 0
    let k1 := row k 1
    let k2 := row k 2
    let k3 := row k 3
    let k := setRow k 0 (UInt32x4N.choose128 k0 k1 0 2)
    let k := setRow k 1 (UInt32x4N.choose128 k2 k3 0 2)
    let k := setRow k 2 (UInt32x4N.choose128 k0 k1 1 3)
    setRow k 3 (UInt32x4N.choose128 k2 k3 1 3)
  else k

/-- Store four registers one after another, all but the first through views of `room` bytes. -/
def storeRows (output : Buffer) (room : Nat) (v0 v1 v2 v3 : UInt32x4N.Vec g) : Stack Unit := do
  let o0 ← output.sub 0 (16 * g)
  UInt32x4N.storeLe o0 v0
  let o1 ← output.sub (16 * g) room
  UInt32x4N.storeLe o1 v1
  let o2 ← output.sub (16 * g * 2) room
  UInt32x4N.storeLe o2 v2
  let o3 ← output.sub (16 * g * 3) room
  UInt32x4N.storeLe o3 v3

/-- Write the bytes of the blocks of a state. The source's views are of sixteen bytes whatever the width. -/
def stateToKeyBlock (streamBlock : Buffer) (k : State g) : Stack Unit := do
  let k := stateToKey k
  storeRows streamBlock 16 (row k 0) (row k 1) (row k 2) (row k 3)

/-- The row of constants. -/
def constantSetup : UInt32x4N.Vec g := UInt32x4N.load32x4 0x61707865 0x3320646e 0x79622d32 0x6b206574

/-- The two rows of the key. -/
def keysetup (k : Buffer) : Stack (UInt32x4N.Vec g × UInt32x4N.Vec g) := do
  let b0 ← k.sub 0 16
  let k0 ← UInt32x4N.load128Le b0
  let b1 ← k.sub 16 16
  let k1 ← UInt32x4N.load128Le b1
  return (k0, k1)

/-- A word of a nonce. -/
def nonceWord (n : Vector UInt32 3) (i : Fin 3) : UInt32 := n[i]

/-- The row of the counters and the nonce. -/
def ctrIvsetup (ctr : UInt32) (iv : Buffer) : Stack (UInt32x4N.Vec g) := do
  let n ← uint32sFromLeBytes iv 3
  let n0 := nonceWord n 0
  let n1 := nonceWord n 1
  let n2 := nonceWord n 2
  return UInt32x4N.load32x8 ctr n0 n1 n2 (ctr + 1) n0 n1 n2

/-- The four registers of a state. -/
def rows (v0 v1 v2 v3 : UInt32x4N.Vec g) : State g := #v[v0, v1, v2, v3]

/-- The initial state for a key, a nonce and a counter. -/
def stateSetup (k n : Buffer) (c : UInt32) : Stack (State g) := do
  let key ← keysetup k
  let ctr ← ctrIvsetup c n
  return rows constantSetup key.1 key.2 ctr

/-- Add one row to another, and rotate the exclusive or of the sum with a third. -/
def line (st : State g) (a b d : Fin 4) (s : UInt32) : State g :=
  let sa := row st a
  let sb := row st b
  let sd := row st d
  let sa := UInt32x4N.add sa sb
  let sd := UInt32x4N.rotateLeft (UInt32x4N.xor sd sa) s
  let st := setRow st a sa
  setRow st d sd

/-- Four lines, which work on all lanes at once. -/
def round (st : State g) : State g :=
  let st := line st 0 1 3 16
  let st := line st 2 3 1 12
  let st := line st 0 1 3 8
  line st 2 3 1 7

/-- A round on the columns. -/
def columnRound (st : State g) : State g := round st

/-- Turn the diagonals into columns. -/
def shuffleRows0123 (st : State g) : State g :=
  let r1 := row st 1
  let r2 := row st 2
  let r3 := row st 3
  let st := setRow st 1 (UInt32x4N.shuffleRight r1 1)
  let st := setRow st 2 (UInt32x4N.shuffleRight r2 2)
  setRow st 3 (UInt32x4N.shuffleRight r3 3)

/-- Turn the columns back into diagonals. -/
def shuffleRows0321 (st : State g) : State g :=
  let r1 := row st 1
  let r2 := row st 2
  let r3 := row st 3
  let st := setRow st 1 (UInt32x4N.shuffleRight r1 3)
  let st := setRow st 2 (UInt32x4N.shuffleRight r2 2)
  setRow st 3 (UInt32x4N.shuffleRight r3 1)

/-- A round on the diagonals. -/
def diagonalRound (st : State g) : State g :=
  let st := shuffleRows0123 st
  let st := round st
  shuffleRows0321 st

/-- Two rounds. -/
def doubleRound (st : State g) : State g :=
  let st := columnRound st
  diagonalRound st

/-- Two rounds on each of two states. -/
def doubleRound2 (st : State g × State g) : State g × State g := (doubleRound st.1, doubleRound st.2)

/-- Two rounds on each of three states. -/
def doubleRound3 (st : State g × State g × State g) : State g × State g × State g :=
  (doubleRound st.1, doubleRound st.2.1, doubleRound st.2.2)

/-- Twenty rounds. -/
def rounds (st : State g) : State g := doubleRound^[10] st

/-- Twenty rounds on each of two states. -/
def rounds2 (st : State g × State g) : State g × State g := doubleRound2^[10] st

/-- Twenty rounds on each of three states. -/
def rounds3 (st : State g × State g × State g) : State g × State g × State g := doubleRound3^[10] st

/-- Add the rows of a second state. -/
def sumStates (st' st : State g) : State g := Vector.zipWith UInt32x4N.add st' st

/-- The keystream rows of the counters in the state. -/
def chacha20Core (st : State g) : State g :=
  let k := st
  let k := rounds k
  sumStates k st

/-- The keystream rows of two successive states; the state is left at the second. -/
def chacha20Core2 (st : State g) : (State g × State g) × State g :=
  let k0 := st
  let k1 := st
  let k1 := stateIncr k1
  let k := rounds2 (k0, k1)
  let k0 := sumStates k.1 st
  let st := stateIncr st
  let k1 := sumStates k.2 st
  ((k0, k1), st)

/-- The keystream rows of three successive states; the state is left at the third. -/
def chacha20Core3 (st : State g) : (State g × State g × State g) × State g :=
  let k0 := st
  let k1 := st
  let k1 := stateIncr k1
  let k2 := k1
  let k2 := stateIncr k2
  let k := rounds3 (k0, k1, k2)
  let k0 := sumStates k.1 st
  let st := stateIncr st
  let k1 := sumStates k.2.1 st
  let st := stateIncr st
  let k2 := sumStates k.2.2 st
  ((k0, k1, k2), st)

/-- Write the keystream of the counters in the state. -/
def chacha20Block (streamBlock : Buffer) (st : State g) : Stack Unit := do
  let k := chacha20Core st
  stateToKeyBlock streamBlock k

/-- Encrypt a final part that is shorter than the blocks of a state, byte by byte. -/
def updateLast (output plain : Buffer) (len : Nat) (st : State g) : Stack Unit :=
  maskBundle (64 * g) (fun block => chacha20Block block st) output plain len

/-- Combine the blocks of a state with their keystream. -/
def xorBlock (output plain : Buffer) (st : State g) : Stack Unit := do
  let st := stateToKey st
  let b0 ← plain.sub 0 (16 * g)
  let p0 ← UInt32x4N.loadLe b0
  let b1 ← plain.sub (16 * g) (16 * g)
  let p1 ← UInt32x4N.loadLe b1
  let b2 ← plain.sub (16 * g * 2) (16 * g)
  let p2 ← UInt32x4N.loadLe b2
  let b3 ← plain.sub (16 * g * 3) (16 * g)
  let p3 ← UInt32x4N.loadLe b3
  let o0 := UInt32x4N.xor p0 (row st 0)
  let o1 := UInt32x4N.xor p1 (row st 1)
  let o2 := UInt32x4N.xor p2 (row st 2)
  let o3 := UInt32x4N.xor p3 (row st 3)
  storeRows output (16 * g) o0 o1 o2 o3

/-- Encrypt the blocks of one state. -/
def update (output plain : Buffer) (st : State g) : Stack (State g) := do
  let k := chacha20Core st
  xorBlock output plain k
  return stateIncr st

/-- Encrypt the blocks of two successive states. -/
def update2 (output plain : Buffer) (st : State g) : Stack (State g) := do
  let (k, st) := chacha20Core2 st
  xorBlock output plain k.1
  let o1 ← output.offset (64 * g)
  let p1 ← plain.offset (64 * g)
  xorBlock o1 p1 k.2
  return stateIncr st

/-- Encrypt the blocks of three successive states. -/
def update3 (output plain : Buffer) (st : State g) : Stack (State g) := do
  let (k, st) := chacha20Core3 st
  xorBlock output plain k.1
  let o1 ← output.offset (64 * g)
  let p1 ← plain.offset (64 * g)
  xorBlock o1 p1 k.2.1
  let o2 ← output.offset (128 * g)
  let p2 ← plain.offset (128 * g)
  xorBlock o2 p2 k.2.2
  return stateIncr st

/-- Encrypt the final part, when there is one. -/
def chacha20CounterMode' (output plain : Buffer) (len : Nat) (st : State g) : Stack Unit :=
  if len = 0 then return () else updateLast output plain len st

/-- Encrypt a message: the blocks of three, two or one state, and then the rest.
The counter `ctr` only bounds how far the lanes may count; the state holds the counters. -/
def chacha20CounterMode [NeZero g] (output plain : Buffer) (len : Nat) (st : State g) (ctr : UInt32) :
    Stack Unit :=
  let bs := 64 * g
  let bs2 := bs * 2
  let bs3 := bs * 3
  if len < bs then chacha20CounterMode' output plain len st
  else if len < bs2 then do
    let b ← plain.sub 0 bs
    let b' ← plain.offset bs
    let o ← output.sub 0 bs
    let o' ← output.offset bs
    let st ← update o b st
    chacha20CounterMode o' b' (len - bs) st (ctr + UInt32.ofNat g)
  else if len < bs3 then do
    let b ← plain.sub 0 bs2
    let b' ← plain.offset bs2
    let o ← output.sub 0 bs2
    let o' ← output.offset bs2
    let st ← update2 o b st
    chacha20CounterMode o' b' (len - bs2) st (ctr + UInt32.ofNat (2 * g))
  else do
    let b ← plain.sub 0 bs3
    let b' ← plain.offset bs3
    let o ← output.sub 0 bs3
    let o' ← output.offset bs3
    let st ← update3 o b st
    chacha20CounterMode o' b' (len - bs3) st (ctr + UInt32.ofNat (3 * g))
termination_by len
decreasing_by all_goals have := NeZero.pos g; omega

/-- Encrypt a message with the cipher on rows of `g` groups. -/
def chacha20 (g : Nat) [NeZero g] (output plain : Buffer) (len : UInt32) (k n : Buffer) (ctr : UInt32) :
    Stack Unit := do
  let st : State g ← stateSetup k n ctr
  chacha20CounterMode output plain len.toNat st ctr

/-! Each group of lanes is a state of four lanes. -/

/-- The lanes of one group. -/
def part (b : Fin g) (st : State g) : Chacha20Vec128.State := st.map fun v => UInt32x4N.group v b

section Part

variable (b : Fin g) (st : State g)

theorem part_row (i : Fin 4) :
    getElem (part b st) i (Spec.withinRow i) = UInt32x4N.group (row st i) b := by
  simp [part, row]

theorem part_setRow (i : Fin 4) (v : UInt32x4N.Vec g) :
    part b (setRow st i v) = (part b st).set i (UInt32x4N.group v b) (Spec.withinRow i) := by
  simp [part, setRow]

/-- A line works on each group by itself. -/
theorem part_line (a c d : Fin 4) (s : UInt32) :
    part b (line st a c d s) = Chacha20Vec128.line (part b st) a c d s := by
  simp only [line, Chacha20Vec128.line, part_setRow, part_row, UInt32x4N.group_add,
    UInt32x4N.group_rotateLeft, UInt32x4N.group_xor]

theorem part_round : part b (round st) = Chacha20Vec128.round (part b st) := by
  simp only [round, Chacha20Vec128.round, part_line]

theorem part_shuffleRows0123 : part b (shuffleRows0123 st) = Chacha20Vec128.shuffleRows0123 (part b st) := by
  simp only [shuffleRows0123, part_setRow, UInt32x4N.group_shuffleRight, ← part_row]
  rfl

theorem part_shuffleRows0321 : part b (shuffleRows0321 st) = Chacha20Vec128.shuffleRows0321 (part b st) := by
  simp only [shuffleRows0321, part_setRow, UInt32x4N.group_shuffleRight, ← part_row]
  rfl

theorem part_doubleRound : part b (doubleRound st) = Chacha20Vec128.doubleRound (part b st) := by
  simp only [doubleRound, columnRound, diagonalRound, part_shuffleRows0321, part_round, part_shuffleRows0123,
    Chacha20Vec128.doubleRound, Chacha20Vec128.columnRound, Chacha20Vec128.diagonalRound]

theorem part_rounds : part b (rounds st) = Chacha20Vec128.rounds (part b st) := by
  -- Taking a group commutes with each of the ten double rounds.
  have commutes : Function.Semiconj (part b) doubleRound Chacha20Vec128.doubleRound := part_doubleRound b
  exact commutes.iterate_right 10 st

theorem part_sumStates (st' : State g) :
    part b (sumStates st' st) = Chacha20Vec128.sumStates (part b st') (part b st) := by
  apply Vector.ext
  intro i inside
  simp [part, sumStates, Chacha20Vec128.sumStates]

theorem part_chacha20Core : part b (chacha20Core st) = Chacha20Vec128.chacha20Core (part b st) := by
  rw [chacha20Core, part_sumStates, part_rounds, Chacha20Vec128.chacha20Core]

end Part

/-- Two states at once are two runs of the core. -/
theorem chacha20Core2_eq (st : State g) :
    chacha20Core2 st = ((chacha20Core st, chacha20Core (stateIncr st)), stateIncr st) := rfl

/-- Three states at once are three runs of the core. -/
theorem chacha20Core3_eq (st : State g) :
    chacha20Core3 st =
      ((chacha20Core st, chacha20Core (stateIncr st), chacha20Core (stateIncr (stateIncr st))),
        stateIncr (stateIncr st)) := rfl

/-- The counters of one state of one block move by one. -/
theorem part_stateIncr_one (b : Fin 1) (st : State 1) :
    part b (stateIncr st) = Chacha20Vec128.stateIncr (part b st) := by
  have last : (part b st)[3] = UInt32x4N.group (row st 3) b := part_row b st 3
  rw [stateIncr, if_neg (by decide), part_setRow, UInt32x4N.group_add, ← last]
  simp [Chacha20Vec128.stateIncr, Impl.Vec.increment, UInt32x4N.oneLe, Impl.Vec.oneLe, Impl.Vec.load32x4]

/-- The counters of a state of two blocks move by two. -/
theorem part_stateIncr_two (b : Fin 2) (st : State 2) :
    part b (stateIncr st) = Chacha20Vec128.stateIncr (Chacha20Vec128.stateIncr (part b st)) := by
  have twice (x : Impl.Vec) : x.add (Impl.Vec.load32x4 2 0 0 0) = x.increment.increment := by
    apply Vector.ext
    intro j inside
    have two (y : UInt32) : y + 2 = y + 1 + 1 := by rw [UInt32.add_assoc]; rfl
    interval_cases j <;> simp [Impl.Vec.add, Impl.Vec.increment, Impl.Vec.oneLe, Impl.Vec.load32x4, two]
  have last : (part b st)[3] = UInt32x4N.group (row st 3) b := part_row b st 3
  rw [stateIncr, if_pos rfl, part_setRow, UInt32x4N.group_add, ← last, UInt32x4N.twoLe, UInt32x4N.group_load32x4,
    twice]
  simp [Chacha20Vec128.stateIncr]

/-! The groups of a state hold the successive counters from some counter on. -/

/-- The state that belongs to a key, a nonce and a counter: each group has a counter of its own. -/
def Keyed (k n : Bytes) (c : Nat) (st : State g) : Prop :=
  ∀ b : Fin g, Chacha20Vec128.Keyed k n (c + b.val) (part b st)

variable {h : Mem} {output plain kb nb : Buffer} {k n : Bytes} {c : Nat} {st : State g}

/-- Moving the counters leads past the blocks of the state. -/
theorem Keyed.incr (width : g = 1 ∨ g = 2) (keyed : Keyed k n c st) : Keyed k n (c + g) (stateIncr st) := by
  rcases width with rfl | rfl <;> intro b
  · rw [part_stateIncr_one, Nat.add_right_comm]
    exact (keyed b).incr
  · rw [part_stateIncr_two, Nat.add_right_comm]
    exact (keyed b).incr.incr

/-- The row of a group starts with the counter of its block. -/
theorem group_ctr (width : g = 1 ∨ g = 2) (ctr : UInt32) (n : Vector UInt32 3) (b : Fin g) :
    UInt32x4N.group (UInt32x4N.load32x8 ctr (nonceWord n 0) (nonceWord n 1) (nonceWord n 2) (ctr + 1)
      (nonceWord n 0) (nonceWord n 1) (nonceWord n 2)) b = #v[ctr + UInt32.ofNat b.val] ++ n := by
  have chosen (x : UInt32) : Impl.Vec.load32x4 x (nonceWord n 0) (nonceWord n 1) (nonceWord n 2) = #v[x] ++ n := by
    apply Vector.ext
    intro j inside
    show _ = (#v[x] ++ n : Vector UInt32 (1 + 3))[j]
    rw [Vector.getElem_append]
    interval_cases j <;> simp [Impl.Vec.load32x4, nonceWord]
  simp only [UInt32x4N.group, UInt32x4N.load32x8, Fin.getElem_fin, Vector.getElem_ofFn, chosen]
  -- The second group, where there is one, has the next counter.
  rcases width with rfl | rfl <;> fin_cases b <;> simp

/-- The rows set up hold the specification's states of successive counters. -/
theorem stateSetup_run (width : g = 1 ∨ g = 2) (ctr : UInt32) (live : h.Live kb) (live' : h.Live nb)
    (size : kb.length = 32) (size' : nb.length = 12) :
    ∃ st : State g, Keyed (h.read kb) (h.read nb) ctr.toNat st ∧ stateSetup kb nb ctr h = some (st, h) := by
  have key := Mem.read_length live
  have nonce := Mem.read_length live'
  have loaded : keysetup kb h =
      some ((Vector.replicate g (Spec.uint32sFromLe 4 (((h.read kb).drop 0).take 16)),
        Vector.replicate g (Spec.uint32sFromLe 4 (((h.read kb).drop 16).take 16))), h) := by
    rw [keysetup, Stack.bind_run (Buffer.sub_run _ (by omega)),
      Stack.bind_run (UInt32x4N.load128Le_run live (by omega)), Stack.bind_run (Buffer.sub_run _ (by omega)),
      Stack.bind_run (UInt32x4N.load128Le_run live (by omega)), Stack.pure_run]
  have loaded' : ctrIvsetup (g := g) ctr nb h = some (UInt32x4N.load32x8 ctr
      (nonceWord (Spec.uint32sFromLe 3 (h.read nb)) 0) (nonceWord (Spec.uint32sFromLe 3 (h.read nb)) 1)
      (nonceWord (Spec.uint32sFromLe 3 (h.read nb)) 2) (ctr + 1)
      (nonceWord (Spec.uint32sFromLe 3 (h.read nb)) 0) (nonceWord (Spec.uint32sFromLe 3 (h.read nb)) 1)
      (nonceWord (Spec.uint32sFromLe 3 (h.read nb)) 2), h) := by
    rw [ctrIvsetup, Stack.bind_run (uint32sFromLeBytes_run live' (by omega)),
      List.take_of_length_le (by omega), Stack.pure_run]
  rw [stateSetup, Stack.bind_run loaded, Stack.bind_run loaded', Stack.pure_run]
  refine ⟨_, ?_, rfl⟩
  intro b
  -- Only the last row differs between the groups.
  have counter : Spec.Chacha20.setup (h.read kb) (h.read nb) (ctr + UInt32.ofNat b.val).toNat =
      Spec.Chacha20.setup (h.read kb) (h.read nb) (ctr.toNat + b.val) := by
    simp only [Spec.Chacha20.setup, UInt32.ofNat_toNat, UInt32.ofNat_add]
  rw [Chacha20Vec128.Keyed, ← counter, ← Chacha20Vec128.words_setup _ _ (by rw [key, size]),
    ← group_ctr width]
  simp [part, rows, UInt32x4N.group, constantSetup, Chacha20Vec128.constantSetup, UInt32x4N.load32x4]

/-- The bytes of the rows of a state. -/
def keyBytes (k : State g) : Bytes :=
  UInt32x4N.bytes (row k 0) ++
    (UInt32x4N.bytes (row k 1) ++ (UInt32x4N.bytes (row k 2) ++ UInt32x4N.bytes (row k 3)))

@[simp] theorem keyBytes_length (k : State g) : (keyBytes k).length = 64 * g := by
  simp only [keyBytes, List.length_append, UInt32x4N.bytes_length]
  omega

/-- The bytes of a block are those of its rows. -/
theorem part_bytes (k : State g) (b : Fin g) :
    Spec.uint32sToLe 16 (Chacha20Vec128.words (part b k)) =
      Spec.uint32sToLe 4 (UInt32x4N.group (row k 0) b) ++ (Spec.uint32sToLe 4 (UInt32x4N.group (row k 1) b) ++
        (Spec.uint32sToLe 4 (UInt32x4N.group (row k 2) b) ++ Spec.uint32sToLe 4 (UInt32x4N.group (row k 3) b))) := by
  rw [Chacha20Vec128.words_bytes, ← part_row, ← part_row, ← part_row, ← part_row]
  rfl

/-- The rows of one block are in place. -/
theorem stateToKey_one (k : State 1) :
    keyBytes (stateToKey k) = Spec.uint32sToLe 16 (Chacha20Vec128.words (part 0 k)) := by
  rw [part_bytes]
  simp [keyBytes, stateToKey, UInt32x4N.bytes_one]

/-- The rows of two blocks are paired up, those of the first block first. -/
theorem stateToKey_two (k : State 2) :
    keyBytes (stateToKey k) = Spec.uint32sToLe 16 (Chacha20Vec128.words (part 0 k)) ++
      Spec.uint32sToLe 16 (Chacha20Vec128.words (part 1 k)) := by
  rw [part_bytes, part_bytes]
  simp [keyBytes, stateToKey, row, setRow, UInt32x4N.bytes_choose_first, UInt32x4N.bytes_choose_second]

/-- The rows of the blocks, put next to each other, are the keystream of the counters. -/
theorem Keyed.bytes (width : g = 1 ∨ g = 2) (keyed : Keyed k n c st) :
    keyBytes (stateToKey (chacha20Core st)) =
      (List.range g).flatMap fun i => Spec.Chacha20.chacha20Block k n (c + i) := by
  have block (b : Fin g) : Spec.uint32sToLe 16 (Chacha20Vec128.words (part b (chacha20Core st))) =
      Spec.Chacha20.chacha20Block k n (c + b.val) := by
    rw [part_chacha20Core]
    exact (keyed b).block
  rcases width with rfl | rfl
  · rw [stateToKey_one, block]
    simp
  · rw [stateToKey_two, block, block]
    simp [List.range_succ]

/-- Four registers are stored one after another. -/
theorem storeRows_run (room : Nat) (k : State g) (live : h.Live output) (fits : 64 * g ≤ output.length)
    (within : room ≤ 16 * g) :
    storeRows output room (row k 0) (row k 1) (row k 2) (row k 3) h =
      some ((), h.write output (keyBytes k)) := by
  have first := UInt32x4N.storeLe_run 0 (16 * g) (row k 0) live (by omega)
  rw [Mem.write_slice_zero] at first
  rw [storeRows, Stack.bind_run (Buffer.sub_run _ (by omega)), Stack.bind_run first,
    Stack.bind_run (Buffer.sub_run _ (by omega)),
    Stack.bind_run (UInt32x4N.storeLe_next room (row k 1) live (by simp) (by omega)),
    Stack.bind_run (Buffer.sub_run _ (by omega)),
    Stack.bind_run (UInt32x4N.storeLe_next room (row k 2) live (by simp; omega) (by omega)),
    Stack.bind_run (Buffer.sub_run _ (by omega)),
    UInt32x4N.storeLe_next room (row k 3) live (by simp; omega) (by omega), keyBytes, List.append_assoc,
    List.append_assoc]

/-- A message as long as four registers meets their bytes part by part. -/
theorem xor_keyBytes (message : Bytes) (k : State g) (size : message.length = 64 * g) :
    Keystream.xor message (keyBytes k) =
      Keystream.xor ((message.drop 0).take (16 * g)) (UInt32x4N.bytes (row k 0)) ++
        (Keystream.xor ((message.drop (16 * g)).take (16 * g)) (UInt32x4N.bytes (row k 1)) ++
          (Keystream.xor ((message.drop (16 * g * 2)).take (16 * g)) (UInt32x4N.bytes (row k 2)) ++
            Keystream.xor ((message.drop (16 * g * 3)).take (16 * g)) (UInt32x4N.bytes (row k 3)))) := by
  have last : (message.drop (16 * g * 3)).take (16 * g) = message.drop (16 * g * 3) :=
    List.take_of_length_le (by rw [List.length_drop]; omega)
  rw [last, keyBytes, xor_append, xor_append, xor_append]
  simp only [UInt32x4N.bytes_length, List.drop_drop, List.drop_zero]
  rw [show 16 * g + 16 * g = 16 * g * 2 by omega, show 16 * g * 2 + 16 * g = 16 * g * 3 by omega]

/-- The blocks of a state are combined with its bytes. -/
theorem xorBlock_run (st : State g) (live : h.Live output) (live' : h.Live plain)
    (fits : 64 * g ≤ output.length) (fits' : 64 * g ≤ plain.length) :
    xorBlock output plain st h =
      some ((), h.write output (Keystream.xor ((h.read plain).take (64 * g)) (keyBytes (stateToKey st)))) := by
  have size := Mem.read_length live'
  obtain ⟨p0, load0, bytes0⟩ := UInt32x4N.loadLe_run g 0 live' (by omega)
  obtain ⟨p1, load1, bytes1⟩ := UInt32x4N.loadLe_run g (16 * g) live' (by omega)
  obtain ⟨p2, load2, bytes2⟩ := UInt32x4N.loadLe_run g (16 * g * 2) live' (by omega)
  obtain ⟨p3, load3, bytes3⟩ := UInt32x4N.loadLe_run g (16 * g * 3) live' (by omega)
  -- The registers of the result are the combined ones.
  have stored := storeRows_run (16 * g)
    (rows (UInt32x4N.xor p0 (row (stateToKey st) 0)) (UInt32x4N.xor p1 (row (stateToKey st) 1))
      (UInt32x4N.xor p2 (row (stateToKey st) 2)) (UInt32x4N.xor p3 (row (stateToKey st) 3))) live fits le_rfl
  have combined : keyBytes (rows (UInt32x4N.xor p0 (row (stateToKey st) 0)) (UInt32x4N.xor p1 (row (stateToKey st) 1))
      (UInt32x4N.xor p2 (row (stateToKey st) 2)) (UInt32x4N.xor p3 (row (stateToKey st) 3))) =
      Keystream.xor ((h.read plain).take (64 * g)) (keyBytes (stateToKey st)) := by
    have part (start : Nat) (within : start + 16 * g ≤ 64 * g) :
        (((h.read plain).take (64 * g)).drop start).take (16 * g) = ((h.read plain).drop start).take (16 * g) := by
      rw [List.drop_take, List.take_take, Nat.min_eq_left (by omega)]
    rw [xor_keyBytes _ _ (by rw [List.length_take]; omega), part _ (by omega), part _ (by omega),
      part _ (by omega), part _ (by omega), ← Mem.read_slice _ _ (by omega), ← Mem.read_slice _ _ (by omega),
      ← Mem.read_slice _ _ (by omega), ← Mem.read_slice _ _ (by omega), ← bytes0, ← bytes1, ← bytes2, ← bytes3, ← UInt32x4N.bytes_xor,
      ← UInt32x4N.bytes_xor, ← UInt32x4N.bytes_xor, ← UInt32x4N.bytes_xor]
    rfl
  rw [combined] at stored
  rw [xorBlock, Stack.bind_run (Buffer.sub_run _ (by omega)), Stack.bind_run load0,
    Stack.bind_run (Buffer.sub_run _ (by omega)), Stack.bind_run load1,
    Stack.bind_run (Buffer.sub_run _ (by omega)), Stack.bind_run load2,
    Stack.bind_run (Buffer.sub_run _ (by omega)), Stack.bind_run load3]
  exact stored

/-- The blocks of a state are encrypted with the keystream from its counter on. -/
theorem xorBlock_keyed (width : g = 1 ∨ g = 2) (keyed : Keyed k n c st) (live : h.Live output)
    (live' : h.Live plain) (fits : 64 * g ≤ output.length) (fits' : 64 * g ≤ plain.length) :
    xorBlock output plain (chacha20Core st) h =
      some ((), streamed h (keystream (Spec.Chacha20.chacha20Block k n) 64 c) output plain (64 * g)) := by
  rw [xorBlock_run _ live live' fits fits', keyed.bytes width,
    xor_blocks (by decide) g (fun i _ => Spec.Chacha20.chacha20Block_length k n _)
      (by rw [List.length_take]; omega), streamed]

/-- From the bytes of `m` blocks on, the blocks of a state are encrypted with the keystream that follows. -/
theorem xorBlock_rest (m : Nat) (width : g = 1 ∨ g = 2) (keyed : Keyed k n (c + m) st)
    (views : SameOrDisjoint output plain) (live : h.Live output) (live' : h.Live plain)
    (fits : 64 * m + 64 * g ≤ output.length) (fits' : 64 * m + 64 * g ≤ plain.length) :
    xorBlock (output.slice (64 * m) (output.length - 64 * m)) (plain.slice (64 * m) (plain.length - 64 * m))
        (chacha20Core st) (streamed h (keystream (Spec.Chacha20.chacha20Block k n) 64 c) output plain (64 * m)) =
      some ((), streamed h (keystream (Spec.Chacha20.chacha20Block k n) 64 c) output plain (64 * (m + g))) := by
  have ran := xorBlock_keyed (h := streamed h (keystream (Spec.Chacha20.chacha20Block k n) 64 c) output plain (64 * m))
    width keyed (streamed_live _ _ _ (live.slice (i := 64 * m) (n := output.length - 64 * m) (by omega)) live (by omega))
    (streamed_live _ _ _ (live'.slice (i := 64 * m) (n := plain.length - 64 * m) (by omega)) live (by omega))
    (by rw [Buffer.slice_length]; omega) (by rw [Buffer.slice_length]; omega)
  rw [ran, streamed_blocks _ 64 c m (by decide) views live live' (by omega) (by omega) (by omega) (by omega), Nat.mul_add]

/-- The blocks of one state are encrypted, and the counters move past them. -/
theorem update_run (width : g = 1 ∨ g = 2) (keyed : Keyed k n c st) (live : h.Live output)
    (live' : h.Live plain) (fits : 64 * g ≤ output.length) (fits' : 64 * g ≤ plain.length) :
    ∃ st', Keyed k n (c + g) st' ∧ update output plain st h =
      some (st', streamed h (keystream (Spec.Chacha20.chacha20Block k n) 64 c) output plain (64 * g)) := by
  refine ⟨stateIncr st, keyed.incr width, ?_⟩
  rw [update, Stack.bind_run (xorBlock_keyed width keyed live live' fits fits'), Stack.pure_run]

/-- The blocks of two states are encrypted, and the counters move past them. -/
theorem update2_run (width : g = 1 ∨ g = 2) (keyed : Keyed k n c st) (views : SameOrDisjoint output plain)
    (live : h.Live output) (live' : h.Live plain)
    (fits : 64 * (2 * g) ≤ output.length) (fits' : 64 * (2 * g) ≤ plain.length) :
    ∃ st', Keyed k n (c + 2 * g) st' ∧ update2 output plain st h =
      some (st', streamed h (keystream (Spec.Chacha20.chacha20Block k n) 64 c) output plain (64 * (2 * g))) := by
  have next : Keyed k n (c + g) (stateIncr st) := keyed.incr width
  have last := next.incr width
  have first := xorBlock_keyed width keyed live live' (by omega) (by omega)
  have second := xorBlock_rest g width next views live live' (by omega) (by omega)
  rw [show c + g + g = c + 2 * g by omega] at last
  refine ⟨stateIncr (stateIncr st), last, ?_⟩
  -- The second state's blocks lie behind those of the first.
  rw [update2, chacha20Core2_eq]
  simp only []
  rw [Stack.bind_run first, Stack.bind_run (Buffer.offset_run _ (by omega)),
    Stack.bind_run (Buffer.offset_run _ (by omega)), Stack.bind_run second, Stack.pure_run,
    show g + g = 2 * g by omega]

/-- The blocks of three states are encrypted, and the counters move past them. -/
theorem update3_run (width : g = 1 ∨ g = 2) (keyed : Keyed k n c st) (views : SameOrDisjoint output plain)
    (live : h.Live output) (live' : h.Live plain)
    (fits : 64 * (3 * g) ≤ output.length) (fits' : 64 * (3 * g) ≤ plain.length) :
    ∃ st', Keyed k n (c + 3 * g) st' ∧ update3 output plain st h =
      some (st', streamed h (keystream (Spec.Chacha20.chacha20Block k n) 64 c) output plain (64 * (3 * g))) := by
  have next1 : Keyed k n (c + g) (stateIncr st) := keyed.incr width
  have next2 := next1.incr width
  rw [show c + g + g = c + 2 * g by omega] at next2
  have last := next2.incr width
  rw [show c + 2 * g + g = c + 3 * g by omega] at last
  have first := xorBlock_keyed width keyed live live' (by omega) (by omega)
  have second := xorBlock_rest g width next1 views live live' (by omega) (by omega)
  have third := xorBlock_rest (2 * g) width next2 views live live' (by omega) (by omega)
  refine ⟨stateIncr (stateIncr (stateIncr st)), last, ?_⟩
  rw [update3, chacha20Core3_eq, show 128 * g = 64 * (2 * g) by omega]
  simp only []
  rw [Stack.bind_run first, Stack.bind_run (Buffer.offset_run _ (by omega)),
    Stack.bind_run (Buffer.offset_run _ (by omega)), Stack.bind_run second,
    Stack.bind_run (Buffer.offset_run _ (by omega)), Stack.bind_run (Buffer.offset_run _ (by omega)),
    show g + g = 2 * g by omega, Stack.bind_run third, Stack.pure_run, show 2 * g + g = 3 * g by omega]

/-- A final part is encrypted with the start of the keystream from the counter on. -/
theorem counterMode'_run [NeZero g] {len : Nat} (width : g = 1 ∨ g = 2) (keyed : Keyed k n c st)
    (views : SameOrDisjoint output plain) (live : h.Live output) (live' : h.Live plain)
    (short : len ≤ 64 * g) (size : output.length = len) (size' : plain.length = len) :
    chacha20CounterMode' output plain len st h =
      some ((), streamed h (keystream (Spec.Chacha20.chacha20Block k n) 64 c) output plain len) := by
  have positive := NeZero.pos g
  have bytes := Mem.read_length live'
  unfold chacha20CounterMode'
  split
  · next none => rw [Stack.pure_run, none, streamed_zero live]
  · -- The keystream of all blocks is written to a buffer of its own first.
    have filled : chacha20Block (h.fresh (64 * g)) st (h.alloc (64 * g)) =
        some ((), Mem.write (h.alloc (64 * g)) (h.fresh (64 * g)) (keyBytes (stateToKey (chacha20Core st)))) :=
      storeRows_run 16 _ (Mem.fresh_live h (64 * g)) le_rfl (by omega)
    rw [updateLast, maskBundle_run views live live' (keyBytes_length _) short size size' filled, keyed.bytes width,
      xor_blocks (by decide) g (fun i _ => Spec.Chacha20.chacha20Block_length k n _) (by omega), streamed,
      List.take_of_length_le (by omega)]

/-- A message is encrypted with the keystream of the counters from that of the state on. -/
theorem chacha20CounterMode_run [NeZero g] {len : Nat} (width : g = 1 ∨ g = 2) (ctr : UInt32)
    (keyed : Keyed k n c st) (views : SameOrDisjoint output plain) (live : h.Live output) (live' : h.Live plain)
    (size : output.length = len) (size' : plain.length = len) :
    chacha20CounterMode output plain len st ctr h =
      some ((), streamed h (keystream (Spec.Chacha20.chacha20Block k n) 64 c) output plain len) := by
  have positive := NeZero.pos g
  -- Induction on the length: after the blocks of one, two or three states the rest is shorter.
  induction len using Nat.strong_induction_on generalizing output plain h st c ctr with
  | _ len ih =>
    have rest (m : Nat) (ctr : UInt32) {st' : State g} (positive : 0 < m) (whole : 64 * m ≤ len)
        (keyed' : Keyed k n (c + m) st') :
        chacha20CounterMode (output.slice (64 * m) (output.length - 64 * m))
            (plain.slice (64 * m) (plain.length - 64 * m)) (len - 64 * m) st' ctr
            (streamed h (keystream (Spec.Chacha20.chacha20Block k n) 64 c) output plain (64 * m)) =
          some ((), streamed h (keystream (Spec.Chacha20.chacha20Block k n) 64 c) output plain len) := by
      have done := @streamed_blocks h output plain (len - 64 * m) (Spec.Chacha20.chacha20Block k n) 64 c m
        (by decide) views live live' (len - 64 * m) (len - 64 * m) le_rfl le_rfl (by omega) (by omega)
      rw [Nat.add_sub_cancel' whole] at done
      rw [size, size', ← done]
      exact ih (len - 64 * m) (by omega) ctr keyed'
        (views.slice (i := 64 * m) (n := len - 64 * m) (by omega) (by omega))
        (streamed_live _ _ _ (live.slice (by omega)) live (by omega))
        (streamed_live _ _ _ (live'.slice (by omega)) live (by omega)) rfl rfl
    rw [chacha20CounterMode]
    split_ifs with short one two
    · exact counterMode'_run width keyed views live live' short.le size size'
    · obtain ⟨st', keyed', ran⟩ := update_run width keyed (live.slice (i := 0) (n := 64 * g) (by omega))
        (live'.slice (i := 0) (n := 64 * g) (by omega)) le_rfl le_rfl
      rw [streamed_slice le_rfl (by omega)] at ran
      rw [Stack.bind_run (Buffer.sub_run _ (by omega)), Stack.bind_run (Buffer.offset_run _ (by omega)),
        Stack.bind_run (Buffer.sub_run _ (by omega)), Stack.bind_run (Buffer.offset_run _ (by omega)),
        Stack.bind_run ran]
      exact rest g _ positive (by omega) keyed'
    · obtain ⟨st', keyed', ran⟩ := update2_run width keyed
        (views.slice (i := 0) (n := 64 * (2 * g)) (by omega) (by omega))
        (live.slice (i := 0) (n := 64 * (2 * g)) (by omega))
        (live'.slice (i := 0) (n := 64 * (2 * g)) (by omega)) le_rfl le_rfl
      rw [streamed_slice le_rfl (by omega)] at ran
      rw [show 64 * g * 2 = 64 * (2 * g) by omega, Stack.bind_run (Buffer.sub_run _ (by omega)),
        Stack.bind_run (Buffer.offset_run _ (by omega)), Stack.bind_run (Buffer.sub_run _ (by omega)),
        Stack.bind_run (Buffer.offset_run _ (by omega)), Stack.bind_run ran]
      exact rest (2 * g) _ (by omega) (by omega) keyed'
    · obtain ⟨st', keyed', ran⟩ := update3_run width keyed
        (views.slice (i := 0) (n := 64 * (3 * g)) (by omega) (by omega))
        (live.slice (i := 0) (n := 64 * (3 * g)) (by omega))
        (live'.slice (i := 0) (n := 64 * (3 * g)) (by omega)) le_rfl le_rfl
      rw [streamed_slice le_rfl (by omega)] at ran
      rw [show 64 * g * 3 = 64 * (3 * g) by omega, Stack.bind_run (Buffer.sub_run _ (by omega)),
        Stack.bind_run (Buffer.offset_run _ (by omega)), Stack.bind_run (Buffer.sub_run _ (by omega)),
        Stack.bind_run (Buffer.offset_run _ (by omega)), Stack.bind_run ran]
      exact rest (3 * g) _ (by omega) (by omega) keyed'

/-- The message is combined with the specification's keystream. -/
theorem chacha20_run [NeZero g] {len ctr : UInt32} (width : g = 1 ∨ g = 2) (views : SameOrDisjoint output plain)
    (live : h.Live output) (live' : h.Live plain) (liveKey : h.Live kb) (liveNonce : h.Live nb)
    (size : kb.length = 32) (size' : nb.length = 12)
    (fits : output.length = len.toNat) (fits' : plain.length = len.toNat) :
    chacha20 g output plain len kb nb ctr h = some ((), h.write output
      (Spec.Chacha20.chacha20EncryptBytes (h.read kb) (h.read nb) ctr.toNat (h.read plain))) := by
  obtain ⟨st, keyed, ran⟩ := stateSetup_run (g := g) width ctr liveKey liveNonce size size'
  rw [chacha20, Stack.bind_run ran, chacha20CounterMode_run width ctr keyed views live live' fits fits', streamed,
    List.take_of_length_le (by rw [Mem.read_length live', fits']), Spec.Chacha20.chacha20EncryptBytes_keystream]

end HaclStar.Impl.Chacha20Vec
