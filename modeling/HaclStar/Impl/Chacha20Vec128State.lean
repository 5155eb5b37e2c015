import HaclStar.Impl.StreamCipher
import HaclStar.Spec.Chacha20

/-! The vectorised ChaCha20 state: four rows of four lanes, and its rounds. -/

namespace HaclStar.Impl

open Endianness Keystream Memory Words

/-- A register of four 32-bit lanes. -/
abbrev Vec := Vector UInt32 4

namespace Vec

/-- The lanes moved `r` positions to the right, cyclically. -/
def shuffleRight (s0 : Vec) (r : Nat) : Vec := Vector.ofFn fun i => s0[(i.val + r) % 4]

/-- Rotate each lane. -/
def rotateLeft (s0 : Vec) (r : UInt32) : Vec := s0.map fun x => Spec.rotateLeft x r

/-- Add lane by lane. -/
def add (s0 s0' : Vec) : Vec := Vector.zipWith (· + ·) s0 s0'

/-- Exclusive or lane by lane. -/
def xor (s0 s0' : Vec) : Vec := Vector.zipWith (· ^^^ ·) s0 s0'

/-- The register of four words. -/
def load32x4 (x0 x1 x2 x3 : UInt32) : Vec := #v[x0, x1, x2, x3]

/-- The register that is one in its first lane. -/
def oneLe : Vec := #v[1, 0, 0, 0]

/-- Add one to the first lane. -/
def increment (s0 : Vec) : Vec := s0.add oneLe

/-- Load a register from sixteen bytes. -/
def loadLe (b : Buffer) : Stack Vec := uint32sFromLeBytes b 4

/-- Store a register to sixteen bytes. -/
def storeLe (b : Buffer) (r : Vec) : Stack Unit := uint32sToLeBytes b r

end Vec

namespace Chacha20Vec128

/-- The four rows of a cipher state. -/
abbrev State := Vector Vec 4

/-- Add one to the counter, the first lane of the last row. -/
def stateIncr (k : State) : State := k.set 3 k[3].increment

/-- The row of constants. -/
def constantSetup : Vec := Vec.load32x4 0x61707865 0x3320646e 0x79622d32 0x6b206574

/-- The two rows of the key. -/
def keysetup (k : Buffer) : Stack (Vec × Vec) := do
  let b0 ← k.sub 0 16
  let k0 ← Vec.loadLe b0
  let b1 ← k.sub 16 16
  let k1 ← Vec.loadLe b1
  return (k0, k1)

/-- The row of the counter and the nonce. -/
def ctrIvsetup (ctr : UInt32) (iv : Buffer) : Stack Vec := do
  let n ← uint32sFromLeBytes iv 3
  return Vector.singleton ctr ++ n

/-- The initial state for a key, a nonce and a counter. -/
def stateSetup (k n : Buffer) (c : UInt32) : Stack State := do
  let key ← keysetup k
  let ctr ← ctrIvsetup c n
  return #v[constantSetup, key.1, key.2, ctr]

/-- Add one row to another, and rotate the exclusive or of the sum with a third. -/
def line (st : State) (a b d : Fin 4) (s : UInt32) : State :=
  let sa := st[a]
  let sb := st[b]
  let sd := st[d]
  let sa := sa.add sb
  let sd := (sd.xor sa).rotateLeft s
  let st := st.set a sa
  st.set d sd

/-- Four lines, which work on the four lanes at once. -/
def round (st : State) : State :=
  let st := line st 0 1 3 16
  let st := line st 2 3 1 12
  let st := line st 0 1 3 8
  line st 2 3 1 7

/-- A round on the columns. -/
def columnRound (st : State) : State := round st

/-- Turn the diagonals into columns. -/
def shuffleRows0123 (st : State) : State :=
  let r1 := st[1]
  let r2 := st[2]
  let r3 := st[3]
  let st := st.set 1 (r1.shuffleRight 1)
  let st := st.set 2 (r2.shuffleRight 2)
  st.set 3 (r3.shuffleRight 3)

/-- Turn the columns back into diagonals. -/
def shuffleRows0321 (st : State) : State :=
  let r1 := st[1]
  let r2 := st[2]
  let r3 := st[3]
  let st := st.set 1 (r1.shuffleRight 3)
  let st := st.set 2 (r2.shuffleRight 2)
  st.set 3 (r3.shuffleRight 1)

/-- A round on the diagonals. -/
def diagonalRound (st : State) : State := shuffleRows0321 (round (shuffleRows0123 st))

/-- Two rounds. -/
def doubleRound (st : State) : State := diagonalRound (columnRound st)

/-- Two rounds on each of three states. -/
def doubleRound3 (st : State × State × State) : State × State × State :=
  (doubleRound st.1, doubleRound st.2.1, doubleRound st.2.2)

/-- Twenty rounds. -/
def rounds (st : State) : State := doubleRound^[10] st

/-- Twenty rounds on each of three states. -/
def rounds3 (st : State × State × State) : State × State × State := doubleRound3^[10] st

/-- Add the rows of a second state. -/
def sumStates (st' st : State) : State := Vector.zipWith Vec.add st' st

/-- The keystream rows of the counter in the state. -/
def chacha20Core (st : State) : State :=
  let k := st
  let k := rounds k
  sumStates k st

/-- Copies of the state with the next three counters. -/
def chacha20Incr3 (st : State) : State × State × State :=
  let k0 := st
  let k1 := stateIncr st
  let k2 := stateIncr k1
  (k0, k1, k2)

/-- Add the initial states of three successive counters; the state keeps the last of them. -/
def chacha20Sum3 (k : State × State × State) (st : State) : (State × State × State) × State :=
  let k0 := sumStates k.1 st
  let st := stateIncr st
  let k1 := sumStates k.2.1 st
  let st := stateIncr st
  let k2 := sumStates k.2.2 st
  ((k0, k1, k2), st)

/-- The keystream rows of three successive counters. -/
def chacha20Core3 (st : State) : (State × State × State) × State :=
  chacha20Sum3 (rounds3 (chacha20Incr3 st)) st

/-! One lane of the rows is one column of the word state. -/

/-- Four words that a quarter round works on. -/
structure Quad where
  a : UInt32
  b : UInt32
  c : UInt32
  d : UInt32

/-- The quarter round on four words. -/
def Quad.quarterRound (q : Quad) : Quad :=
  let a := q.a + q.b
  let d := Spec.rotateLeft (q.d ^^^ a) 16
  let c := q.c + d
  let b := Spec.rotateLeft (q.b ^^^ c) 12
  let a := a + b
  let d := Spec.rotateLeft (d ^^^ a) 8
  let c := c + d
  let b := Spec.rotateLeft (b ^^^ c) 7
  ⟨a, b, c, d⟩

/-- The rows written one after another, as the word state. -/
def words (st : State) : Spec.Chacha20.State := st[0] ++ (st[1] ++ (st[2] ++ st[3]))

/-- Word `i` is lane `i % 4` of row `i / 4`. -/
theorem words_get (st : State) (i : Nat) (inside : i < 16) : (words st)[i] = st[i / 4][i % 4] := by
  -- Each position lies in one of the four rows.
  show (st[0] ++ (st[1] ++ (st[2] ++ st[3])))[i] = _
  rw [Vector.getElem_append]
  split
  · simp only [show i / 4 = 0 by omega, show i % 4 = i by omega]
  rw [Vector.getElem_append]
  split
  · simp only [show i / 4 = 1 by omega, show i % 4 = i - 4 by omega]
  rw [Vector.getElem_append]
  split
  · simp only [show i / 4 = 2 by omega, show i % 4 = i - 4 - 4 by omega]
  · simp only [show i / 4 = 3 by omega, show i % 4 = i - 4 - 4 - 4 by omega]

/-- A lane of the four rows. -/
def lane (st : State) (j : Fin 4) : Quad := ⟨st[0][j], st[1][j], st[2][j], st[3][j]⟩

/-- A column of the word state. -/
def column (m : Spec.Chacha20.State) (j : Fin 4) : Quad :=
  ⟨m[j.val], m[4 + j.val], m[8 + j.val], m[12 + j.val]⟩

/-- A diagonal of the word state. -/
def diagonal (m : Spec.Chacha20.State) (j : Fin 4) : Quad :=
  ⟨m[j.val], m[4 + (j.val + 1) % 4], m[8 + (j.val + 2) % 4], m[12 + (j.val + 3) % 4]⟩

/-- States with the same columns are equal. -/
theorem ext_column {m m' : Spec.Chacha20.State} (same : ∀ j, column m j = column m' j) : m = m' := by
  apply Vector.ext
  intro i inside
  -- Word `i` is in column `i % 4`.
  have entries := same ⟨i % 4, by omega⟩
  simp only [column, Quad.mk.injEq] at entries
  obtain ⟨first, second, third, fourth⟩ := entries
  interval_cases i <;> first | exact first | exact second | exact third | exact fourth

/-- States with the same diagonals are equal. -/
theorem ext_diagonal {m m' : Spec.Chacha20.State} (same : ∀ j, diagonal m j = diagonal m' j) :
    m = m' := by
  apply ext_column
  intro j
  -- Each entry of a column lies on a diagonal of its own.
  have entry (k : Fin 4) := same k
  simp only [diagonal, Quad.mk.injEq] at entry
  obtain ⟨first, -, -, -⟩ := entry j
  obtain ⟨-, second, -, -⟩ := entry (j + 3)
  obtain ⟨-, -, third, -⟩ := entry (j + 2)
  obtain ⟨-, -, -, fourth⟩ := entry (j + 1)
  simp only [column, Quad.mk.injEq]
  fin_cases j <;> exact ⟨first, second, third, fourth⟩

/-- A line changes two words. -/
theorem line_get (a b d : Fin 16) (s : UInt32) (m : Spec.Chacha20.State) (apart : a ≠ d)
    (i : Fin 16) :
    getElem (Spec.Chacha20.line a b d s m) i (Spec.within i) =
      if i = d then
        Spec.rotateLeft (getElem m d (Spec.within d) ^^^
          (getElem m a (Spec.within a) + getElem m b (Spec.within b))) s
      else if i = a then getElem m a (Spec.within a) + getElem m b (Spec.within b) else getElem m i (Spec.within i) := by
  have apart' : (a : Nat) ≠ d := by omega
  simp only [Spec.Chacha20.line, Fin.getElem_fin, Vector.getElem_set, Fin.ext_iff]
  grind

/-- A quarter round changes the four words it is given. -/
theorem quarterRound_get (a b c d : Fin 16) (m : Spec.Chacha20.State)
    (apart : a ≠ b ∧ a ≠ c ∧ a ≠ d ∧ b ≠ c ∧ b ≠ d ∧ c ≠ d) (i : Fin 16) :
    getElem (Spec.Chacha20.quarterRound a b c d m) i (Spec.within i) =
      let q := (Quad.mk (getElem m a (Spec.within a)) (getElem m b (Spec.within b))
        (getElem m c (Spec.within c)) (getElem m d (Spec.within d))).quarterRound
      if i = a then q.a
      else if i = b then q.b
      else if i = c then q.c
      else if i = d then q.d
      else getElem m i (Spec.within i) := by
  obtain ⟨ab, ac, ad, bc, bd, cd⟩ := apart
  simp only [Spec.Chacha20.quarterRound, line_get _ _ _ _ _ ad, line_get _ _ _ _ _ bc.symm, ab, ac,
    ad, bc, bd, cd, ab.symm, ac.symm, ad.symm, bc.symm, bd.symm, cd.symm, if_true, if_false,
    Quad.quarterRound]
  -- The position is one of the four words, or untouched.
  by_cases first : i = a
  · simp [first, ab, ac, ad]
  by_cases second : i = b
  · simp [second, ab.symm]
  by_cases third : i = c
  · simp [third, ac.symm, bc.symm]
  by_cases fourth : i = d <;> simp [first, second, third, fourth, ad.symm, bd.symm, cd.symm]

/-- A round on the rows is a quarter round on each lane. -/
theorem lane_round (st : State) (j : Fin 4) : lane (round st) j = (lane st j).quarterRound := by
  simp [lane, round, line, Quad.quarterRound, Vec.add, Vec.xor, Vec.rotateLeft]

/-- The column round is a quarter round on each column. -/
theorem column_columnRound (m : Spec.Chacha20.State) (j : Fin 4) :
    column (Spec.Chacha20.columnRound m) j = (column m j).quarterRound := by
  have get (a b c d : Fin 16) (m : Spec.Chacha20.State)
      (apart : a ≠ b ∧ a ≠ c ∧ a ≠ d ∧ b ≠ c ∧ b ≠ d ∧ c ≠ d) (i : Nat) (inside : i < 16) :=
    quarterRound_get a b c d m apart ⟨i, inside⟩
  simp only [Fin.getElem_fin] at get
  unfold column Spec.Chacha20.columnRound
  -- The other three quarter rounds leave the column alone.
  fin_cases j <;> simp [get, Fin.ext_iff]

/-- The diagonal round is a quarter round on each diagonal. -/
theorem diagonal_diagonalRound (m : Spec.Chacha20.State) (j : Fin 4) :
    diagonal (Spec.Chacha20.diagonalRound m) j = (diagonal m j).quarterRound := by
  have get (a b c d : Fin 16) (m : Spec.Chacha20.State)
      (apart : a ≠ b ∧ a ≠ c ∧ a ≠ d ∧ b ≠ c ∧ b ≠ d ∧ c ≠ d) (i : Nat) (inside : i < 16) :=
    quarterRound_get a b c d m apart ⟨i, inside⟩
  simp only [Fin.getElem_fin] at get
  unfold diagonal Spec.Chacha20.diagonalRound
  fin_cases j <;> simp [get, Fin.ext_iff]

/-- The columns of the rows written one after another are the lanes. -/
theorem column_words (st : State) (j : Fin 4) : column (words st) j = lane st j := by
  simp only [column, lane, words_get, Fin.getElem_fin]
  fin_cases j <;> rfl

/-- Shuffling the rows brings the diagonals into the lanes. -/
theorem lane_shuffleRows0123 (st : State) (j : Fin 4) :
    lane (shuffleRows0123 st) j = diagonal (words st) j := by
  -- Row `r` is moved by `r` lanes.
  fin_cases j <;> simp [diagonal, lane, words_get, shuffleRows0123, Vec.shuffleRight]

/-- The second shuffle undoes the first. -/
theorem shuffleRows0123_shuffleRows0321 (st : State) : shuffleRows0123 (shuffleRows0321 st) = st := by
  apply Vector.ext
  intro i inside
  apply Vector.ext
  intro j inside'
  -- A row is moved by `i` and by `4 - i` lanes.
  interval_cases i <;> interval_cases j <;>
    simp [shuffleRows0123, shuffleRows0321, Vec.shuffleRight]

/-- The column round on rows is the specification's on words. -/
theorem columnRound_words (st : State) :
    words (columnRound st) = Spec.Chacha20.columnRound (words st) := by
  apply ext_column
  intro j
  rw [columnRound, column_words, lane_round, column_columnRound, column_words]

/-- The diagonal round on rows is the specification's on words. -/
theorem diagonalRound_words (st : State) :
    words (diagonalRound st) = Spec.Chacha20.diagonalRound (words st) := by
  apply ext_diagonal
  intro j
  -- Shuffled lanes are diagonals, and the round treats each lane by itself.
  rw [← lane_shuffleRows0123, diagonalRound, shuffleRows0123_shuffleRows0321, lane_round,
    lane_shuffleRows0123, diagonal_diagonalRound]

/-- The double round on rows is the specification's on words. -/
theorem doubleRound_words (st : State) :
    words (doubleRound st) = Spec.Chacha20.doubleRound (words st) := by
  rw [doubleRound, diagonalRound_words, columnRound_words, Spec.Chacha20.doubleRound]

/-- The rounds on rows are the specification's on words. -/
theorem rounds_words (st : State) : words (rounds st) = Spec.Chacha20.rounds (words st) := by
  -- Flattening commutes with each of the ten double rounds.
  have commutes : Function.Semiconj (words) doubleRound
      Spec.Chacha20.doubleRound := doubleRound_words
  exact commutes.iterate_right 10 st

/-- The rounds on three states treat each by itself. -/
theorem rounds3_eq (k0 k1 k2 : State) : rounds3 (k0, k1, k2) = (rounds k0, rounds k1, rounds k2) := rfl

/-- Adding one to the last row adds one to word twelve. -/
theorem stateIncr_words (st : State) :
    words (stateIncr st) = (words st).set 12 (getElem (words st) 12 Spec.counterPosition + 1)
      Spec.counterPosition := by
  apply Vector.ext
  intro i inside
  rw [Vector.getElem_set, words_get, words_get, words_get]
  -- The other lanes of the row get a zero added.
  interval_cases i <;> simp [stateIncr, Vec.increment, Vec.add, Vec.oneLe]

/-- Adding rows is adding words. -/
theorem sumStates_words (st' st : State) :
    words (sumStates st' st) = Vector.zipWith (· + ·) (words st') (words st) := by
  apply Vector.ext
  intro i inside
  simp [words_get, sumStates, Vec.add]

/-- The core on rows is the specification's on words. -/
theorem chacha20Core_words (st : State) :
    words (chacha20Core st) = Spec.Chacha20.chacha20Core (words st) := by
  rw [chacha20Core, sumStates_words, rounds_words, Spec.Chacha20.chacha20Core]

/-- Three states at once are three runs of the core, on successive counters. -/
theorem chacha20Core3_eq (st : State) :
    chacha20Core3 st =
      ((chacha20Core st, chacha20Core (stateIncr st), chacha20Core (stateIncr (stateIncr st))),
        stateIncr (stateIncr st)) := by
  rw [chacha20Core3, chacha20Incr3, rounds3_eq, chacha20Sum3]
  rfl

end Chacha20Vec128

end HaclStar.Impl
