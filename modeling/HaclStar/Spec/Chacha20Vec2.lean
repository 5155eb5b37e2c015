import HaclStar.Impl.Chacha20Vec128State

/-! ChaCha20 on vectors of eight lanes: a vector for each word of the state, a lane for each block. -/

namespace HaclStar.Spec.Chacha20Vec2

open Endianness Keystream Words

/-- One word of each of eight blocks. -/
abbrev Vec := Vector UInt32 8

/-- The same word in every lane. -/
def toVec (x : UInt32) : Vec := Vector.replicate 8 x

/-- The sixteen words of the states of eight blocks. -/
abbrev State := Vector Vec 16

/-- The states of eight blocks, one after another. -/
abbrev StateT := Vector (Vector UInt32 16) 8

/-- The counters of eight successive blocks. -/
def initialCounter (c : Nat) : Vec :=
  let ctr := UInt32.ofNat c
  #v[ctr, ctr + 1, ctr + 2, ctr + 3, ctr + 4, ctr + 5, ctr + 6, ctr + 7]

/-- Add lane by lane. -/
def add (x y : Vec) : Vec := Vector.zipWith (· + ·) x y

/-- Exclusive or lane by lane. -/
def xor (x y : Vec) : Vec := Vector.zipWith (· ^^^ ·) x y

/-- Rotate each lane. -/
def rotate (x : Vec) (n : UInt32) : Vec := x.map fun x => rotateLeft x n

/-- Add one vector to another, and rotate the exclusive or of the sum with a third. -/
def line (a b d : Fin 16) (s : UInt32) (m : State) : State :=
  let m := m.set a (add (getElem m a (within a)) (getElem m b (within b))) (within a)
  m.set d (rotate (xor (getElem m d (within d)) (getElem m a (within a))) s) (within d)

/-- A round on the columns, all of which are treated alike. -/
def columnRound (m : State) : State :=
  let m := line 0 4 12 16 m
  let m := line 1 5 13 16 m
  let m := line 2 6 14 16 m
  let m := line 3 7 15 16 m
  let m := line 8 12 4 12 m
  let m := line 9 13 5 12 m
  let m := line 10 14 6 12 m
  let m := line 11 15 7 12 m
  let m := line 0 4 12 8 m
  let m := line 1 5 13 8 m
  let m := line 2 6 14 8 m
  let m := line 3 7 15 8 m
  let m := line 8 12 4 7 m
  let m := line 9 13 5 7 m
  let m := line 10 14 6 7 m
  line 11 15 7 7 m

/-- A round on the diagonals. -/
def diagonalRound (m : State) : State :=
  let m := line 0 5 15 16 m
  let m := line 1 6 12 16 m
  let m := line 2 7 13 16 m
  let m := line 3 4 14 16 m
  let m := line 10 15 5 12 m
  let m := line 11 12 6 12 m
  let m := line 8 13 7 12 m
  let m := line 9 14 4 12 m
  let m := line 0 5 15 8 m
  let m := line 1 6 12 8 m
  let m := line 2 7 13 8 m
  let m := line 3 4 14 8 m
  let m := line 10 15 5 7 m
  let m := line 11 12 6 7 m
  let m := line 8 13 7 7 m
  line 9 14 4 7 m

/-- Two rounds. -/
def doubleRound (m : State) : State := diagonalRound (columnRound m)

/-- Twenty rounds. -/
def rounds (m : State) : State := doubleRound^[10] m

/-- The rounds, with the initial state added. -/
def chacha20Core (s : State) : State :=
  let s' := rounds s
  Vector.zipWith add s' s

/-- The constants. -/
def constants : Vector UInt32 4 := Impl.Vec.load32x4 0x61707865 0x3320646e 0x79622d32 0x6b206574

/-- The initial states of eight blocks. -/
def setup (k n : Bytes) (c : Nat) : State :=
  let constants := constants.map toVec
  let key := (uint32sFromLe 8 k).map toVec
  let nonce := (uint32sFromLe 3 n).map toVec
  let ctr := Vector.singleton (initialCounter c)
  constants ++ key ++ ctr ++ nonce

/-- The state in one lane. -/
def column (s : State) (c : Fin 8) : Vector UInt32 16 := s.map fun r => r[c]

/-- The states, lane by lane. -/
def transpose (s : State) : StateT := Vector.ofFn fun c => column s c

/-- The state of one block. -/
def block (k : StateT) (i : Fin 8) : Vector UInt32 16 := k[i]

/-- The bytes of eight blocks, one behind the other. -/
def stateToKey (s : State) : Bytes :=
  let k := transpose s
  uint32sToLe 16 (block k 0) ++
  uint32sToLe 16 (block k 1) ++
  uint32sToLe 16 (block k 2) ++
  uint32sToLe 16 (block k 3) ++
  uint32sToLe 16 (block k 4) ++
  uint32sToLe 16 (block k 5) ++
  uint32sToLe 16 (block k 6) ++
  uint32sToLe 16 (block k 7)

/-- The keystream of eight successive counters. -/
def chacha20Block (k n : Bytes) (c : Nat) : Bytes :=
  let st := setup k n c
  let st' := chacha20Core st
  stateToKey st'

/-! The lanes do not mix. -/

section Column

variable (c : Fin 8)

theorem column_get (m : State) (i : Fin 16) :
    getElem (column m c) i (within i) = (getElem m i (within i))[c] := by
  simp [column]

theorem column_set (m : State) (i : Fin 16) (x : Vec) :
    column (m.set i x (within i)) c = (column m c).set i x[c] (within i) := by
  simp [column]

/-- A line works on each lane by itself. -/
theorem column_line (a b d : Fin 16) (s : UInt32) (m : State) :
    column (line a b d s m) c = Chacha20.line a b d s (column m c) := by
  set m' := m.set a (add m[a] m[b]) with added
  -- The addition comes first; the other word is read after it.
  have first : column m' c = (column m c).set a ((column m c)[a] + (column m c)[b]) := by
    rw [added, column_set, column_get, column_get]
    simp [add]
  have second : column (m'.set d (rotate (xor m'[d] m'[a]) s)) c =
      (column m' c).set d (rotateLeft ((column m' c)[d] ^^^ (column m' c)[a]) s) := by
    rw [column_set, column_get, column_get]
    simp [rotate, xor]
  simp only [Chacha20.line, ← first]
  exact second

theorem column_sum (s s' : State) :
    column (Vector.zipWith add s s') c = Vector.zipWith (· + ·) (column s c) (column s' c) := by
  apply Vector.ext
  intro i inside
  simp [column, add]

end Column

/-! Lines on different columns may be taken in any order. -/

section Layers

open Impl.Chacha20Vec128 (Quad diagonal)

/-- The first and the third line of a quarter round. -/
def Quad.lineABD (s : UInt32) (q : Quad) : Quad :=
  let a := q.a + q.b
  ⟨a, q.b, q.c, rotateLeft (q.d ^^^ a) s⟩

/-- The second and the fourth line of a quarter round. -/
def Quad.lineCDB (s : UInt32) (q : Quad) : Quad :=
  let c := q.c + q.d
  ⟨q.a, rotateLeft (q.b ^^^ c) s, c, q.d⟩

theorem quarterRound_lines (q : Quad) :
    q.quarterRound = Quad.lineCDB 7 (Quad.lineABD 8 (Quad.lineCDB 12 (Quad.lineABD 16 q))) := rfl

variable (s : UInt32) (m : Chacha20.State) (j : Fin 4)

/-- A line changes two words. -/
theorem line_word (a b d : Fin 16) (s : UInt32) (m : Chacha20.State) (apart : a ≠ d) (i : Nat) (inside : i < 16) :
    (Chacha20.line a b d s m)[i] =
      if i = d.val then rotateLeft (m[d] ^^^ (m[a] + m[b])) s else if i = a.val then m[a] + m[b] else m[i] := by
  have changed := Impl.Chacha20Vec128.line_get a b d s m apart ⟨i, inside⟩
  simpa only [Fin.getElem_fin, Fin.ext_iff] using changed

theorem column_layerABD : Impl.Chacha20Vec128.column (Chacha20.line 3 7 15 s (Chacha20.line 2 6 14 s
    (Chacha20.line 1 5 13 s (Chacha20.line 0 4 12 s m)))) j =
      Quad.lineABD s (Impl.Chacha20Vec128.column m j) := by
  unfold Impl.Chacha20Vec128.column
  fin_cases j <;> simp [line_word, Fin.ext_iff, Quad.lineABD]

theorem column_layerCDB : Impl.Chacha20Vec128.column (Chacha20.line 11 15 7 s (Chacha20.line 10 14 6 s
    (Chacha20.line 9 13 5 s (Chacha20.line 8 12 4 s m)))) j =
      Quad.lineCDB s (Impl.Chacha20Vec128.column m j) := by
  unfold Impl.Chacha20Vec128.column
  fin_cases j <;> simp [line_word, Fin.ext_iff, Quad.lineCDB]

theorem diagonal_layerABD : diagonal (Chacha20.line 3 4 14 s (Chacha20.line 2 7 13 s
    (Chacha20.line 1 6 12 s (Chacha20.line 0 5 15 s m)))) j = Quad.lineABD s (diagonal m j) := by
  unfold diagonal
  fin_cases j <;> simp [line_word, Fin.ext_iff, Quad.lineABD]

theorem diagonal_layerCDB : diagonal (Chacha20.line 9 14 4 s (Chacha20.line 8 13 7 s
    (Chacha20.line 11 12 6 s (Chacha20.line 10 15 5 s m)))) j = Quad.lineCDB s (diagonal m j) := by
  unfold diagonal
  fin_cases j <;> simp [line_word, Fin.ext_iff, Quad.lineCDB]

/-- The quarter rounds on the columns may be taken line by line. -/
theorem columnRound_lines (m : Chacha20.State) :
    Chacha20.line 11 15 7 7 (Chacha20.line 10 14 6 7 (Chacha20.line 9 13 5 7 (Chacha20.line 8 12 4 7
      (Chacha20.line 3 7 15 8 (Chacha20.line 2 6 14 8 (Chacha20.line 1 5 13 8 (Chacha20.line 0 4 12 8
        (Chacha20.line 11 15 7 12 (Chacha20.line 10 14 6 12 (Chacha20.line 9 13 5 12 (Chacha20.line 8 12 4 12
          (Chacha20.line 3 7 15 16 (Chacha20.line 2 6 14 16 (Chacha20.line 1 5 13 16
            (Chacha20.line 0 4 12 16 m))))))))))))))) = Chacha20.columnRound m := by
  apply Impl.Chacha20Vec128.ext_column
  intro j
  -- Each column meets its four lines in their order.
  rw [column_layerCDB, column_layerABD, column_layerCDB, column_layerABD, ← quarterRound_lines,
    Impl.Chacha20Vec128.column_columnRound]

/-- The quarter rounds on the diagonals may be taken line by line. -/
theorem diagonalRound_lines (m : Chacha20.State) :
    Chacha20.line 9 14 4 7 (Chacha20.line 8 13 7 7 (Chacha20.line 11 12 6 7 (Chacha20.line 10 15 5 7
      (Chacha20.line 3 4 14 8 (Chacha20.line 2 7 13 8 (Chacha20.line 1 6 12 8 (Chacha20.line 0 5 15 8
        (Chacha20.line 9 14 4 12 (Chacha20.line 8 13 7 12 (Chacha20.line 11 12 6 12 (Chacha20.line 10 15 5 12
          (Chacha20.line 3 4 14 16 (Chacha20.line 2 7 13 16 (Chacha20.line 1 6 12 16
            (Chacha20.line 0 5 15 16 m))))))))))))))) = Chacha20.diagonalRound m := by
  apply Impl.Chacha20Vec128.ext_diagonal
  intro j
  rw [diagonal_layerCDB, diagonal_layerABD, diagonal_layerCDB, diagonal_layerABD, ← quarterRound_lines,
    Impl.Chacha20Vec128.diagonal_diagonalRound]

end Layers

section Lanes

variable (c : Fin 8)

/-- Each lane goes through the specification's column round. -/
theorem column_columnRound (m : State) : column (columnRound m) c = Chacha20.columnRound (column m c) := by
  simp only [columnRound, column_line, columnRound_lines]

/-- Each lane goes through the specification's diagonal round. -/
theorem column_diagonalRound (m : State) :
    column (diagonalRound m) c = Chacha20.diagonalRound (column m c) := by
  simp only [diagonalRound, column_line, diagonalRound_lines]

theorem column_rounds (m : State) : column (rounds m) c = Chacha20.rounds (column m c) := by
  -- Taking a lane commutes with each of the ten double rounds.
  have commutes : Function.Semiconj (column · c) doubleRound Chacha20.doubleRound := by
    intro m
    show column (doubleRound m) c = _
    rw [doubleRound, column_diagonalRound, column_columnRound, Chacha20.doubleRound]
  exact commutes.iterate_right 10 m

theorem column_chacha20Core (s : State) : column (chacha20Core s) c = Chacha20.chacha20Core (column s c) := by
  simp only [chacha20Core, column_sum, column_rounds, Chacha20.chacha20Core]

/-- A lane of the counters is the counter of its block. -/
theorem initialCounter_get (n : Nat) : (initialCounter n)[c] = UInt32.ofNat (n + c.val) := by
  have word (i : Nat) : UInt32.ofNat (n + i) = UInt32.ofNat n + UInt32.ofNat i := UInt32.ofNat_add n i
  rw [word]
  fin_cases c
  · simp [initialCounter]
  all_goals rfl

/-- A lane of the initial state is the specification's, for the counter of its block. -/
theorem column_setup (k n : Bytes) (ctr : Nat) : column (setup k n ctr) c = Chacha20.setup k n (ctr + c.val) := by
  have spread {len : Nat} (words : Vector UInt32 len) :
      (words.map toVec).map (fun r : Vec => r[c]) = words := by
    apply Vector.ext
    intro i inside
    simp [toVec]
  have counter : (Vector.singleton (initialCounter ctr)).map (fun r : Vec => r[c]) =
      #v[UInt32.ofNat (ctr + c.val)] := by
    rw [← initialCounter_get]
    simp [Vector.singleton]
  simp only [column, setup, Vector.map_append, spread, counter]
  rfl

end Lanes

/-- Eight successive blocks come out of the eight lanes. -/
theorem chacha20Block_eq (k n : Bytes) (c : Nat) :
    chacha20Block k n c = (List.range 8).flatMap fun i => Chacha20.chacha20Block k n (c + i) := by
  have lane (i : Fin 8) : uint32sToLe 16 (block (transpose (chacha20Core (setup k n c))) i) =
      Chacha20.chacha20Block k n (c + i.val) := by
    have transposed : block (transpose (chacha20Core (setup k n c))) i = column (chacha20Core (setup k n c)) i :=
      Vector.getElem_ofFn i.isLt
    rw [transposed, column_chacha20Core, column_setup, Chacha20.chacha20Block]
  simp only [chacha20Block, stateToKey, lane]
  simp [List.range_succ, List.append_assoc]

end HaclStar.Spec.Chacha20Vec2
