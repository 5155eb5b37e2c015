import HaclStar.Impl.Chacha20Vec128

/-! ChaCha20 on rows of eight lanes: two blocks in a state, and three states at once. -/

namespace HaclStar.Spec.Chacha20Vec256

open Endianness Keystream Words

/-- A row of eight lanes: the rows of two blocks. -/
abbrev Vec := Vector UInt32 8

/-- The four rows of a state. -/
abbrev State := Vector Vec 4

/-- Add lane by lane. -/
def add (x y : Vec) : Vec := Vector.zipWith (· + ·) x y

/-- Exclusive or lane by lane. -/
def xor (x y : Vec) : Vec := Vector.zipWith (· ^^^ ·) x y

/-- Rotate each lane. -/
def rotate (x : Vec) (n : UInt32) : Vec := x.map fun x => rotateLeft x n

/-- Move the lanes of each half to the right, cyclically. -/
def shuffleRight (x : Vec) (n : Fin 4) : Vec :=
  Vector.ofFn fun i : Fin 8 => x[4 * (i.val / 4) + (i.val % 4 + n.val) % 4]

/-- Move the lanes of a row. -/
def shuffleRow (i n : Fin 4) (s : State) : State :=
  s.set i (shuffleRight (getElem s i (withinRow i)) n) (withinRow i)

/-- Add one row to another, and rotate the exclusive or of the sum with a third. -/
def line (a b d : Fin 4) (s : UInt32) (m : State) : State :=
  let m := m.set a (add (getElem m a (withinRow a)) (getElem m b (withinRow b))) (withinRow a)
  m.set d (rotate (xor (getElem m d (withinRow d)) (getElem m a (withinRow a))) s) (withinRow d)

/-- Four lines, which work on all lanes at once. -/
def round (st : State) : State :=
  let st := line 0 1 3 16 st
  let st := line 2 3 1 12 st
  let st := line 0 1 3 8 st
  let st := line 2 3 1 7 st
  st

/-- Turn the diagonals into columns. -/
def shuffleRows0123 (st : State) : State :=
  let st := shuffleRow 1 1 st
  let st := shuffleRow 2 2 st
  let st := shuffleRow 3 3 st
  st

/-- Turn the columns back into diagonals. -/
def shuffleRows0321 (st : State) : State :=
  let st := shuffleRow 1 3 st
  let st := shuffleRow 2 2 st
  let st := shuffleRow 3 1 st
  st

/-- A round on the columns. -/
def columnRound (st : State) : State := round st

/-- A round on the diagonals. -/
def diagonalRound (st : State) : State :=
  let st := shuffleRows0123 st
  let st := round st
  let st := shuffleRows0321 st
  st

/-- Two rounds. -/
def doubleRound (st : State) : State :=
  let st := columnRound st
  let st := diagonalRound st
  st

/-- Three states. -/
structure State3 where
  v1 : State
  v2 : State
  v3 : State

/-- Two rounds on each of three states. -/
def doubleRound' (st : State3) : State3 := ⟨doubleRound st.v1, doubleRound st.v2, doubleRound st.v3⟩

/-- Twenty rounds. -/
def rounds (st : State3) : State3 := doubleRound'^[10] st

/-- Add the rows of two states. -/
def sumStates (s s' : State) : State := Vector.zipWith add s' s

def sumStates' (st st' : State3) : State3 := ⟨sumStates st.v1 st'.v1, sumStates st.v2 st'.v2, sumStates st.v3 st'.v3⟩

/-- The rounds, with the initial states added. -/
def chacha20Core (s : State3) : State3 :=
  let s' := rounds s
  let s'' := sumStates' s s'
  s''

/-- The row of constants, twice. -/
def constants : Vec :=
  Impl.Vec.load32x4 0x61707865 0x3320646e 0x79622d32 0x6b206574 ++
    Impl.Vec.load32x4 0x61707865 0x3320646e 0x79622d32 0x6b206574

/-- The initial state of two blocks: their counters differ by one. -/
def setup (k n : Bytes) (c : Nat) : State :=
  let keyPart1 : Vec := uint32sFromLe 4 (k.take 16) ++ uint32sFromLe 4 (k.take 16)
  let keyPart2 : Vec := uint32sFromLe 4 ((k.drop 16).take 16) ++ uint32sFromLe 4 ((k.drop 16).take 16)
  let nonce : Vec := (Vector.singleton (UInt32.ofNat c) ++ uint32sFromLe 3 n : Vector UInt32 4) ++
    (Vector.singleton (UInt32.ofNat ((c + 1) % 0x100000000)) ++ uint32sFromLe 3 n : Vector UInt32 4)
  #v[constants, keyPart1, keyPart2, nonce]

/-- Half of the lanes of a row. -/
def half (h : Fin 2) (x : Vec) : Impl.Vec := Vector.ofFn fun j : Fin 4 => x[4 * h.val + j.val]

/-- A row of a state. -/
def row (st : State) (i : Fin 4) : Vec := getElem st i (withinRow i)

/-- The bytes of two blocks, one behind the other. -/
def flush (st' : State) : Bytes :=
  uint32sToLe 4 (half 0 (row st' 0)) ++
  uint32sToLe 4 (half 0 (row st' 1)) ++
  uint32sToLe 4 (half 0 (row st' 2)) ++
  uint32sToLe 4 (half 0 (row st' 3)) ++
  uint32sToLe 4 (half 1 (row st' 0)) ++
  uint32sToLe 4 (half 1 (row st' 1)) ++
  uint32sToLe 4 (half 1 (row st' 2)) ++
  uint32sToLe 4 (half 1 (row st' 3))

/-- The initial states of six blocks. -/
def setupUnits (k n : Bytes) (c : Nat) : State3 :=
  let st1 := setup k n c
  let st2 := setup k n ((c + 2) % 0x100000000)
  let st3 := setup k n ((c + 4) % 0x100000000)
  ⟨st1, st2, st3⟩

/-- The keystream of six successive counters. -/
def chacha20Block (k n : Bytes) (c : Nat) : Bytes :=
  let st := setupUnits k n c
  let st' := chacha20Core st
  flush st'.v1 ++ flush st'.v2 ++ flush st'.v3

/-! Each half of the lanes is a state of four lanes. -/

/-- Half of the lanes of each row. -/
def halves (h : Fin 2) (st : State) : Impl.Chacha20Vec128.State := st.map (half h)

section Halves

variable (h : Fin 2)

theorem half_add (x y : Vec) : half h (add x y) = (half h x).add (half h y) := by
  apply Vector.ext
  intro j inside
  simp [half, add, Impl.Vec.add]

theorem half_xor (x y : Vec) : half h (xor x y) = (half h x).xor (half h y) := by
  apply Vector.ext
  intro j inside
  simp [half, xor, Impl.Vec.xor]

theorem half_rotate (x : Vec) (n : UInt32) : half h (rotate x n) = (half h x).rotateLeft n := by
  apply Vector.ext
  intro j inside
  simp [half, rotate, Impl.Vec.rotateLeft]

/-- The lanes of a half stay in it. -/
theorem half_shuffleRight (x : Vec) (n : Fin 4) : half h (shuffleRight x n) = (half h x).shuffleRight n := by
  apply Vector.ext
  intro j inside
  have block : (4 * h.val + j) / 4 = h.val := by omega
  have lane : (4 * h.val + j + n.val) % 4 = (j + n.val) % 4 := by omega
  simp [half, shuffleRight, Impl.Vec.shuffleRight, block, lane]

theorem halves_get (st : State) (i : Fin 4) :
    getElem (halves h st) i (withinRow i) = half h (getElem st i (withinRow i)) := by
  simp [halves]

theorem halves_set (st : State) (i : Fin 4) (x : Vec) :
    halves h (st.set i x (withinRow i)) = (halves h st).set i (half h x) (withinRow i) := by
  simp [halves]

/-- A line works on each half by itself. -/
theorem halves_line (a b d : Fin 4) (s : UInt32) (m : State) (apart : a ≠ d) :
    halves h (line a b d s m) = Impl.Chacha20Vec128.line (halves h m) a b d s := by
  have apart' : (a : Nat) ≠ d := by omega
  have sum : (m.set a (add m[a] m[b]))[a] = add m[a] m[b] := Vector.getElem_set_self a.isLt
  have other : (m.set a (add m[a] m[b]))[d] = m[d] := Vector.getElem_set_ne a.isLt d.isLt apart'
  simp only [line, Impl.Chacha20Vec128.line, sum, other, halves_set, halves_get, half_rotate, half_xor,
    half_add]

theorem halves_round (st : State) : halves h (round st) = Impl.Chacha20Vec128.round (halves h st) := by
  simp only [round, Impl.Chacha20Vec128.round, halves_line _ _ _ _ _ _ (by decide : (0 : Fin 4) ≠ 3),
    halves_line _ _ _ _ _ _ (by decide : (2 : Fin 4) ≠ 1)]

theorem halves_shuffleRow (i n : Fin 4) (st : State) :
    halves h (shuffleRow i n st) =
      (halves h st).set i ((getElem (halves h st) i (withinRow i)).shuffleRight n) (withinRow i) := by
  rw [shuffleRow, halves_set, half_shuffleRight, halves_get]

theorem halves_shuffleRows0123 (st : State) :
    halves h (shuffleRows0123 st) = Impl.Chacha20Vec128.shuffleRows0123 (halves h st) := by
  simp only [shuffleRows0123, halves_shuffleRow]
  -- Each row is moved once.
  apply Vector.ext
  intro i inside
  interval_cases i <;> simp [Impl.Chacha20Vec128.shuffleRows0123]

theorem halves_shuffleRows0321 (st : State) :
    halves h (shuffleRows0321 st) = Impl.Chacha20Vec128.shuffleRows0321 (halves h st) := by
  simp only [shuffleRows0321, halves_shuffleRow]
  apply Vector.ext
  intro i inside
  interval_cases i <;> simp [Impl.Chacha20Vec128.shuffleRows0321]

theorem halves_doubleRound (st : State) :
    halves h (doubleRound st) = Impl.Chacha20Vec128.doubleRound (halves h st) := by
  simp only [doubleRound, columnRound, diagonalRound, halves_shuffleRows0321, halves_round, halves_shuffleRows0123,
    Impl.Chacha20Vec128.doubleRound, Impl.Chacha20Vec128.columnRound, Impl.Chacha20Vec128.diagonalRound]

/-- The rounds treat each of the three states by itself. -/
theorem rounds_eq (st : State3) :
    rounds st = ⟨doubleRound^[10] st.v1, doubleRound^[10] st.v2, doubleRound^[10] st.v3⟩ := rfl

theorem halves_rounds (st : State) :
    halves h (doubleRound^[10] st) = Impl.Chacha20Vec128.rounds (halves h st) := by
  -- Taking a half commutes with each of the ten double rounds.
  have commutes : Function.Semiconj (halves h) doubleRound Impl.Chacha20Vec128.doubleRound := halves_doubleRound h
  exact commutes.iterate_right 10 st

theorem halves_sumStates (s s' : State) :
    halves h (sumStates s s') = Impl.Chacha20Vec128.sumStates (halves h s') (halves h s) := by
  apply Vector.ext
  intro i inside
  simp only [halves, sumStates, Impl.Chacha20Vec128.sumStates, Vector.getElem_map, Vector.getElem_zipWith, half_add]

/-- A half of the core's result is the core's result on the half. -/
theorem halves_core (st : State) :
    halves h (sumStates st (doubleRound^[10] st)) = Impl.Chacha20Vec128.chacha20Core (halves h st) := by
  rw [halves_sumStates, halves_rounds, Impl.Chacha20Vec128.chacha20Core]

/-- The first half of a row is its first four lanes. -/
theorem half_append (v w : Impl.Vec) : half h (v ++ w : Vector UInt32 (4 + 4)) = if h = 0 then v else w := by
  apply Vector.ext
  intro j inside
  fin_cases h
  · have left : (v ++ w)[j] = v[j] := Vector.getElem_append_left (by omega)
    simpa [half] using left
  · have right : (v ++ w)[4 + j] = w[4 + j - 4] := Vector.getElem_append_right (by omega) (by omega)
    simpa [half] using right

/-- The rows of both halves, except for the counters, are the same. -/
theorem halves_rows (x y z : Impl.Vec) (u v : Impl.Vec) :
    halves h #v[(x ++ x : Vector UInt32 (4 + 4)), (y ++ y : Vector UInt32 (4 + 4)), (z ++ z : Vector UInt32 (4 + 4)),
      (u ++ v : Vector UInt32 (4 + 4))] = #v[x, y, z, if h = 0 then u else v] := by
  simp [halves, half_append]

/-- The first half starts with the counter it is given, the second with the next one. -/
theorem halves_setup {k : Bytes} (n : Bytes) (c : Nat) (size : k.length = 32) :
    Impl.Chacha20Vec128.words (halves h (setup k n c)) = Spec.Chacha20.setup k n (c + h.val) := by
  have rows := Impl.Chacha20Vec128.words_setup n (UInt32.ofNat (c + h.val)) size
  have counter : Spec.Chacha20.setup k n (UInt32.ofNat (c + h.val)).toNat = Spec.Chacha20.setup k n (c + h.val) := by
    simp only [Spec.Chacha20.setup, UInt32.ofNat_toNat]
  rw [counter] at rows
  have next : UInt32.ofNat ((c + 1) % 0x100000000) = UInt32.ofNat (c + 1) := by
    apply UInt32.toNat_inj.mp
    simp
  have chosen (m : Vector UInt32 3) : (if h = 0 then (Vector.singleton (UInt32.ofNat c) ++ m : Vector UInt32 4)
      else (Vector.singleton (UInt32.ofNat ((c + 1) % 0x100000000)) ++ m : Vector UInt32 4)) =
      #v[UInt32.ofNat (c + h.val)] ++ m := by
    rw [next]
    fin_cases h <;> rfl
  rw [← rows, ← chosen, List.drop_zero]
  exact congrArg Impl.Chacha20Vec128.words (halves_rows h _ _ _ _ _)

end Halves

/-- The bytes of two blocks are those of the two halves. -/
theorem flush_halves (st : State) :
    flush st = uint32sToLe 16 (Impl.Chacha20Vec128.words (halves 0 st)) ++
      uint32sToLe 16 (Impl.Chacha20Vec128.words (halves 1 st)) := by
  have rows (h : Fin 2) (i : Fin 4) : (halves h st).get i = half h (row st i) := halves_get h st i
  simp only [Impl.Chacha20Vec128.words_bytes, rows, flush, List.append_assoc]

/-- Two successive blocks come out of each state. -/
theorem flush_core {k : Bytes} (n : Bytes) (c : Nat) (size : k.length = 32) :
    flush (sumStates (setup k n c) (doubleRound^[10] (setup k n c))) =
      Spec.Chacha20.chacha20Block k n c ++ Spec.Chacha20.chacha20Block k n (c + 1) := by
  have first : (0 : Fin 2).val = 0 := rfl
  have second : (1 : Fin 2).val = 1 := rfl
  simp only [flush_halves, halves_core, Impl.Chacha20Vec128.chacha20Core_words, halves_setup _ _ _ size, first,
    second, Nat.add_zero, Spec.Chacha20.chacha20Block]

/-- A counter and its remainder give the same block. -/
theorem setup_mod (k n : Bytes) (c : Nat) : setup k n (c % 0x100000000) = setup k n c := by
  have first : UInt32.ofNat (c % 0x100000000) = UInt32.ofNat c := by
    apply UInt32.toNat_inj.mp
    simp
  have second : (c % 0x100000000 + 1) % 0x100000000 = (c + 1) % 0x100000000 := by omega
  simp only [setup, first, second]

/-- Six successive blocks come out of the three states. -/
theorem chacha20Block_eq {k : Bytes} (n : Bytes) (c : Nat) (size : k.length = 32) :
    chacha20Block k n c = (List.range 6).flatMap fun i => Spec.Chacha20.chacha20Block k n (c + i) := by
  simp only [chacha20Block, chacha20Core, rounds_eq, sumStates', setupUnits, setup_mod, flush_core _ _ size]
  simp [List.range_succ, List.append_assoc]

end HaclStar.Spec.Chacha20Vec256
