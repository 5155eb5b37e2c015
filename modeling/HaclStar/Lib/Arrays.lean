import HaclStar.Lib.Stack
import HaclStar.Lib.Words

/-! Arrays of machine words that programs carry along, and their loads from and stores to bytes. -/

namespace Memory

open Endianness Words

variable {W : Type} {n : Nat} {h : Mem}

/-- One word of an array. -/
def readWord (a : Vector W n) (i : Nat) : Stack W := fun h =>
  if inside : i < n then some (a.get ⟨i, inside⟩, h) else none

/-- Replace one word of an array. -/
def writeWord (a : Vector W n) (i : Nat) (x : W) : Stack (Vector W n) := fun h =>
  if i < n then some (a.setIfInBounds i x, h) else none

/-- A word within the array is there. -/
theorem readWord_run (a : Vector W n) {i : Nat} (inside : i < n) :
    readWord a i h = some (a.get ⟨i, inside⟩, h) := dif_pos inside

/-- Reading beyond the array faults. -/
theorem readWord_fault (a : Vector W n) {i : Nat} (beyond : n ≤ i) : readWord a i h = none :=
  dif_neg (by omega)

/-- A word within the array can be replaced. -/
theorem writeWord_run (a : Vector W n) {i : Nat} (x : W) (inside : i < n) :
    writeWord a i x h = some (a.setIfInBounds i x, h) := if_pos inside

/-- Replacing one word changes no other. -/
theorem get_setIfInBounds (a : Vector W n) (i : Nat) (x : W) (j : Fin n) :
    (a.setIfInBounds i x).get j = if i = j.val then x else a.get j := by
  simp only [Vector.get_eq_getElem, Vector.getElem_setIfInBounds]

/-- What every step keeps about the memory holds when a loop returns. -/
theorem forLoop_keeps {σ : Type} {f : Nat → σ → Stack σ} (inv : Mem → Prop) {n : Nat}
    (keeps : ∀ j s m s' m', inv m → f j s m = some (s', m') → inv m') {s s' : σ} {h h' : Mem}
    (start : inv h) (ran : forLoop f n s h = some (s', h')) : inv h' := by
  -- Induction on the number of steps: the last one starts where the others have returned.
  induction n generalizing s' h' with
  | zero =>
    cases ran
    exact start
  | succ n ih =>
    obtain ⟨between, m, before, last⟩ := Stack.bind_some ran
    exact keeps n between m s' h' (ih before) last

/-- A loop faults when one of its steps does wherever the other steps may have led. -/
theorem forLoop_fault_of {σ : Type} {f : Nat → σ → Stack σ} (inv : Mem → Prop) {i n : Nat}
    (below : i < n) (keeps : ∀ j s m s' m', inv m → f j s m = some (s', m') → inv m')
    (faults : ∀ s m, inv m → f i s m = none) (s : σ) {h : Mem} (start : inv h) :
    forLoop f n s h = none := by
  -- Induction on the number of steps: the faulty one is the last, or comes before it.
  induction n with
  | zero => omega
  | succ n ih =>
    by_cases last : i = n
    · subst last
      -- Either an earlier step has faulted already, or the invariant has reached this one.
      cases before : forLoop f i s h with
      | none => exact Stack.bind_fault before _
      | some result =>
        rw [forLoop, Stack.bind_run before]
        exact faults _ _ (forLoop_keeps inv keeps start before)
    · exact Stack.bind_fault (ih (by omega)) _

/-- A loop with a step that always faults does. -/
theorem forLoop_fault {σ : Type} {f : Nat → σ → Stack σ} {i n : Nat} (below : i < n)
    (faults : ∀ s h, f i s h = none) (s : σ) {h : Mem} : forLoop f n s h = none :=
  forLoop_fault_of (fun _ => True) below (fun _ _ _ _ _ _ _ => trivial) (fun s m _ => faults s m) s trivial

/-- A loop whose steps only read and compute is a fold. -/
theorem forLoop_foldl {σ : Type} {f : Nat → σ → Stack σ} {n : Nat} {g : σ → Fin n → σ}
    (step : ∀ (i : Fin n) s, f i s h = some (g s i, h)) (s : σ) :
    forLoop f n s h = some (Fin.foldl n g s, h) := by
  -- Induction on the number of steps: both take the last one last.
  induction n with
  | zero => simp [forLoop]
  | succ n ih =>
    rw [forLoop, Stack.bind_run (ih fun i s => step i.castSucc s),
      Fin.foldl_succ_last]
    exact step (Fin.last n) _

section Bytes

variable (codec : WordCodec W)

/-- Fill an array with the words of a byte buffer. -/
def wordsFromBytes (output : Vector W n) (input : Buffer) (len : Nat) : Stack (Vector W n) :=
  forLoop (fun i output => do
    let part ← input.sub (codec.width * i) codec.width
    let bytes ← part.load
    writeWord output i (codec.decode bytes)) len output

/-- Store the first words of an array in a byte buffer. -/
def wordsToBytes (output : Buffer) (input : Vector W n) (len : Nat) : Stack Unit :=
  forLoop (fun i _ => do
    let hd ← readWord input i
    let part ← output.sub (codec.width * i) codec.width
    part.store (codec.encode hd)) len ()

/-- The filled array holds the words of the buffer. -/
theorem wordsFromBytes_run (output : Vector W n) {input : Buffer} (live : h.Live input)
    (size : input.length = codec.width * n) :
    wordsFromBytes codec output input n h = some (codec.fromBytes n (h.read input), h) := by
  have bytes := Mem.read_length live
  have step : ∀ i (words : Vector W n), i < n →
      (∀ j : Fin n, j.val < i → words.get j = (codec.loadAll n (h.read input)).get j) →
      ∃ words' : Vector W n,
        (∀ j : Fin n, j.val < i + 1 → words'.get j = (codec.loadAll n (h.read input)).get j) ∧
        (do
          let part ← input.sub (codec.width * i) codec.width
          let bytes ← part.load
          writeWord words i (codec.decode bytes) : Stack _) h = some (words', h) := by
    intro i words inside before
    have within : codec.width * (i + 1) ≤ codec.width * n := Nat.mul_le_mul_left _ inside
    rw [Nat.mul_succ] at within
    refine ⟨words.setIfInBounds i (codec.decode (h.read (input.slice (codec.width * i) codec.width))),
      fun j below => ?_, ?_⟩
    · rw [get_setIfInBounds]
      split
      · next same =>
        rw [Mem.read_slice _ _ (by omega)]
        simp only [WordCodec.loadAll, Vector.get_ofFn, same]
      · next other => exact before j (by omega)
    · rw [Stack.bind_run (Buffer.sub_run _ (by omega)),
        Stack.bind_run (Buffer.load_run (live.slice (by omega))), writeWord_run _ _ inside]
  obtain ⟨words, filled, ran⟩ := forLoop_reads (s := output)
    (fun i words => ∀ j : Fin n, j.val < i → words.get j = (codec.loadAll n (h.read input)).get j)
    step (fun j below => absurd below (Nat.not_lt_zero _))
  rw [wordsFromBytes, ran, ← codec.loadAll_eq n _ (by rw [bytes, size])]
  congr 2
  apply Vector.ext
  intro j inside
  exact filled ⟨j, inside⟩ inside

/-- The words are stored one after another from the start of the buffer. -/
theorem wordsToBytes_run {output : Buffer} (input : Vector W n) {len : Nat} (enough : len ≤ n)
    (live : h.Live output) (fits : codec.width * len ≤ output.length) :
    wordsToBytes codec output input len h =
      some ((), h.write output (codec.toBytes _ (input.take len))) := by
  rw [← codec.storeAll_eq, WordCodec.storeAll, Vector.toList_take, wordsToBytes]
  -- Induction on the number of words: the last one is stored behind the others.
  induction len with
  | zero => rw [List.take_zero, List.flatMap_nil, Mem.write_nil live]; rfl
  | succ len ih =>
    rw [Nat.mul_succ] at fits
    have inside : len < input.toList.length := by rw [Vector.length_toList]; omega
    have stored : ((input.toList.take len).flatMap codec.encode).length = codec.width * len := by
      rw [List.length_flatMap]
      simp only [codec.encode_length, List.map_const', List.sum_replicate, List.length_take,
        smul_eq_mul]
      rw [Nat.min_eq_left inside.le, Nat.mul_comm]
    have joined := Mem.write_append live ((input.toList.take len).flatMap codec.encode)
      (codec.encode (input.get ⟨len, enough⟩)) codec.width (by rw [codec.encode_length]; omega)
      (by rw [codec.encode_length]) (by omega)
    rw [stored] at joined
    have last : input.toList.take (len + 1) = input.toList.take len ++ [input.get ⟨len, enough⟩] := by
      rw [List.take_succ_eq_append_getElem inside, Vector.getElem_toList]
      rfl
    rw [forLoop, Stack.bind_run (ih (by omega) (by omega)), Stack.bind_run (readWord_run _ enough),
      Stack.bind_run (Buffer.sub_run _ (by omega)),
      Buffer.store_run ((live.slice (by omega)).write live (by omega))
        (by rw [codec.encode_length]; exact le_rfl), joined, last, List.flatMap_append,
      List.flatMap_singleton]

/-- Storing more words than the array has faults. -/
theorem wordsToBytes_fault (output : Buffer) (input : Vector W n) {len : Nat} (beyond : n < len) :
    wordsToBytes codec output input len h = none :=
  forLoop_fault beyond (fun _ _ => Stack.bind_fault (readWord_fault _ le_rfl) _) ()

end Bytes

end Memory
