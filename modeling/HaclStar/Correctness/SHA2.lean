import HaclStar.Correctness.SecretBox
import HaclStar.Impl.SHA2

/-! The SHA-2 implementations against their specifications, at once and in pieces. -/

namespace HaclStar.Correctness.SHA2

open Endianness Memory Impl.SHA2 Correctness.SecretBox

/-- A call that processes whole blocks. -/
inductive Piece where
  | update (data : Buffer)
  | updateMulti (data : Buffer) (blocks : UInt32)

variable {n sizeK : Nat}

/-- The state after one call. -/
def Piece.process (alg : Algorithm n sizeK) (st : State n sizeK) : Piece → Stack (State n sizeK)
  | update data => alg.update st data
  | updateMulti data blocks => alg.updateMulti st data blocks

/-- The bytes that a call processes. -/
def Piece.bytes (h : Mem) : Piece → Bytes
  | update data => h.read data
  | updateMulti data _ => h.read data

/-- The arguments that a call accepts for words of `n` bytes: live buffers of whole blocks. -/
def Piece.Accepts (n : Nat) (h : Mem) : Piece → Prop
  | update data => h.Live data ∧ data.length = Spec.SHA2.sizeBlock n
  | updateMulti data blocks => h.Live data ∧ data.length = blocks.toNat * Spec.SHA2.sizeBlock n

/-- The state after one call after another. -/
def processAll (alg : Algorithm n sizeK) (st : State n sizeK) : List Piece → Stack (State n sizeK)
  | [] => return st
  | piece :: pieces => do
    let st ← piece.process alg st
    processAll alg st pieces

/-- The hash of a message that is given in pieces and a rest. -/
def incremental (alg : Algorithm n sizeK) (pieces : List Piece) (last : Buffer) (len : UInt32)
    (hash : Buffer) : Stack Unit := do
  let st ← processAll alg (alg.init alloc) pieces
  let st ← alg.updateLast st last len
  alg.finish st hash

/-- An implementation writes the hash of its specification, at once and in pieces.
The pieces may have any length for which the block counter does not overflow. -/
structure Correct (alg : Algorithm n sizeK) (spec : Spec.SHA2.Algorithm n sizeK) : Prop where
  hash : ∀ {h : Mem} {hash input : Buffer} {len : UInt32}, h.Live hash → h.Live input →
    hash.length = n * spec.sizeHashFinal → input.length = len.toNat →
    alg.hash hash input len h = some ((), h.write hash (spec.hash (h.read input)))
  incremental : ∀ {h : Mem} {hash last : Buffer} {len : UInt32} (pieces : List Piece), h.Live hash →
    h.Live last → hash.length = n * spec.sizeHashFinal → last.length = len.toNat → alg.Accepts len →
    (∀ piece ∈ pieces, piece.Accepts n h) →
    (pieces.flatMap (Piece.bytes h)).length / Spec.SHA2.sizeBlock n + 2 < 2 ^ (8 * n) →
    incremental alg pieces last len hash h = some ((), h.write hash
      (spec.hash (pieces.flatMap (Piece.bytes h) ++ h.read last)))

variable {alg : Algorithm n sizeK} {spec : Spec.SHA2.Algorithm n sizeK} {h : Mem} {st : State n sizeK}
  {done : Bytes}

/-- What a call accepts is whole blocks. -/
theorem Piece.bytes_mod [NeZero n] {piece : Piece} (accepts : piece.Accepts n h) :
    (piece.bytes h).length % Spec.SHA2.sizeBlock n = 0 := by
  cases piece with
  | update data =>
    obtain ⟨live, size⟩ := accepts
    rw [Piece.bytes, Mem.read_length live, size, Nat.mod_self]
  | updateMulti data blocks =>
    obtain ⟨live, size⟩ := accepts
    rw [Piece.bytes, Mem.read_length live, size, Nat.mul_mod_left]

/-- A call adds its bytes to those that the state digests. -/
theorem Piece.process_run [NeZero n] (imp : Implements alg spec) {piece : Piece}
    (accepts : piece.Accepts n h) (digests : Digests spec done st)
    (whole : done.length % Spec.SHA2.sizeBlock n = 0)
    (room : (done ++ piece.bytes h).length / Spec.SHA2.sizeBlock n < 2 ^ (8 * n)) :
    ∃ st', Digests spec (done ++ piece.bytes h) st' ∧ piece.process alg st h = some (st', h) := by
  have positive := Spec.SHA2.sizeBlock_pos (n := n)
  have counted := digests.count
  cases piece with
  | update data =>
    obtain ⟨live, size⟩ := accepts
    rw [Piece.bytes, List.length_append, Mem.read_length live, size, ← counted, ← Nat.succ_mul,
      Nat.mul_div_cancel _ positive] at room
    obtain ⟨st', digests', -, ran⟩ := update_run imp digests whole live size room
    exact ⟨st', digests', ran⟩
  | updateMulti data blocks =>
    obtain ⟨live, size⟩ := accepts
    rw [Piece.bytes, List.length_append, Mem.read_length live, size, ← counted, ← Nat.add_mul,
      Nat.mul_div_cancel _ positive] at room
    obtain ⟨st', digests', -, ran⟩ := updateMulti_run imp digests whole live blocks size room
    exact ⟨st', digests', ran⟩

/-- The calls add all their bytes. -/
theorem processAll_run [NeZero n] (imp : Implements alg spec) (pieces : List Piece)
    (accepts : ∀ piece ∈ pieces, piece.Accepts n h) (digests : Digests spec done st)
    (whole : done.length % Spec.SHA2.sizeBlock n = 0)
    (room : (done ++ pieces.flatMap (Piece.bytes h)).length / Spec.SHA2.sizeBlock n < 2 ^ (8 * n)) :
    (done ++ pieces.flatMap (Piece.bytes h)).length % Spec.SHA2.sizeBlock n = 0 ∧
      ∃ st', Digests spec (done ++ pieces.flatMap (Piece.bytes h)) st' ∧
        processAll alg st pieces h = some (st', h) := by
  -- Induction on the calls: each one leaves whole blocks, counted, for the next.
  induction pieces generalizing done st with
  | nil => exact ⟨by simpa using whole, st, by simpa using digests, rfl⟩
  | cons piece pieces ih =>
    have first := accepts piece List.mem_cons_self
    rw [List.flatMap_cons, ← List.append_assoc] at room ⊢
    have less : (done ++ piece.bytes h).length / Spec.SHA2.sizeBlock n < 2 ^ (8 * n) :=
      (Nat.div_le_div_right (List.sublist_append_left _ _).length_le).trans_lt room
    have whole' : (done ++ piece.bytes h).length % Spec.SHA2.sizeBlock n = 0 := by
      rw [List.length_append, Nat.add_mod, whole, Piece.bytes_mod first]
      rfl
    obtain ⟨st', digests', ran⟩ := Piece.process_run imp first digests whole less
    obtain ⟨whole'', st'', digests'', ran'⟩ :=
      ih (fun other more => accepts other (List.mem_cons_of_mem _ more)) digests' whole' room
    exact ⟨whole'', st'', digests'', by rw [processAll, Stack.bind_run ran, ran']⟩

/-- An implementation with the parameters of a specification is correct. -/
theorem correct [NeZero n] (imp : Implements alg spec)
    (roomy : ∀ len : UInt32, len.toNat / Spec.SHA2.sizeBlock n + 2 < 2 ^ (8 * n)) : Correct alg spec where
  hash := fun live live' size size' => hash_run imp live live' size size' (roomy _)
  incremental := by
    intro h hash last len pieces live live' size size' fits accepts room
    obtain ⟨whole, st, digests, ran⟩ := processAll_run imp pieces accepts (init_digests imp alloc)
      (Nat.zero_mod _) (by rw [List.nil_append]; omega)
    rw [List.nil_append] at whole digests
    have counted : st.count.toNat = (pieces.flatMap (Piece.bytes h)).length / Spec.SHA2.sizeBlock n := by
      rw [← digests.count, Nat.mul_div_cancel _ Spec.SHA2.sizeBlock_pos]
    obtain ⟨st', hashed, ran'⟩ := updateLast_run imp digests whole live' len size' fits
      (by rw [counted]; exact room)
    rw [SHA2.incremental, Stack.bind_run ran, Stack.bind_run ran', finish_run imp st' live size, hashed,
      Spec.SHA2.Algorithm.finish_updateLast _ _ whole]

/-- The three hash functions write the hashes of their specifications, at once and in pieces. -/
theorem sha2_correct : Correct sha256 Spec.SHA2.sha256 ∧ Correct sha384 Spec.SHA2.sha384 ∧
    Correct sha512 Spec.SHA2.sha512 := by
  have small : ∀ len : UInt32, len.toNat / Spec.SHA2.sizeBlock 4 + 2 < 2 ^ (8 * 4) := fun len => by
    have bound := len.toNat_lt
    show len.toNat / 64 + 2 < 2 ^ 32
    omega
  have wide : ∀ len : UInt32, len.toNat / Spec.SHA2.sizeBlock 8 + 2 < 2 ^ (8 * 8) := fun len => by
    have bound := len.toNat_lt
    show len.toNat / 128 + 2 < 2 ^ 64
    omega
  exact ⟨correct sha256_implements small, correct sha384_implements wide,
    correct sha512_implements wide⟩

/-- A zero block and a rest that needs two more blocks. -/
theorem sha2_correct_zero :
    incremental sha256 [.update (whole 0 64), .updateMulti (whole 0 64) 1] (whole 1 70) 70 (whole 2 32)
        (zeroMem [64, 70, 32]) =
      some ((), (zeroMem [64, 70, 32]).write (whole 2 32) (Spec.SHA2.sha256.hash
        ([Piece.update (whole 0 64), .updateMulti (whole 0 64) 1].flatMap
          (Piece.bytes (zeroMem [64, 70, 32])) ++ (zeroMem [64, 70, 32]).read (whole 1 70)))) :=
  sha2_correct.1.incremental _ (by decide) (by decide) rfl rfl (by
    show 70 + 8 + 1 < 2 * 64
    decide) (by simp [Piece.Accepts]; decide) (by
    have size := Mem.read_length (show (zeroMem [64, 70, 32]).Live (whole 0 64) by decide)
    simp only [List.flatMap_cons, List.flatMap_nil, Piece.bytes, List.length_append, size]
    decide)

end HaclStar.Correctness.SHA2
