import HaclStar.Tube.PaddedFile

/-! Which sequences of padded file windows carry the content of their file. -/

namespace HaclStar.Correctness.PaddedFile

open Endianness Memory HaclStar.Tube HaclStar.Tube.PaddedFile

/-- Every call, at the position the calls before it lead to, has a property. -/
def AtEach (good : Nat → UInt64 → Prop) : Nat → List UInt64 → Prop
  | _, [] => True
  | pos, len :: lens => good pos len ∧ AtEach good (pos + len.toNat) lens

/-- The call behind some others is one of the calls. -/
theorem AtEach.behind {good : Nat → UInt64 → Prop} {pos : Nat} {before : List UInt64} {len : UInt64}
    {lens : List UInt64} (each : AtEach good pos (before ++ len :: lens)) :
    good (pos + totalLength before) len := by
  induction before generalizing pos with
  | nil => exact each.1
  | cons first before ih =>
    rw [totalLength_cons, ← Nat.add_assoc]
    exact ih each.2

section Reading

/-- A window at this position is read correctly: it starts in the first 2 GiB, or nothing but zeros are
expected there and found at the position modulo 2^32. -/
def ReadsRight (content : Bytes) (pos : Nat) (len : UInt64) : Prop :=
  pos < 2 ^ 31 ∨
    padded content pos len.toNat = List.replicate len.toNat 0 ∧
      if pos % 2 ^ 32 < 2 ^ 31 then padded content (pos % 2 ^ 32) len.toNat = List.replicate len.toNat 0
      else ¬ (2 ^ 32 ≤ pos % 2 ^ 32 + len.toNat ∧ pos % 2 ^ 32 + len.toNat ≤ 2 ^ 32 + content.length)

/-- A file open for reading at some position. -/
def readingAt (content : Bytes) (pos : Nat) : Handle := ⟨UInt64.ofNat content.length, content, UInt64.ofNat pos⟩

variable {content : Bytes}

/-- The bytes that one call hands out, if they can be read. -/
def windowBytes (content : Bytes) (low : Nat) (len : Nat) : Option Bytes :=
  if low < 2 ^ 31 then some (padded content low len)
  else if 2 ^ 32 ≤ low + len ∧ low + len ≤ 2 ^ 32 + content.length then none
  else some (List.replicate len 0)

/-- Behind the content there are only zeros. -/
theorem padded_behind {pos : Nat} (behind : content.length ≤ pos) (len : Nat) :
    padded content pos len = List.replicate len 0 := by
  apply List.ext_getElem?
  intro i
  rw [padded_getElem?, List.getElem?_replicate, List.getD_eq_default _ _ (by omega)]

/-- Inside the content no padding is needed. -/
theorem padded_inside {pos len : Nat} (inside : pos + len ≤ content.length) :
    padded content pos len = (content.drop pos).take len := by
  have window := window_eq_padded content pos (Nat.le_refl len)
  rw [Nat.min_eq_left (by omega), List.drop_append_of_le_length (by omega),
    List.take_append_of_le_length (by rw [List.length_drop]; omega)] at window
  exact window.symm

/-- A window across the end of the content is its rest with zeros behind. -/
theorem padded_across {pos len room : Nat} (start : pos ≤ content.length) (fits : len ≤ room) :
    ((splice (List.replicate room 0) 0 ((content.drop pos).take (content.length - pos)))).take len =
      padded content pos len := by
  have rest : (content.drop pos).take (content.length - pos) = content.drop pos :=
    List.take_of_length_le (by rw [List.length_drop])
  rw [rest, splice_start, List.drop_replicate, List.length_drop]
  apply List.ext_getElem?
  intro i
  rw [padded_getElem?, List.getElem?_take]
  split
  next inside =>
    rw [List.getElem?_append, List.length_drop, List.getElem?_drop, List.getElem?_replicate]
    split
    · rw [List.getD_eq_getElem _ _ (by omega), List.getElem?_eq_getElem (by omega)]
    · rw [List.getD_eq_default _ _ (by omega), if_pos (by omega)]
  next => rfl

/-- What one call hands out, read before the next one. -/
theorem fileNextReadBuffer_read {len : UInt64} (size : content.length < 2 ^ 32) (block : len ≤ maxBlockSize)
    (pos : Nat) :
    ∃ w, PaddedFile.fileNextReadBuffer (readingAt content pos) len = some (w, readingAt content (pos + len.toNat)) ∧
      readWindow (readingAt content (pos + len.toNat)) w len.toNat =
        windowBytes content (pos % 2 ^ 32) len.toNat := by
  have short : len.toNat ≤ 262144 := UInt64.le_iff_toNat_le.mp block
  have total : (UInt64.ofNat content.length).toNat = content.length := by
    rw [UInt64.toNat_ofNat']
    omega
  have next : UInt64.ofNat pos + len = UInt64.ofNat (pos + len.toNat) := by
    apply UInt64.toNat.inj
    rw [UInt64.toNat_add, UInt64.toNat_ofNat', UInt64.toNat_ofNat']
    omega
  have zeros : (List.replicate maxBlockSize.toNat (0 : UInt8)).take len.toNat = List.replicate len.toNat 0 := by
    rw [List.take_replicate, Nat.min_eq_left (UInt64.le_iff_toNat_le.mp block)]
  have unchecked : ¬ maxBlockSize.toNat < len.toNat := Nat.not_lt.mpr (UInt64.le_iff_toNat_le.mp block)
  have low := Nat.mod_lt pos (show 0 < 2 ^ 32 by decide)
  simp only [PaddedFile.fileNextReadBuffer, readingAt, if_neg unchecked, next, toInt_ofNat, UInt64.le_iff_toNat_le,
    UInt64.lt_iff_toNat_lt, gt_iff_lt, UInt64.toNat_add, total, windowBytes]
  generalize pos % 2 ^ 32 = q at low ⊢
  by_cases positive : q < 2 ^ 31
  · -- The position survives the conversions, and the three branches are the three places of the window.
    simp only [if_pos positive, toUInt64_nonneg positive]
    rw [Nat.mod_eq_of_lt (show q + len.toNat < 2 ^ 64 by omega)]
    by_cases inside : q + len.toNat ≤ content.length
    · refine ⟨.mapped q, by rw [if_pos inside], ?_⟩
      rw [readWindow, readMapped, if_pos ⟨by omega, by exact_mod_cast inside⟩, padded_inside inside]
      rfl
    · rw [if_neg inside]
      by_cases start : q ≤ content.length
      · have left : (UInt64.ofNat content.length - toUInt64 (q : Int)).toNat = content.length - q := by
          rw [UInt64.toNat_sub_of_le _ _
            (UInt64.le_iff_toNat_le.mpr (by rw [total, toUInt64_nonneg positive]; exact start)),
            total, toUInt64_nonneg positive]
        have rest : readMapped ⟨UInt64.ofNat content.length, content, UInt64.ofNat pos⟩ q (content.length - q) =
            some ((content.drop q).take (content.length - q)) := by
          rw [readMapped, if_pos ⟨by omega, by push_cast [Nat.cast_sub start]; omega⟩]
          rfl
        refine ⟨.last (splice (List.replicate maxBlockSize.toNat 0) 0
          ((content.drop q).take (content.length - q))), ?_, ?_⟩
        · rw [if_pos ⟨start, by omega⟩, left, rest]
          rfl
        · rw [readWindow, padded_across start (UInt64.le_iff_toNat_le.mp block)]
      · refine ⟨.last (List.replicate maxBlockSize.toNat 0), by rw [if_neg (by omega)], ?_⟩
        rw [readWindow, zeros, padded_behind (by omega)]
  · -- The position has become negative, which as an unsigned number lies behind every file.
    simp only [if_neg positive, toUInt64_neg (by omega : 2 ^ 31 ≤ q) low]
    by_cases wraps : 2 ^ 32 ≤ q + len.toNat ∧ q + len.toNat ≤ 2 ^ 32 + content.length
    · refine ⟨.mapped ((q : Int) - 2 ^ 32), by rw [if_pos (by omega)], ?_⟩
      rw [readWindow, readMapped, if_neg (by omega), if_pos wraps]
    · refine ⟨.last (List.replicate maxBlockSize.toNat 0), by rw [if_neg (by omega), if_neg (by omega)], ?_⟩
      rw [readWindow, zeros, if_neg wraps]

/-- What a call hands out is right exactly under the condition on its position. -/
theorem windowBytes_right (size : content.length < 2 ^ 32) (pos : Nat) (len : UInt64) :
    windowBytes content (pos % 2 ^ 32) len.toNat = some (padded content pos len.toNat) ↔
      ReadsRight content pos len := by
  rw [windowBytes, ReadsRight]
  by_cases early : pos < 2 ^ 31
  · rw [Nat.mod_eq_of_lt (by omega), if_pos early]
    exact ⟨fun _ => Or.inl early, fun _ => rfl⟩
  · rw [or_iff_right early]
    by_cases positive : pos % 2 ^ 32 < 2 ^ 31
    · -- A position that has wrapped lies behind the content, so that only zeros are right.
      have behind := padded_behind (show content.length ≤ pos by omega) len.toNat
      rw [if_pos positive, if_pos positive, behind, Option.some_inj, eq_self, true_and]
    · rw [if_neg positive, if_neg positive]
      split
      next wraps => exact ⟨fun impossible => (nomatch impossible), fun both => absurd wraps both.2⟩
      next wraps =>
        rw [Option.some_inj]
        exact ⟨fun same => ⟨same.symm, wraps⟩, fun both => both.1.symm⟩

/-- The windows together are the padded content exactly when every call is right. -/
theorem readAll_right (size : content.length < 2 ^ 32) {lens : List UInt64}
    (blocks : ∀ len ∈ lens, len ≤ maxBlockSize) (pos : Nat) :
    (∃ pieces, readAll (readingAt content pos) lens = some pieces ∧
      pieces.flatten = padded content pos (totalLength lens)) ↔ AtEach (ReadsRight content) pos lens := by
  -- Every piece has the length that was asked for, so that the whole is right when each piece is.
  induction lens generalizing pos with
  | nil => exact ⟨fun _ => trivial, fun _ => ⟨[], rfl, rfl⟩⟩
  | cons len lens ih =>
    obtain ⟨w, given, bytes⟩ := fileNextReadBuffer_read size (blocks len List.mem_cons_self) pos
    have rest := ih (fun len member => blocks len (List.mem_cons_of_mem _ member)) (pos + len.toNat)
    have step : readAll (readingAt content pos) (len :: lens) =
        (windowBytes content (pos % 2 ^ 32) len.toNat).bind fun first =>
          (readAll (readingAt content (pos + len.toNat)) lens).bind fun rest => some (first :: rest) := by
      rw [readAll, given, ← bytes]
      rfl
    rw [AtEach, ← windowBytes_right size, ← rest, step, totalLength_cons, padded_append]
    constructor
    · rintro ⟨pieces, ran, joined⟩
      obtain ⟨first, found, ran⟩ := Option.bind_eq_some_iff.mp ran
      obtain ⟨others, later, ran⟩ := Option.bind_eq_some_iff.mp ran
      cases ran
      have length : first.length = (padded content pos len.toNat).length := by
        rw [windowBytes] at found
        split at found
        next => cases found; rw [padded_length, padded_length]
        next =>
          split at found
          next => cases found
          next => cases found; rw [List.length_replicate, padded_length]
      obtain ⟨head, tail⟩ := List.append_inj joined length
      exact ⟨by rw [found, head], others, later, tail⟩
    · rintro ⟨found, others, later, joined⟩
      refine ⟨padded content pos len.toNat :: others, by rw [found, later]; rfl, ?_⟩
      rw [List.flatten_cons, joined]

end Reading

section Writing

/-- The windows lie one behind the other in the mapped area, and the scratch buffer is handed out only when
they have covered the file. -/
def Covers (size : UInt64) : Nat → List (UInt64 × Window) → Prop
  | _, [] => True
  | pos, (len, .mapped offset) :: windows =>
    offset = pos ∧ pos + len.toNat ≤ size.toNat + maxBlockSize.toNat ∧ Covers size (pos + len.toNat) windows
  | pos, (_, .last _) :: windows => size.toNat ≤ pos ∧ Covers size pos windows

/-- A call for a window to write to starts in the first 2 GiB, or behind the file. -/
def WritesRight (size : UInt64) (pos : Nat) (_ : UInt64) : Prop := pos < 2 ^ 31 ∨ size.toNat ≤ pos

/-- A file open for writing at some position. -/
def writingAt (size : UInt64) (pos : Nat) : Handle :=
  { PaddedFile.fileOpenWriteSequential size with current := UInt64.ofNat pos }

variable {size : UInt64}

/-- The scratch buffer as it is handed out. -/
def scratch : Window := .last (List.replicate maxBlockSize.toNat 0)

/-- One call in the first 2 GiB: a window of the file while there is room, and the scratch buffer after that. -/
theorem fileNextWriteBuffer_early {len : UInt64} (small : size.toNat < 2 ^ 32) (block : len ≤ maxBlockSize)
    {pos : Nat} (early : pos < 2 ^ 31) :
    PaddedFile.fileNextWriteBuffer (writingAt size pos) len =
      if pos + len.toNat ≤ size.toNat + maxBlockSize.toNat then
        some (.mapped pos, writingAt size (pos + len.toNat))
      else some (scratch, writingAt size pos) := by
  have short : len.toNat ≤ 262144 := UInt64.le_iff_toNat_le.mp block
  have next : UInt64.ofNat pos + len = UInt64.ofNat (pos + len.toNat) := by
    apply UInt64.toNat.inj
    rw [UInt64.toNat_add, UInt64.toNat_ofNat', UInt64.toNat_ofNat']
    omega
  have low : pos % 2 ^ 32 = pos := Nat.mod_eq_of_lt (by omega)
  have kept : toInt (UInt64.ofNat pos) = pos := by rw [toInt_ofNat, low, if_pos early]
  have inside : toUInt64 (pos : Int) + len ≤ size + maxBlockSize ↔
      pos + len.toNat ≤ size.toNat + maxBlockSize.toNat := by
    rw [UInt64.le_iff_toNat_le, UInt64.toNat_add, UInt64.toNat_add, toUInt64_nonneg early, maxBlockSize_toNat]
    omega
  rw [PaddedFile.fileNextWriteBuffer]
  simp only [writingAt, PaddedFile.fileOpenWriteSequential, if_neg (UInt64.not_lt.mpr block), inside, next, kept]
  rfl

/-- One call behind the first 2 GiB hands out the scratch buffer and stays where it is. -/
theorem fileNextWriteBuffer_late {len : UInt64} (small : size.toNat < 2 ^ 32) (block : len ≤ maxBlockSize)
    {pos : Nat} (late : 2 ^ 31 ≤ pos) (close : pos < 2 ^ 31 + 2 ^ 19) :
    PaddedFile.fileNextWriteBuffer (writingAt size pos) len = some (scratch, writingAt size pos) := by
  have short : len.toNat ≤ 262144 := UInt64.le_iff_toNat_le.mp block
  have low : pos % 2 ^ 32 = pos := Nat.mod_eq_of_lt (by omega)
  have lost : toInt (UInt64.ofNat pos) = (pos : Int) - 2 ^ 32 := by
    rw [toInt_ofNat, low, if_neg (by omega)]
  have outside : ¬ toUInt64 ((pos : Int) - 2 ^ 32) + len ≤ size + maxBlockSize := by
    rw [UInt64.le_iff_toNat_le, UInt64.toNat_add, UInt64.toNat_add, toUInt64_neg late (by omega), maxBlockSize_toNat]
    omega
  rw [PaddedFile.fileNextWriteBuffer]
  simp only [writingAt, PaddedFile.fileOpenWriteSequential, if_neg (UInt64.not_lt.mpr block), lost, if_neg outside]
  rfl

/-- Calls behind the file are right, wherever they start. -/
theorem writesRight_behind {pos : Nat} (behind : size.toNat ≤ pos) (lens : List UInt64) :
    AtEach (WritesRight size) pos lens := by
  induction lens generalizing pos with
  | nil => trivial
  | cons len lens ih => exact ⟨Or.inr behind, ih (by omega)⟩

/-- One call and the ones behind it. -/
theorem writeAll_cons {fh fh' : Handle} {len : UInt64} {w : Window}
    (given : PaddedFile.fileNextWriteBuffer fh len = some (w, fh')) (lens : List UInt64) :
    writeAll fh (len :: lens) = (writeAll fh' lens).bind fun rest => some ((len, w) :: rest) := by
  rw [writeAll, given]
  rfl

/-- The windows cover the file in order exactly when every call is right. -/
theorem writeAll_covers (small : size.toNat < 2 ^ 32) {lens : List UInt64}
    (blocks : ∀ len ∈ lens, len ≤ maxBlockSize) {pos : Nat} (close : pos < 2 ^ 31 + 2 ^ 19) :
    (∃ windows, writeAll (writingAt size pos) lens = some windows ∧ Covers size pos windows) ↔
      AtEach (WritesRight size) pos lens := by
  -- A window moves the position on, the scratch buffer leaves it; behind 2 GiB there is only the latter.
  induction lens generalizing pos with
  | nil => exact ⟨fun _ => trivial, fun _ => ⟨[], rfl, trivial⟩⟩
  | cons len lens ih =>
    have block := blocks len List.mem_cons_self
    have others : ∀ len ∈ lens, len ≤ maxBlockSize := fun len member => blocks len (List.mem_cons_of_mem _ member)
    have short : len.toNat ≤ 262144 := UInt64.le_iff_toNat_le.mp block
    have stays (given : PaddedFile.fileNextWriteBuffer (writingAt size pos) len = some (scratch, writingAt size pos)) :
        (∃ windows, writeAll (writingAt size pos) (len :: lens) = some windows ∧ Covers size pos windows) ↔
          size.toNat ≤ pos := by
      rw [writeAll_cons given]
      constructor
      · rintro ⟨windows, ran, covered⟩
        obtain ⟨rest, _, ran⟩ := Option.bind_eq_some_iff.mp ran
        cases ran
        exact covered.1
      · intro behind
        obtain ⟨rest, ran, covered⟩ := (ih others close).mpr (writesRight_behind behind lens)
        exact ⟨_, Option.bind_eq_some_iff.mpr ⟨rest, ran, rfl⟩, behind, covered⟩
    rw [AtEach]
    by_cases early : pos < 2 ^ 31
    · have given := fileNextWriteBuffer_early small block early
      by_cases inside : pos + len.toNat ≤ size.toNat + maxBlockSize.toNat
      · rw [if_pos inside] at given
        rw [writeAll_cons given, ← ih others (by omega)]
        constructor
        · rintro ⟨windows, ran, covered⟩
          obtain ⟨rest, later, ran⟩ := Option.bind_eq_some_iff.mp ran
          cases ran
          exact ⟨Or.inl early, rest, later, covered.2.2⟩
        · rintro ⟨_, rest, later, covered⟩
          exact ⟨_, Option.bind_eq_some_iff.mpr ⟨rest, later, rfl⟩, rfl, inside, covered⟩
      · rw [if_neg inside] at given
        rw [maxBlockSize_toNat] at inside
        rw [stays given]
        exact ⟨fun behind => ⟨Or.inl early, writesRight_behind (by omega) lens⟩, fun _ => by omega⟩
    · rw [stays (fileNextWriteBuffer_late small block (by omega) close)]
      constructor
      · intro behind
        exact ⟨Or.inr behind, writesRight_behind (by omega) lens⟩
      · rintro ⟨right, _⟩
        exact right.resolve_left early

end Writing

/-- Padded file windows read the content followed by zeros, and cover the file before the scratch buffer is
used, exactly when no window that matters starts behind the first 2 GiB. -/
theorem padded_file_windows (content : Bytes) (size : UInt64) (lens : List UInt64) (small : content.length < 2 ^ 32)
    (small' : size.toNat < 2 ^ 32) (blocks : ∀ len ∈ lens, len ≤ maxBlockSize) :
    ((∃ pieces, readAll (PaddedFile.fileOpenReadSequential content) lens = some pieces ∧
      pieces.flatten = padded content 0 (totalLength lens)) ↔ AtEach (ReadsRight content) 0 lens) ∧
    ((∃ windows, writeAll (PaddedFile.fileOpenWriteSequential size) lens = some windows ∧ Covers size 0 windows) ↔
      AtEach (WritesRight size) 0 lens) := by
  constructor
  · exact readAll_right small blocks 0
  · exact writeAll_covers small' blocks (by decide)

/-- A file of three bytes, read and written in two windows. -/
theorem padded_file_windows_short :
    (∃ pieces, readAll (PaddedFile.fileOpenReadSequential [1, 2, 3]) [2, 2] = some pieces ∧
      pieces.flatten = padded [1, 2, 3] 0 (totalLength [2, 2])) ∧
    ∃ windows, writeAll (PaddedFile.fileOpenWriteSequential 3) [2, 2] = some windows ∧ Covers 3 0 windows := by
  have block : (2 : UInt64) ≤ maxBlockSize := by decide
  have blocks : ∀ len ∈ ([2, 2] : List UInt64), len ≤ maxBlockSize := by
    intro len member
    rw [List.eq_of_mem_replicate (n := 2) member]
    exact block
  have second : 0 + (2 : UInt64).toNat < 2 ^ 31 := by decide
  have right := padded_file_windows [1, 2, 3] 3 [2, 2] (by decide) (by decide) blocks
  exact ⟨right.1.mpr ⟨Or.inl (Nat.two_pow_pos 31), Or.inl second, trivial⟩,
    right.2.mpr ⟨Or.inl (Nat.two_pow_pos 31), Or.inl second, trivial⟩⟩

/-- A file of 2 GiB and a byte is not read to its end: the last byte comes back as zero. -/
theorem padded_file_windows_fails :
    ¬ ∀ (content : Bytes) (lens : List UInt64), content.length < 2 ^ 32 → (∀ len ∈ lens, len ≤ maxBlockSize) →
      ∃ pieces, readAll (PaddedFile.fileOpenReadSequential content) lens = some pieces ∧
        pieces.flatten = padded content 0 (totalLength lens) := by
  intro every
  obtain ⟨content, filled⟩ : ∃ content, content = List.replicate (2 ^ 31 + 1) (1 : UInt8) := ⟨_, rfl⟩
  have length : content.length = 2 ^ 31 + 1 := by rw [filled, List.length_replicate]
  have size : content.length < 2 ^ 32 := by omega
  have blocks : ∀ len ∈ List.replicate 8192 maxBlockSize ++ [1], len ≤ maxBlockSize := by
    intro len member
    rcases List.mem_append.mp member with full | last
    · rw [List.eq_of_mem_replicate full]
      exact UInt64.le_refl _
    · rw [List.mem_singleton.mp last]
      decide
  have each := (readAll_right size blocks 0).mp (every _ _ size blocks)
  have total : 0 + totalLength (List.replicate 8192 maxBlockSize) = 2 ^ 31 := by
    rw [totalLength, List.map_replicate, List.sum_replicate, maxBlockSize_toNat]
    norm_num
  rcases each.behind with early | ⟨zeros, _⟩
  · omega
  · -- The byte at position 2^31 is one, not zero.
    have byte : content.getD (2 ^ 31) 0 = 1 := by
      have all : ∀ byte ∈ content, byte = 1 := by
        rw [filled]
        exact fun byte => List.eq_of_mem_replicate
      have inside : 2 ^ 31 < content.length := by omega
      rw [List.getD_eq_getElem _ _ inside]
      exact all _ (List.getElem_mem inside)
    have first := congrArg (·[0]?) zeros
    rw [total] at first
    simp only [padded_getElem?, Nat.add_zero, byte] at first
    exact absurd first (by decide)

end HaclStar.Correctness.PaddedFile
