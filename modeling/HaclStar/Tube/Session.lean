import HaclStar.Tube.World

/-! What a file looks like on the wire: fragments of its content, numbered by the nonces of their boxes. -/

namespace HaclStar.Tube

open Endianness Memory

/-- The content of a file from a position on, followed by zeros. -/
def padded (content : Bytes) (pos len : Nat) : Bytes := (List.range' pos len).map (content.getD · 0)

/-- The content cut into fragments of the given lengths, from a position on. -/
def fragmentsFrom (content : Bytes) : Nat → List UInt64 → List Bytes
  | _, [] => []
  | pos, len :: lens => padded content pos len.toNat :: fragmentsFrom content (pos + len.toNat) lens

/-- The lengths of the fragments that carry `total` bytes: full blocks and, if need be, a shorter one. -/
def fragmentLengths (total : UInt64) : List UInt64 :=
  List.replicate (total / blocksize).toNat blocksize ++
    if total % blocksize = 0 then [] else [total % blocksize]

/-- The nonce of a box: the session id and the sequence number. -/
def nonceOf (sid : Bytes) (seqno : UInt64) : Bytes := sid ++ store64Le seqno

/-- Messages under consecutive nonces. -/
def numbered (sid : Bytes) : UInt64 → List Bytes → List (Bytes × Bytes)
  | _, [] => []
  | seqno, m :: ms => (nonceOf sid seqno, m) :: numbered sid (seqno + 1) ms

/-- The boxes around numbered messages, one behind the other. -/
def wire (nacl : NaCl) (key : Bytes) (messages : List (Bytes × Bytes)) : Bytes :=
  messages.flatMap fun message => nacl.boxEasyAfternm message.2 message.1 key

section Padded

variable {content : Bytes} {pos len : Nat}

/-- A padded window has the length that was asked for. -/
@[simp] theorem padded_length (content : Bytes) (pos len : Nat) : (padded content pos len).length = len := by
  simp [padded]

/-- Neighbouring windows join. -/
theorem padded_append (content : Bytes) (pos first second : Nat) :
    padded content pos (first + second) = padded content pos first ++ padded content (pos + first) second := by
  rw [padded, padded, padded, ← List.map_append, List.range'_append_1]

/-- A byte of a padded window. -/
theorem padded_getElem? (content : Bytes) (pos len i : Nat) :
    (padded content pos len)[i]? = if i < len then some (content.getD (pos + i) 0) else none := by
  rw [padded, List.getElem?_map]
  by_cases inside : i < len
  · simp [inside]
  · simp [inside]

/-- The window of a file whose position stops at the end of the content. -/
theorem window_eq_padded (content : Bytes) (pos : Nat) {len room : Nat} (fits : len ≤ room) :
    ((content ++ List.replicate room 0).drop (min pos content.length)).take len = padded content pos len := by
  apply List.ext_getElem?
  intro i
  rw [padded_getElem?]
  by_cases inside : i < len
  · rw [List.getElem?_take_of_lt inside, List.getElem?_drop, if_pos inside]
    rcases Nat.lt_or_ge (pos + i) content.length with within | beyond
    · -- Inside the content the position is the one that was asked for.
      rw [Nat.min_eq_left (by omega), List.getElem?_append_left within, List.getD_eq_getElem?_getD,
        List.getElem?_eq_getElem within, Option.getD_some]
    · -- Behind the content there are zeros, wherever the position stopped.
      rw [List.getElem?_append_right (by omega), List.getElem?_replicate, if_pos (by omega),
        List.getD_eq_default _ _ beyond]
  · rw [if_neg inside, List.getElem?_eq_none (by rw [List.length_take]; omega)]

/-- Enough of the padded content starts with the content. -/
theorem padded_take (content : Bytes) {total : Nat} (enough : content.length ≤ total) :
    (padded content 0 total).take content.length = content := by
  apply List.ext_getElem?
  intro i
  rcases Nat.lt_or_ge i content.length with within | beyond
  · rw [List.getElem?_take_of_lt within, padded_getElem?, if_pos (by omega), Nat.zero_add,
      List.getD_eq_getElem?_getD, List.getElem?_eq_getElem within, Option.getD_some]
  · rw [List.getElem?_eq_none (by rw [List.length_take]; omega), List.getElem?_eq_none beyond]

end Padded

section Lengths

/-- The total of a list of lengths. -/
def totalLength (lens : List UInt64) : Nat := (lens.map UInt64.toNat).sum

@[simp] theorem totalLength_nil : totalLength [] = 0 := rfl

@[simp] theorem totalLength_cons (len : UInt64) (lens : List UInt64) :
    totalLength (len :: lens) = len.toNat + totalLength lens := by
  simp [totalLength]

/-- The block size as a number. -/
theorem blocksize_toNat : blocksize.toNat = 262144 := by decide

/-- A file shorter than a block travels in one fragment, or in none when it is empty. -/
theorem fragmentLengths_short {total : UInt64} (short : total < blocksize) :
    fragmentLengths total = if total = 0 then [] else [total] := by
  have bound : total.toNat < 262144 := by simpa [UInt64.lt_iff_toNat_lt, blocksize_toNat] using short
  have quotient : (total / blocksize).toNat = 0 := by
    rw [UInt64.toNat_div, blocksize_toNat]; omega
  have remainder : total % blocksize = total := by
    rw [← UInt64.toNat_inj, UInt64.toNat_mod, blocksize_toNat]; omega
  simp [fragmentLengths, quotient, remainder]

/-- A longer file starts with a full fragment. -/
theorem fragmentLengths_full {total : UInt64} (full : ¬ total < blocksize) :
    fragmentLengths total = blocksize :: fragmentLengths (total - blocksize) := by
  have bound : 262144 ≤ total.toNat := by simpa [UInt64.lt_iff_toNat_lt, blocksize_toNat] using full
  have less : (total - blocksize).toNat = total.toNat - 262144 := by
    rw [UInt64.toNat_sub_of_le _ _ (by rw [UInt64.le_iff_toNat_le, blocksize_toNat]; omega), blocksize_toNat]
  have quotient : (total / blocksize).toNat = ((total - blocksize) / blocksize).toNat + 1 := by
    rw [UInt64.toNat_div, UInt64.toNat_div, less, blocksize_toNat]; omega
  have remainder : total % blocksize = (total - blocksize) % blocksize := by
    rw [← UInt64.toNat_inj, UInt64.toNat_mod, UInt64.toNat_mod, less, blocksize_toNat]; omega
  rw [fragmentLengths, quotient, remainder, List.replicate_succ, List.cons_append, ← fragmentLengths]

/-- The lengths of the fragments are between one and the block size. -/
theorem fragmentLengths_bounds {total len : UInt64} (member : len ∈ fragmentLengths total) :
    0 < len.toNat ∧ len.toNat ≤ blocksize.toNat := by
  rw [fragmentLengths, List.mem_append] at member
  rcases member with full | rest
  · rw [List.eq_of_mem_replicate full, blocksize_toNat]; omega
  · split at rest
    · simp at rest
    · next nonzero =>
      rw [List.mem_singleton.mp rest, UInt64.toNat_mod, blocksize_toNat]
      have positive : (total % blocksize).toNat ≠ 0 := fun zero => nonzero (UInt64.toNat_inj.mp zero)
      rw [UInt64.toNat_mod, blocksize_toNat] at positive
      omega

/-- The fragments carry as many bytes as were asked for. -/
theorem fragmentLengths_total (total : UInt64) : totalLength (fragmentLengths total) = total.toNat := by
  have blocks (n : Nat) : ((List.replicate n blocksize).map UInt64.toNat).sum = n * 262144 := by
    simp [blocksize_toNat]
  rw [fragmentLengths, totalLength, List.map_append, List.sum_append, blocks, UInt64.toNat_div, blocksize_toNat]
  have split := Nat.div_add_mod total.toNat 262144
  by_cases zero : total % blocksize = 0
  · have value := congrArg UInt64.toNat zero
    rw [UInt64.toNat_mod, blocksize_toNat, UInt64.toNat_zero] at value
    simp only [zero, if_pos, List.map_nil, List.sum_nil]
    omega
  · simp only [zero, if_false, List.map_cons, List.map_nil, List.sum_cons, List.sum_nil, UInt64.toNat_mod,
      blocksize_toNat]
    omega

end Lengths

section Fragments

variable (content : Bytes) (pos : Nat)

/-- There is one fragment for each length. -/
@[simp] theorem fragmentsFrom_length (lens : List UInt64) :
    (fragmentsFrom content pos lens).length = lens.length := by
  induction lens generalizing pos with
  | nil => rfl
  | cons len lens ih => simp [fragmentsFrom, ih]

/-- The fragments together are the padded content. -/
theorem fragmentsFrom_flatten (lens : List UInt64) :
    (fragmentsFrom content pos lens).flatten = padded content pos (totalLength lens) := by
  -- Each fragment continues where the one before it ended.
  induction lens generalizing pos with
  | nil => simp [fragmentsFrom, padded]
  | cons len lens ih => rw [fragmentsFrom, List.flatten_cons, ih, totalLength_cons, padded_append]

/-- The lengths of the fragments are those asked for. -/
theorem fragmentsFrom_map_length (lens : List UInt64) :
    (fragmentsFrom content pos lens).map List.length = lens.map UInt64.toNat := by
  induction lens generalizing pos with
  | nil => rfl
  | cons len lens ih => simp [fragmentsFrom, ih]

end Fragments

section Nonces

variable {sid : Bytes}

/-- The eight bytes of a number. -/
@[simp] theorem store64Le_length (z : UInt64) : (store64Le z).length = 8 := by simp [store64Le]

/-- Reading back the eight bytes of a number. -/
theorem load64Le_store64Le (z : UInt64) (rest : Bytes) : load64Le (store64Le z ++ rest) = z := by
  rw [load64Le, List.take_left' (store64Le_length z), store64Le, littleEndian_littleBytes,
    Nat.mod_eq_of_lt (by simpa using z.toNat_lt), UInt64.ofNat_toNat]

/-- Distinct numbers have distinct bytes. -/
theorem store64Le_injective {y z : UInt64} (same : store64Le y = store64Le z) : y = z := by
  have read := congrArg (fun bytes => load64Le (bytes ++ [])) same
  simpa only [load64Le_store64Le] using read

/-- The session id and the sequence number can be read off a nonce. -/
theorem nonceOf_injective {sid' : Bytes} {y z : UInt64} (size : sid.length = sid'.length)
    (same : nonceOf sid y = nonceOf sid' z) : sid = sid' ∧ y = z := by
  obtain ⟨first, second⟩ := List.append_inj same size
  exact ⟨first, store64Le_injective second⟩

/-- There is one nonce for each message. -/
@[simp] theorem numbered_length (sid : Bytes) (seqno : UInt64) (ms : List Bytes) :
    (numbered sid seqno ms).length = ms.length := by
  induction ms generalizing seqno with
  | nil => rfl
  | cons m ms ih => simp [numbered, ih]

/-- Numbering keeps the messages. -/
theorem numbered_messages (sid : Bytes) (seqno : UInt64) (ms : List Bytes) :
    (numbered sid seqno ms).map Prod.snd = ms := by
  induction ms generalizing seqno with
  | nil => rfl
  | cons m ms ih => simp [numbered, ih]

/-- A numbered message carries its sequence number in its nonce. -/
theorem numbered_getElem? (sid : Bytes) (seqno : UInt64) (ms : List Bytes) (i : Nat) :
    (numbered sid seqno ms)[i]? = ms[i]?.map (nonceOf sid (seqno + UInt64.ofNat i), ·) := by
  induction ms generalizing seqno i with
  | nil => simp [numbered]
  | cons m ms ih =>
    cases i with
    | zero => simp [numbered]
    | succ i =>
      have next : seqno + 1 + UInt64.ofNat i = seqno + UInt64.ofNat (i + 1) := by
        rw [UInt64.ofNat_add, UInt64.add_assoc, UInt64.add_comm 1]
        rfl
      rw [numbered, List.getElem?_cons_succ, List.getElem?_cons_succ, ih, next]

end Nonces

end HaclStar.Tube
