import HaclStar.SecureApi.UF1CMA

/-! What is authenticated: the additional data and the ciphertext, padded, and their lengths. -/

namespace HaclStar.SecureApi.Encoding

open Endianness Memory UF1CMA

/-- One TLS fragment. -/
def txtmax : Nat := 16485

/-- More than enough for TLS. -/
def aadmax : Nat := 2000

def pad0 (b : Bytes) (l : Nat) : Bytes := b ++ List.replicate l 0

/-- The words of a text, the last one padded with zeros; the last word comes first. -/
def encodeBytes (txt : Bytes) : Text :=
  if txt.length = 0 then []
  else if txt.length < 16 then [pad0 txt (16 - txt.length)]
  else encodeBytes (txt.drop 16) ++ [txt.take 16]
termination_by txt.length
decreasing_by rw [List.length_drop]; omega

/-- Fill a word with zeros from a position on. -/
def pad16 (b : Bytes) (len : Nat) : Bytes := splice b len (List.replicate (16 - len) 0)

/-- Absorb a text word by word, the last one padded. -/
def addBytes {i : Id} (fl : Flags) (st : State i) (acc : Acc i) (txt : Bytes) : Option (Acc i) :=
  if txt.length = 0 then some acc
  else if txt.length < 16 then
    let w := List.replicate 16 0
    let w := splice w 0 txt
    let w := pad16 w txt.length
    update fl st acc w
  else do
    let acc ← update fl st acc (txt.take 16)
    addBytes fl st acc (txt.drop 16)
termination_by txt.length
decreasing_by rw [List.length_drop]; omega

def encodeLengthsPoly1305 (aadlen plainlen : UInt32) : Bytes :=
  let b0 := List.replicate 4 0
  let ba := littleBytes 4 aadlen.toNat
  let bp := littleBytes 4 plainlen.toNat
  ba ++ (b0 ++ (bp ++ b0))

def storeLengthsPoly1305 (aadlen plainlen : UInt32) (w : Bytes) : Bytes :=
  let w := splice w 0 (littleBytes 4 aadlen.toNat)
  splice w 8 (littleBytes 4 plainlen.toNat)

def encodeLengthsGhash (aadlen txtlen : UInt32) : Bytes :=
  let b0 := List.replicate 4 0
  let ba := bigBytes 4 ((8 : UInt32) * aadlen).toNat
  let bp := bigBytes 4 ((8 : UInt32) * txtlen).toNat
  b0 ++ (ba ++ (b0 ++ bp))

def storeLengthsGhash (aadlen txtlen : UInt32) (w : Bytes) : Bytes :=
  let w := splice w 4 (bigBytes 4 ((8 : UInt32) * aadlen).toNat)
  splice w 12 (bigBytes 4 ((8 : UInt32) * txtlen).toNat)

def encodeLengths (i : Id) (aadlen txtlen : UInt32) : Bytes :=
  match macAlgOfId i with
  | .poly1305 => encodeLengthsPoly1305 aadlen txtlen
  | .ghash => encodeLengthsGhash aadlen txtlen

/-- The words of both texts, behind the word of their lengths. -/
def encodeBoth (i : Id) (aadlen : UInt32) (aad : Bytes) (txtlen : UInt32) (cipher : Bytes) : Text :=
  encodeLengths i aadlen txtlen :: (encodeBytes cipher ++ encodeBytes aad)

def storeLengths (i : Id) (aadlen txtlen : UInt32) (w : Bytes) : Bytes :=
  match macAlgOfId i with
  | .poly1305 => storeLengthsPoly1305 aadlen txtlen w
  | .ghash => storeLengthsGhash aadlen txtlen w

/-- Absorb both texts and their lengths. -/
def accumulate {i : Id} (fl : Flags) (st : State i) (aadlen : UInt32) (aad : Bytes) (txtlen : UInt32)
    (cipher : Bytes) : Option (Acc i) := do
  let acc := start st
  let acc ← addBytes fl st acc aad
  let acc ← addBytes fl st acc cipher
  let finalWord := List.replicate 16 0
  let finalWord := storeLengths i aadlen txtlen finalWord
  update fl st acc finalWord

variable {i : Id} {fl : Flags} {st : State i} {acc : Acc i} {rb sb txt aad cipher : Bytes} {cs : Text}
  {aadlen txtlen : UInt32}

@[simp] theorem encodeBytes_nil : encodeBytes [] = [] := by
  rw [encodeBytes]
  rfl

/-- A partial word is padded. -/
theorem encodeBytes_short (some : txt.length ≠ 0) (short : txt.length < 16) :
    encodeBytes txt = [pad0 txt (16 - txt.length)] := by
  rw [encodeBytes, if_neg some, if_pos short]

/-- The first word is encoded last. -/
theorem encodeBytes_word (long : 16 ≤ txt.length) :
    encodeBytes txt = encodeBytes (txt.drop 16) ++ [txt.take 16] := by
  rw [encodeBytes, if_neg (by omega), if_neg (by omega)]

/-- A text has as many words as it needs. -/
theorem encodeBytes_length (txt : Bytes) : (encodeBytes txt).length = (txt.length + 15) / 16 := by
  fun_induction encodeBytes txt with
  | case1 txt empty => simp [empty]
  | case2 txt some short => simp only [List.length_singleton]; omega
  | case3 txt some long ih =>
    rw [List.length_append, ih, List.length_drop, List.length_singleton]
    omega

/-- A padded partial word is stored over a word of zeros. -/
theorem pad16_run (short : txt.length < 16) :
    pad16 (splice (List.replicate 16 0) 0 txt) txt.length = pad0 txt (16 - txt.length) := by
  -- The zeros behind the text are replaced by zeros.
  have cut : List.replicate 16 (0 : UInt8) =
      List.replicate txt.length 0 ++ List.replicate (16 - txt.length) 0 := by
    rw [List.replicate_append_replicate]
    congr 1
    omega
  rw [cut, splice_prefix _ (by simp), pad16, splice_suffix _ (by simp), pad0]

/-- A relation of words and accumulators that every word extends. -/
def Tracks (fl : Flags) (st : State i) (Absorbs : Text → Acc i → Prop) : Prop :=
  ∀ ⦃cs : Text⦄ ⦃acc : Acc i⦄ ⦃w : Bytes⦄, Absorbs cs acc → w.length = 16 →
    ∃ acc', update fl st acc w = some acc' ∧ Absorbs (w :: cs) acc'

/-- The words of a text are absorbed in order. -/
theorem addBytes_run {Absorbs : Text → Acc i → Prop} (tracks : Tracks fl st Absorbs) (absorbed : Absorbs cs acc)
    (txt : Bytes) :
    ∃ acc', addBytes fl st acc txt = some acc' ∧ Absorbs (encodeBytes txt ++ cs) acc' := by
  induction size : txt.length using Nat.strong_induction_on generalizing txt acc cs with
  | _ len ih =>
    by_cases empty : txt.length = 0
    · rw [addBytes, if_pos empty, List.eq_nil_of_length_eq_zero empty, encodeBytes_nil]
      exact ⟨acc, rfl, absorbed⟩
    by_cases short : txt.length < 16
    · rw [addBytes, if_neg empty, if_pos short, encodeBytes_short empty short]
      simp only [pad16_run short]
      exact tracks absorbed (by simp [pad0]; omega)
    · -- A whole word is absorbed before the rest of the text.
      have whole : (txt.take 16).length = 16 := by rw [List.length_take]; omega
      obtain ⟨acc', ran, absorbed'⟩ := tracks absorbed whole
      obtain ⟨acc'', ran', absorbed''⟩ :=
        ih (txt.drop 16).length (by rw [List.length_drop]; omega) absorbed' (txt.drop 16) rfl
      refine ⟨acc'', ?_, ?_⟩
      · rw [addBytes, if_neg empty, if_neg short, ran, Option.bind_eq_bind, Option.bind_some, ran']
      · rw [encodeBytes_word (by omega), List.append_assoc]
        exact absorbed''

/-- The lengths are stored over a word of zeros. -/
theorem storeLengths_run (i : Id) (aadlen txtlen : UInt32) :
    storeLengths i aadlen txtlen (List.replicate 16 0) = encodeLengths i aadlen txtlen := by
  have region : ∀ (first old rest new : Bytes) (start : Nat), first.length = start → new.length = old.length →
      splice (first ++ (old ++ rest)) start new = first ++ (new ++ rest) := by
    intro first old rest new start before same
    subst before
    simp [splice, same, List.append_assoc]
  have zeros : List.replicate 16 (0 : UInt8) = List.replicate 4 0 ++ (List.replicate 4 0 ++
      (List.replicate 4 0 ++ List.replicate 4 0)) := rfl
  cases alg : macAlgOfId i with
  | poly1305 =>
    simp only [storeLengths, encodeLengths, alg, storeLengthsPoly1305, encodeLengthsPoly1305]
    have first := region [] (List.replicate 4 0) (List.replicate 4 0 ++ (List.replicate 4 0 ++ List.replicate 4 0))
      (littleBytes 4 aadlen.toNat) 0 rfl (by simp)
    have second := region (littleBytes 4 aadlen.toNat ++ List.replicate 4 0) (List.replicate 4 0)
      (List.replicate 4 0) (littleBytes 4 txtlen.toNat) 8 (by simp) (by simp)
    rw [List.nil_append, List.nil_append, ← zeros] at first
    rw [List.append_assoc, List.append_assoc] at second
    rw [first, second]
  | ghash =>
    simp only [storeLengths, encodeLengths, alg, storeLengthsGhash, encodeLengthsGhash]
    have first := region (List.replicate 4 0) (List.replicate 4 0) (List.replicate 4 0 ++ List.replicate 4 0)
      (bigBytes 4 ((8 : UInt32) * aadlen).toNat) 4 rfl (by simp)
    have second := region (List.replicate 4 0 ++ (bigBytes 4 ((8 : UInt32) * aadlen).toNat ++ List.replicate 4 0))
      (List.replicate 4 0) [] (bigBytes 4 ((8 : UInt32) * txtlen).toNat) 12 (by simp) (by simp)
    rw [← zeros] at first
    rw [List.append_nil, List.append_nil, List.append_assoc, List.append_assoc, List.append_assoc,
      List.append_assoc] at second
    rw [first, second]

@[simp] theorem encodeLengths_length (i : Id) (aadlen txtlen : UInt32) :
    (encodeLengths i aadlen txtlen).length = 16 := by
  unfold encodeLengths
  cases macAlgOfId i with
  | poly1305 => simp [encodeLengthsPoly1305]
  | ghash => simp [encodeLengthsGhash]

/-- The accumulator has absorbed the encoding of both texts. -/
theorem accumulate_tracks {Absorbs : Text → Acc i → Prop} (tracks : Tracks fl st Absorbs)
    (begins : Absorbs [] (start st)) (aadlen : UInt32) (aad : Bytes) (txtlen : UInt32) (cipher : Bytes) :
    ∃ acc, accumulate fl st aadlen aad txtlen cipher = some acc ∧
      Absorbs (encodeBoth i aadlen aad txtlen cipher) acc := by
  obtain ⟨acc, ran, absorbed⟩ := addBytes_run tracks begins aad
  obtain ⟨acc', ran', absorbed'⟩ := addBytes_run tracks absorbed cipher
  obtain ⟨acc'', ran'', absorbed''⟩ := tracks absorbed' (encodeLengths_length i aadlen txtlen)
  rw [List.append_nil] at absorbed''
  refine ⟨acc'', ?_, absorbed''⟩
  simp only [accumulate, ran, ran', Option.bind_eq_bind, Option.bind_some, storeLengths_run, ran'']

/-- The accumulator has absorbed the encoding of both texts under a key. -/
theorem accumulate_run (keyed : Keyed rb sb st) (fl : Flags) (aadlen : UInt32) (aad : Bytes) (txtlen : UInt32)
    (cipher : Bytes) :
    ∃ acc, accumulate fl st aadlen aad txtlen cipher = some acc ∧
      Absorbed fl rb (encodeBoth i aadlen aad txtlen cipher) st acc := by
  have tracks : Tracks fl st fun cs acc => Absorbed fl rb cs st acc := by
    intro cs acc w absorbed size
    exact update_run absorbed size
  exact accumulate_tracks tracks (start_absorbed fl keyed) aadlen aad txtlen cipher

/-- Texts of one length are determined by their words. -/
theorem encodeBytes_injective {txt txt' : Bytes} (size : txt.length = txt'.length)
    (same : encodeBytes txt = encodeBytes txt') : txt = txt' := by
  induction len : txt.length using Nat.strong_induction_on generalizing txt txt' with
  | _ len' ih =>
    by_cases empty : txt.length = 0
    · rw [List.eq_nil_of_length_eq_zero empty, List.eq_nil_of_length_eq_zero (l := txt') (by omega)]
    by_cases short : txt.length < 16
    · -- Both are one word with the same padding.
      rw [encodeBytes_short empty short, encodeBytes_short (show txt'.length ≠ 0 by omega) (by omega),
        List.singleton_inj, pad0, pad0] at same
      exact (List.append_inj same size).1
    · rw [encodeBytes_word (show 16 ≤ txt.length by omega),
        encodeBytes_word (show 16 ≤ txt'.length by omega)] at same
      obtain ⟨rests, firsts⟩ := List.append_inj' same rfl
      have rest := ih (txt.drop 16).length (by rw [List.length_drop]; omega)
        (by rw [List.length_drop, List.length_drop, size]) rests rfl
      rw [← List.take_append_drop 16 txt, rest, List.singleton_inj.mp firsts, List.take_append_drop]

/-- The lengths that fit in the word: in bytes for one authenticator, and in bits for the other. -/
def lengthBound (i : Id) : Nat :=
  match macAlgOfId i with
  | .poly1305 => 2 ^ 32
  | .ghash => 2 ^ 29

/-- The word of the lengths determines them. -/
theorem encodeLengths_injective {aadlen txtlen aadlen' txtlen' : UInt32} (shortAad : aadlen.toNat < lengthBound i)
    (shortTxt : txtlen.toNat < lengthBound i) (shortAad' : aadlen'.toNat < lengthBound i)
    (shortTxt' : txtlen'.toNat < lengthBound i)
    (same : encodeLengths i aadlen txtlen = encodeLengths i aadlen' txtlen') :
    aadlen = aadlen' ∧ txtlen = txtlen' := by
  have little : ∀ x y : UInt32, littleBytes 4 x.toNat = littleBytes 4 y.toNat → x = y := by
    intro x y bytes
    exact UInt32.toNat_inj.mp (littleBytes_injective x.toNat_lt y.toNat_lt bytes)
  have big : ∀ x y : UInt32, bigBytes 4 x.toNat = bigBytes 4 y.toNat → x = y := by
    intro x y bytes
    exact UInt32.toNat_inj.mp (bigBytes_injective x.toNat_lt y.toNat_lt bytes)
  -- The lengths in bits fit in 32 bits.
  have bits : ∀ x y : UInt32, x.toNat < 2 ^ 29 → y.toNat < 2 ^ 29 → (8 : UInt32) * x = 8 * y → x = y := by
    intro x y below below' product
    have value := congrArg UInt32.toNat product
    have eight : (8 : UInt32).toNat = 8 := rfl
    rw [UInt32.toNat_mul, UInt32.toNat_mul, eight] at value
    exact UInt32.toNat_inj.mp (by omega)
  cases alg : macAlgOfId i with
  | poly1305 =>
    simp only [encodeLengths, alg, encodeLengthsPoly1305] at same
    obtain ⟨first, rest⟩ := List.append_inj same (by simp)
    obtain ⟨-, rest⟩ := List.append_inj rest rfl
    obtain ⟨second, -⟩ := List.append_inj rest (by simp)
    exact ⟨little _ _ first, little _ _ second⟩
  | ghash =>
    simp only [lengthBound, alg] at shortAad shortTxt shortAad' shortTxt'
    simp only [encodeLengths, alg, encodeLengthsGhash] at same
    obtain ⟨-, rest⟩ := List.append_inj same rfl
    obtain ⟨first, rest⟩ := List.append_inj rest (by simp)
    obtain ⟨-, second⟩ := List.append_inj rest rfl
    exact ⟨bits _ _ shortAad shortAad' (big _ _ first), bits _ _ shortTxt shortTxt' (big _ _ second)⟩

/-- A length within the bound is kept by its word. -/
theorem length_toNat {len : Nat} (short : len < lengthBound i) : (UInt32.ofNat len).toNat = len := by
  have word : lengthBound i ≤ 2 ^ 32 := by
    rw [lengthBound]
    split <;> decide
  rw [UInt32.toNat_ofNat']
  exact Nat.mod_eq_of_lt (short.trans_le word)

/-- The encoding determines both texts. -/
theorem encodeBoth_injective {aad cipher aad' cipher' : Bytes} (shortAad : aad.length < lengthBound i)
    (shortTxt : cipher.length < lengthBound i) (shortAad' : aad'.length < lengthBound i)
    (shortTxt' : cipher'.length < lengthBound i)
    (same : encodeBoth i (UInt32.ofNat aad.length) aad (UInt32.ofNat cipher.length) cipher =
      encodeBoth i (UInt32.ofNat aad'.length) aad' (UInt32.ofNat cipher'.length) cipher') :
    aad = aad' ∧ cipher = cipher' := by
  obtain ⟨lengths, words⟩ := List.cons_eq_cons.mp same
  obtain ⟨aadSame, txtSame⟩ := encodeLengths_injective (by rwa [length_toNat shortAad])
    (by rwa [length_toNat shortTxt]) (by rwa [length_toNat shortAad']) (by rwa [length_toNat shortTxt']) lengths
  -- Equal lengths make equally many words, so the two lists split at the same place.
  have aadSize := congrArg UInt32.toNat aadSame
  have txtSize := congrArg UInt32.toNat txtSame
  rw [length_toNat shortAad, length_toNat shortAad'] at aadSize
  rw [length_toNat shortTxt, length_toNat shortTxt'] at txtSize
  obtain ⟨ciphers, aads⟩ := List.append_inj words (by rw [encodeBytes_length, encodeBytes_length, txtSize])
  exact ⟨encodeBytes_injective aadSize aads, encodeBytes_injective txtSize ciphers⟩

end HaclStar.SecureApi.Encoding
