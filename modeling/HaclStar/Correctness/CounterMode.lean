import HaclStar.Spec.Lib

/-! Counter mode with several blocks at once against counter mode with one block at a time. -/

namespace HaclStar.Correctness.CounterMode

open Endianness Keystream Spec

/-- The blocks of consecutive counters in one. -/
def bundle (b : BlockCipher) (g : Nat) (key nonce : Bytes) (counter : Nat) : Bytes :=
  (List.range g).flatMap fun i => b key nonce (counter + i)

/-- The counters of all the masks, and of the blocks bundled in them, are in range. -/
structure Ranged (ctx : BlockCipherCtx) (counter len : Nat) : Prop where
  fits : counter + ctx.incr * (len / ctx.blocklen) < 2 ^ ctx.counterbits
  room : len % (ctx.blocklen * ctx.incr) = 0 ∨
    counter + ctx.incr * (len / ctx.blocklen) + ctx.incr ≤ 2 ^ ctx.counterbits

/-- A block cipher for each single block, and one for the bundles of its blocks. -/
structure Bundled (ctx : BlockCipherCtx) (bc b : BlockCipher) : Prop where
  sizes : ∀ key nonce c, (b key nonce c).length = ctx.blocklen
  bundles : ∀ key nonce c, c + ctx.incr ≤ 2 ^ ctx.counterbits →
    bc key nonce c = bundle b ctx.incr key nonce c

/-- The masks that counter mode takes for bundles have the bytes of the masks for single blocks. -/
def SameMasks (ctx : BlockCipherCtx) (b : BlockCipher) (key nonce : Bytes) (counter len : Nat) : Prop :=
  ∀ i < len, keystream (b key nonce) ctx.blocklen
      (maskCounter ctx counter len (i / (ctx.blocklen * ctx.incr))) (i % (ctx.blocklen * ctx.incr)) =
    keystream (b key nonce) ctx.blocklen counter i

variable {ctx : BlockCipherCtx} {bc b : BlockCipher} {key nonce plain : Bytes} {counter : Nat}

/-- A bundle has the bytes of its blocks. -/
theorem bundle_length {width : Nat} (sizes : ∀ c, (b key nonce c).length = width) (g : Nat) :
    (bundle b g key nonce counter).length = width * g := by
  induction g with
  | zero => rfl
  | succ g ih =>
    rw [bundle, List.range_succ, List.flatMap_append, List.length_append, ← bundle, ih,
      List.flatMap_singleton, sizes, Nat.mul_succ]

/-- The bytes of a bundle are the keystream of its blocks. -/
theorem bundle_getD {width : Nat} (sizes : ∀ c, (b key nonce c).length = width) (positive : 0 < width)
    {g r : Nat} (inside : r < width * g) :
    (bundle b g key nonce counter).getD r 0 = keystream (b key nonce) width counter r := by
  -- The last block follows the blocks before it.
  induction g with
  | zero => simp at inside
  | succ g ih =>
    have before : (bundle b g key nonce counter).length = width * g := bundle_length sizes g
    have split : bundle b (g + 1) key nonce counter =
        bundle b g key nonce counter ++ b key nonce (counter + g) := by
      simp [bundle, List.range_succ]
    rw [Nat.mul_succ] at inside
    rw [split]
    by_cases early : r < width * g
    · rw [List.getD_append _ _ _ _ (by omega), ih early]
    · obtain ⟨s, rfl⟩ := Nat.exists_eq_add_of_le (Nat.le_of_not_lt early)
      rw [List.getD_append_right _ _ _ _ (by omega), before, Nat.add_sub_cancel_left,
        keystream_shift positive, keystream, Nat.div_eq_of_lt (by omega), Nat.mod_eq_of_lt (by omega),
        Nat.add_zero]

/-- The counter of every mask leaves room for the blocks bundled in it. -/
theorem maskCounter_room {len : Nat} (ranged : Ranged ctx counter len)
    {j : Nat} (inside : ctx.blocklen * ctx.incr * j < len) :
    maskCounter ctx counter len j + ctx.incr ≤ 2 ^ ctx.counterbits := by
  have fits := ranged.fits
  unfold maskCounter
  split
  · next whole =>
    -- The masks of whole bundles step by the square of the number of blocks.
    have reach : ctx.incr * (j + 1) ≤ len / ctx.blocklen := by
      rw [← Nat.div_div_eq_div_mul] at whole
      calc ctx.incr * (j + 1) ≤ ctx.incr * (len / ctx.blocklen / ctx.incr) := Nat.mul_le_mul_left _ whole
        _ ≤ len / ctx.blocklen := Nat.mul_div_le _ _
    rcases Nat.eq_zero_or_pos ctx.incr with none | some
    · rw [none] at fits ⊢
      omega
    · have least : 1 ≤ ctx.incr * (j + 1) := Nat.mul_pos some (Nat.succ_pos j)
      calc counter + (ctx.incr * (j + 1) - 1) * ctx.incr + ctx.incr
          = counter + ctx.incr * (ctx.incr * (j + 1)) := by
            rw [Nat.add_assoc, ← Nat.succ_mul, Nat.succ_eq_add_one, Nat.sub_add_cancel least, Nat.mul_comm]
        _ ≤ counter + ctx.incr * (len / ctx.blocklen) :=
            Nat.add_le_add_left (Nat.mul_le_mul_left _ reach) _
        _ ≤ 2 ^ ctx.counterbits := fits.le
  · next beyond =>
    rcases ranged.room with whole | room
    · -- Without a final part no mask follows those of the whole bundles.
      have divided := Nat.div_add_mod len (ctx.blocklen * ctx.incr)
      have covers := Nat.mul_le_mul_left (ctx.blocklen * ctx.incr) (Nat.le_of_not_lt beyond)
      omega
    · exact room

/-- Counter mode on bundles is the exclusive or with the blocks at the counters of the masks. -/
theorem counterMode_bundled (positive : 0 < ctx.blocklen) (forward : 0 < ctx.incr)
    (bundled : Bundled ctx bc b) (ranged : Ranged ctx counter plain.length) :
    counterMode ctx bc key nonce counter plain = xorStream (fun i => keystream (b key nonce) ctx.blocklen
      (maskCounter ctx counter plain.length (i / (ctx.blocklen * ctx.incr)))
      (i % (ctx.blocklen * ctx.incr))) plain := by
  have sizes := bundled.sizes key nonce
  have wide : 0 < ctx.blocklen * ctx.incr := Nat.mul_pos positive forward
  rw [counterMode_masks positive forward fun j inside => by
    rw [bundled.bundles _ _ _ (maskCounter_room ranged inside), bundle_length sizes]]
  apply xorStream_congr
  intro i inside
  have start := Nat.lt_of_le_of_lt (Nat.mul_div_le i (ctx.blocklen * ctx.incr)) inside
  rw [keystream, Nat.zero_add, bundled.bundles _ _ _ (maskCounter_room ranged start),
    bundle_getD sizes positive (Nat.mod_lt i wide)]

/-- Both groupings give one ciphertext exactly when they take the same masks. -/
theorem counterMode_bundled_iff (positive : 0 < ctx.blocklen) (forward : 0 < ctx.incr)
    (bundled : Bundled ctx bc b) (ranged : Ranged ctx counter plain.length) :
    counterMode ctx bc key nonce counter plain =
      counterMode { ctx with incr := 1 } b key nonce counter plain ↔
    SameMasks ctx b key nonce counter plain.length := by
  have single : counterMode { ctx with incr := 1 } b key nonce counter plain =
      xorStream (keystream (b key nonce) ctx.blocklen counter) plain :=
    @counterMode_keystream { ctx with incr := 1 } b key nonce rfl positive (bundled.sizes key nonce) counter
      plain
  rw [counterMode_bundled positive forward bundled ranged, single]
  exact xorStream_inj

/-- Bundles of one block, and messages shorter than one block, take the masks of single blocks. -/
theorem sameMasks_of_short {len : Nat} (positive : 0 < ctx.blocklen)
    (short : ctx.incr = 1 ∨ len < ctx.blocklen) : SameMasks ctx b key nonce counter len := by
  intro i inside
  rcases short with single | short
  · have block : ctx.blocklen * (i / ctx.blocklen) < len :=
      Nat.lt_of_le_of_lt (Nat.mul_div_le i ctx.blocklen) inside
    rw [single, Nat.mul_one, maskCounter_single single counter block positive, ← keystream_shift positive,
      Nat.div_add_mod]
  · rcases Nat.eq_zero_or_pos ctx.incr with none | some
    · simp [none, maskCounter]
    · -- The only mask is the one of the final part, at the first counter.
      have below : ctx.blocklen ≤ ctx.blocklen * ctx.incr := Nat.le_mul_of_pos_right _ some
      rw [Nat.div_eq_of_lt (by omega), Nat.mod_eq_of_lt (by omega), maskCounter,
        Nat.div_eq_of_lt (by omega), Nat.div_eq_of_lt short, if_neg (Nat.lt_irrefl 0), Nat.mul_zero,
        Nat.add_zero]

/-- A longer message in bundles of several blocks starts with another mask. -/
theorem maskCounter_ne {len : Nat} (positive : 0 < ctx.blocklen) (several : 1 < ctx.incr)
    (long : ctx.blocklen ≤ len) : maskCounter ctx counter len 0 ≠ counter := by
  unfold maskCounter
  split
  · have step : 0 < (ctx.incr * (0 + 1) - 1) * ctx.incr := Nat.mul_pos (by omega) (by omega)
    omega
  · have blocks : 0 < len / ctx.blocklen := Nat.div_pos long positive
    have step : 0 < ctx.incr * (len / ctx.blocklen) := Nat.mul_pos (by omega) blocks
    omega

/--
Grouping blocks changes the ciphertext exactly when it changes the masks.

For every block function to be independent of the grouping, the bundles must be of one block, or the
message shorter than one block.
-/
theorem counterMode_grouping (positive : 0 < ctx.blocklen) (forward : 0 < ctx.incr)
    (ranged : Ranged ctx counter plain.length) :
    (∀ bc b, Bundled ctx bc b →
      (counterMode ctx bc key nonce counter plain =
        counterMode { ctx with incr := 1 } b key nonce counter plain ↔
      SameMasks ctx b key nonce counter plain.length)) ∧
    ((∀ bc b, Bundled ctx bc b →
      counterMode ctx bc key nonce counter plain =
        counterMode { ctx with incr := 1 } b key nonce counter plain) ↔
      ctx.incr = 1 ∨ plain.length < ctx.blocklen) := by
  refine ⟨fun bc b bundled => counterMode_bundled_iff positive forward bundled ranged, ?_, ?_⟩
  · intro independent
    by_contra otherwise
    obtain ⟨several, long⟩ := not_or.mp otherwise
    -- A block function that marks the first counter tells the first masks apart.
    set marked : BlockCipher := fun _ _ c => List.replicate ctx.blocklen (if c = counter then 1 else 0)
      with marked_def
    have bundled : Bundled ctx (bundle marked ctx.incr) marked :=
      ⟨fun key nonce c => by simp [marked_def], fun key nonce c _ => rfl⟩
    have masks := (counterMode_bundled_iff positive forward bundled ranged).mp (independent _ _ bundled)
    have first := masks 0 (by omega)
    have other : maskCounter ctx counter plain.length 0 ≠ counter :=
      maskCounter_ne positive (by omega) (Nat.le_of_not_lt long)
    rw [Nat.zero_div, Nat.zero_mod] at first
    simp [keystream, marked_def, other, List.getD_eq_getElem?_getD, positive] at first
  · intro short bc b bundled
    exact (counterMode_bundled_iff positive forward bundled ranged).mpr (sameMasks_of_short positive short)

/-- Blocks of one byte that show their counter, two of them in a bundle. -/
def pairs : BlockCipherCtx := ⟨0, 1, 0, 8, 2⟩

def shown : BlockCipher := fun _ _ c => [UInt8.ofNat c]

theorem pairs_ranged : Ranged pairs 0 2 := ⟨by decide, by decide⟩

theorem shown_bundled : Bundled pairs (bundle shown 2) shown := ⟨fun _ _ _ => rfl, fun _ _ _ _ => rfl⟩

theorem counterMode_grouping_pairs :
    ¬ ∀ bc b, Bundled pairs bc b → counterMode pairs bc [] [] 0 [0, 0] =
      counterMode { pairs with incr := 1 } b [] [] 0 [0, 0] := by
  obtain ⟨-, exactly⟩ := @counterMode_grouping pairs [] [] [0, 0] 0 (by decide) (by decide) pairs_ranged
  rw [exactly]
  decide

/-- Two bytes are combined with the blocks two and three in place of zero and one. -/
theorem grouping_fails :
    ¬ ∀ (ctx : BlockCipherCtx) (bc b : BlockCipher) (key nonce plain : Bytes) (counter : Nat),
      0 < ctx.blocklen → 0 < ctx.incr → Bundled ctx bc b → Ranged ctx counter plain.length →
      counterMode ctx bc key nonce counter plain =
        counterMode { ctx with incr := 1 } b key nonce counter plain := by
  intro claim
  have same := claim pairs (bundle shown 2) shown [] [] [0, 0] 0 (by decide) (by decide) shown_bundled
    pairs_ranged
  exact absurd same (by decide)

end HaclStar.Correctness.CounterMode
