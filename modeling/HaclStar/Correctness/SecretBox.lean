import HaclStar.Api.SecretBox

/-! Sealing and opening with a secret key. -/

namespace HaclStar.Correctness.SecretBox

open Endianness Keystream Memory Spec.SecretBox

/-- A memory of zero blocks. -/
def zeroMem (sizes : List Nat) : Mem := sizes.map fun size => List.replicate size 0

/-- The view of a whole block. -/
def whole (base length : Nat) : Buffer := ⟨base, 0, length⟩

section Padded

open Api.SecretBox.ZeroPad

/-- The buffers of a padded message that is sealed and opened again: they have room for the padding
and the message, and the ciphertext overlaps none of the others. -/
structure RoundTrip (h : Mem) (c m m' n k : Buffer) (len : UInt64) : Prop where
  liveC : h.Live c
  liveM : h.Live m
  liveM' : h.Live m'
  liveN : h.Live n
  liveK : h.Live k
  nonceSize : n.length = 24
  keySize : k.length = 32
  sizeC : c.length = len.toNat + 32
  sizeM : m.length = len.toNat + 32
  sizeM' : m'.length = len.toNat + 32
  bounded : len.toNat + 32 < 2 ^ 32
  apartM : c.Disjoint m
  apartM' : c.Disjoint m'
  apartN : c.Disjoint n
  apartK : c.Disjoint k

variable {h : Mem} {c m m' n k : Buffer} {len : UInt64}

/-- Sealing a zero-padded message writes zeros, the specification's tag and its ciphertext. -/
theorem easy_sealed (views : RoundTrip h c m m' n k len)
    (padded : (h.read m).take 32 = List.replicate 32 0) :
    cryptoSecretboxEasy c m len n k h = some (0, h.write c (List.replicate 16 0 ++
      (secretboxDetached ((h.read m).drop 32) (h.read k) (h.read n)).1 ++
      (secretboxDetached ((h.read m).drop 32) (h.read k) (h.read n)).2)) := by
  have bytes := Mem.read_length views.liveM
  have size := views.sizeM
  have args : Args h c m n k len := ⟨views.liveC, views.liveM, views.liveN, views.liveK,
    views.nonceSize, views.keySize, Or.inr views.apartM, views.bounded, views.sizeC.ge, views.sizeM.ge⟩
  have all : masked h m n k len = xorStream (boxStream (h.read k) (h.read n)) (h.read m) := by
    rw [masked, List.take_of_length_le (by omega)]
  rw [cryptoSecretboxEasy_run args, all, take_boxStream padded, drop_boxStream, secretboxDetached_eq]
  rfl

/-- Opening what sealing has written compares the first half of the padding, which is zero, with the
tag. -/
theorem openEasy_sealed (views : RoundTrip h c m m' n k len)
    (padded : (h.read m).take 32 = List.replicate 32 0) {t cipher : Bytes}
    (sealed : secretboxDetached ((h.read m).drop 32) (h.read k) (h.read n) = (t, cipher)) :
    cryptoSecretboxOpenEasy m' c len n k (h.write c (List.replicate 16 0 ++ t ++ cipher)) =
      if t = List.replicate 16 0 then
        some (0, (h.write c (List.replicate 16 0 ++ t ++ cipher)).write m' (h.read m))
      else some (0xffffffff, h.write c (List.replicate 16 0 ++ t ++ cipher)) := by
  obtain ⟨liveC, liveM, liveM', liveN, liveK, nonceSize, keySize, sizeC, sizeM, sizeM', bounded, apartM,
    apartM', apartN, apartK⟩ := views
  have bytes := Mem.read_length liveM
  rw [secretboxDetached_eq, Prod.mk.injEq] at sealed
  obtain ⟨tagged, enciphered⟩ := sealed
  have tSize : t.length = 16 := by rw [← tagged, tag_length]
  have cipherSize : cipher.length = len.toNat := by
    rw [← enciphered, encipher_length, List.length_drop]; omega
  set content := List.replicate 16 0 ++ t ++ cipher with content_def
  have prefixSize : (List.replicate 16 0 ++ t).length = 32 := by
    rw [List.length_append, List.length_replicate, tSize]
  have size : content.length = c.length := by rw [content_def, List.length_append]; omega
  set h1 := h.write c content with h1_def
  have live (b : Buffer) (other : h.Live b) : h1.Live b := other.write liveC size.le
  have readC : h1.read c = content := Mem.read_write_same liveC size
  have readN : h1.read n = h.read n := Mem.read_write_disjoint liveC size.le apartN
  have readK : h1.read k = h.read k := Mem.read_write_disjoint liveC size.le apartK
  have readMac : h1.read (c.slice 0 16) = List.replicate 16 0 := by
    rw [Mem.read_slice _ _ (by omega), readC, content_def, List.append_assoc, List.drop_zero,
      List.take_left' List.length_replicate]
  have cipherC : ((h1.read c).drop 32).take len.toNat = cipher := by
    rw [readC, content_def, List.drop_left' prefixSize, List.take_of_length_le cipherSize.le]
  have authentic : Authentic h1 c (c.slice 0 16) n k len ↔ t = List.replicate 16 0 := by
    rw [Authentic, readMac, readK, readN, cipherC, ← enciphered, tagged, eq_comm]
  have liveMac := (live c liveC).slice (i := 0) (n := 16) (by omega)
  rw [cryptoSecretboxOpenEasy, Stack.bind_run (Buffer.sub_run _ (by omega))]
  split
  · next zero =>
    have args : Args h1 m' c n k len := ⟨live m' liveM', live c liveC, live n liveN, live k liveK,
      nonceSize, keySize, Or.inr apartM'.symm, bounded, sizeM'.ge, sizeC.ge⟩
    have opened : (masked h1 c n k len).drop 32 = (h.read m).drop 32 := by
      rw [masked, readC, List.take_of_length_le (by omega), drop_boxStream, content_def,
        List.drop_left' prefixSize, readK, readN, ← enciphered, encipher_involutive]
    rw [cryptoSecretboxOpenDetached_accept args liveMac rfl (authentic.mpr zero), opened, ← padded,
      List.take_append_drop]
  · next nonzero =>
    exact cryptoSecretboxOpenDetached_reject m' (live c liveC) liveMac (live n liveN) (live k liveK) rfl
      nonceSize keySize bounded sizeC.ge (fun accepted => nonzero (authentic.mp accepted))

/-- Opening in place of the padding inverts sealing exactly when the tag consists of zero bytes, since
the tag is written to the second half of the padding and looked for in the first. -/
theorem openEasy_inverts_easy_iff (views : RoundTrip h c m m' n k len)
    (padded : (h.read m).take 32 = List.replicate 32 0) :
    (∃ h1 h2, cryptoSecretboxEasy c m len n k h = some (0, h1) ∧
      cryptoSecretboxOpenEasy m' c len n k h1 = some (0, h2) ∧ h2.read m' = h.read m) ↔
    (secretboxDetached ((h.read m).drop 32) (h.read k) (h.read n)).1 = List.replicate 16 0 := by
  have opened := openEasy_sealed views padded Prod.mk.eta.symm
  rw [easy_sealed views padded]
  constructor
  · rintro ⟨h1, h2, sealed, ran, -⟩
    obtain rfl := (Prod.mk.inj (Option.some.inj sealed)).2
    by_contra nonzero
    rw [opened, if_neg nonzero] at ran
    exact absurd (Prod.mk.inj (Option.some.inj ran)).1 (by decide)
  · intro zero
    rw [if_pos zero] at opened
    have size : (h.read m).length = m'.length := by
      rw [Mem.read_length views.liveM, views.sizeM, views.sizeM']
    refine ⟨_, _, rfl, opened, Mem.read_write_same (views.liveM'.write views.liveC ?_) size⟩
    rw [secretboxDetached_eq]
    simp only [List.length_append, List.length_replicate, tag_length, encipher_length, List.length_drop,
      Mem.read_length views.liveM, views.sizeM, views.sizeC]
    omega

/-- Thirty-two zero bytes, a zero nonce and a zero key. -/
theorem zeroRoundTrip : RoundTrip (zeroMem [32, 32, 32, 24, 32]) (whole 0 32) (whole 1 32) (whole 2 32)
    (whole 3 24) (whole 4 32) 0 := by
  constructor <;> decide

theorem openEasy_inverts_easy_zero :
    (∃ h1 h2, cryptoSecretboxEasy (whole 0 32) (whole 1 32) 0 (whole 3 24) (whole 4 32)
        (zeroMem [32, 32, 32, 24, 32]) = some (0, h1) ∧
      cryptoSecretboxOpenEasy (whole 2 32) (whole 0 32) 0 (whole 3 24) (whole 4 32) h1 = some (0, h2) ∧
      h2.read (whole 2 32) = (zeroMem [32, 32, 32, 24, 32]).read (whole 1 32)) ↔
    (secretboxDetached (((zeroMem [32, 32, 32, 24, 32]).read (whole 1 32)).drop 32)
      ((zeroMem [32, 32, 32, 24, 32]).read (whole 4 32))
      ((zeroMem [32, 32, 32, 24, 32]).read (whole 3 24))).1 = List.replicate 16 0 :=
  openEasy_inverts_easy_iff zeroRoundTrip (by decide)

/-- Under a zero key and a zero nonce the empty message has a tag that is not zero. -/
theorem tag_zero_ne : tag (List.replicate 32 0) (List.replicate 24 0) [] ≠ List.replicate 16 0 := by
  rw [tag, Spec.Poly1305.poly1305_nil (macKey_length _ _), macKey_eq]
  decide +kernel

/-- The empty message under a zero key and a zero nonce is sealed and then rejected. -/
theorem openEasy_inverts_easy_fails :
    ¬ ∃ h1 h2, cryptoSecretboxEasy (whole 0 32) (whole 1 32) 0 (whole 3 24) (whole 4 32)
        (zeroMem [32, 32, 32, 24, 32]) = some (0, h1) ∧
      cryptoSecretboxOpenEasy (whole 2 32) (whole 0 32) 0 (whole 3 24) (whole 4 32) h1 = some (0, h2) ∧
      h2.read (whole 2 32) = (zeroMem [32, 32, 32, 24, 32]).read (whole 1 32) := by
  have padded : ((zeroMem [32, 32, 32, 24, 32]).read (whole 1 32)).take 32 = List.replicate 32 0 := by
    decide
  rintro ⟨h1, h2, sealed, ran, -⟩
  rw [easy_sealed zeroRoundTrip padded] at sealed
  obtain rfl := (Prod.mk.inj (Option.some.inj sealed)).2
  have nonzero : (secretboxDetached (((zeroMem [32, 32, 32, 24, 32]).read (whole 1 32)).drop 32)
      ((zeroMem [32, 32, 32, 24, 32]).read (whole 4 32))
      ((zeroMem [32, 32, 32, 24, 32]).read (whole 3 24))).1 ≠ List.replicate 16 0 := by
    rw [secretboxDetached_eq]
    exact tag_zero_ne
  rw [openEasy_sealed zeroRoundTrip padded Prod.mk.eta.symm, if_neg nonzero] at ran
  exact absurd (Prod.mk.inj (Option.some.inj ran)).1 (by decide)

end Padded

section Unpadded

open Api.SecretBox

/-- The buffers of a message that is sealed and opened again: they have the length of the message, and
what sealing writes overlaps nothing that opening needs. -/
structure DetachedRoundTrip (h : Mem) (c mac m m' n k : Buffer) (len : UInt64) : Prop where
  sealArgs : Args h c m n k len
  liveMac : h.Live mac
  liveM' : h.Live m'
  sizeMac : mac.length = 16
  sizeM' : m'.length = len.toNat
  apartC : c.Disjoint mac
  apartM' : c.Disjoint m'
  apartK : c.Disjoint k
  macM' : mac.Disjoint m'
  macN : mac.Disjoint n
  macK : mac.Disjoint k
  nonceM' : m'.Disjoint n

variable {h : Mem} {c mac m m' n k : Buffer} {len : UInt64}

/-- The memory after sealing: the arguments of opening, the authentic tag, and the ciphertext. -/
theorem detached_sealed (views : DetachedRoundTrip h c mac m m' n k len) :
    ∃ h1, cryptoSecretboxDetached c mac m len n k h = some (0, h1) ∧ Args h1 m' c n k len ∧
      h1.Live mac ∧ Authentic h1 c mac n k ∧ h1.read m' = h.read m' ∧
      h1.read c = encipher (h.read k) (h.read n) (h.read m) ∧ h1.read k = h.read k ∧
      h1.read n = h.read n := by
  obtain ⟨args, liveMac, liveM', sizeMac, sizeM', apartC, apartM', apartK, macM', macN, macK, nonceM'⟩ :=
    views
  have ran := cryptoSecretboxDetached_run args liveMac sizeMac
  obtain ⟨liveC, liveM, liveN, liveK, nonceSize, keySize, views, apartN, bounded, sizeC, sizeM⟩ := args
  have bytes := Mem.read_length liveM
  set cipher := encipher (h.read k) (h.read n) (h.read m) with cipher_def
  have cipherSize : cipher.length = c.length := by rw [cipher_def, encipher_length]; omega
  set t := tag (h.read k) (h.read n) cipher with t_def
  have tSize : t.length = mac.length := by rw [t_def, tag_length, sizeMac]
  have liveMac1 : (h.write c cipher).Live mac := liveMac.write liveC cipherSize.le
  have live (b : Buffer) (other : h.Live b) : ((h.write c cipher).write mac t).Live b :=
    (other.write liveC cipherSize.le).write liveMac1 tSize.le
  -- What neither of the two writes touches reads as before.
  have kept (b : Buffer) (first : c.Disjoint b) (second : mac.Disjoint b) :
      ((h.write c cipher).write mac t).read b = h.read b := by
    rw [Mem.read_write_disjoint liveMac1 tSize.le second, Mem.read_write_disjoint liveC cipherSize.le first]
  have readC : ((h.write c cipher).write mac t).read c = cipher := by
    rw [Mem.read_write_disjoint liveMac1 tSize.le apartC.symm, Mem.read_write_same liveC cipherSize]
  refine ⟨_, ran, ⟨live m' liveM', live c liveC, live n liveN, live k liveK, nonceSize, keySize,
    Or.inr apartM'.symm, nonceM', bounded, sizeM', sizeC⟩, live mac liveMac, ?_, kept m' apartM' macM',
    readC, kept k apartK macK, kept n apartN macN⟩
  rw [Authentic, Mem.read_write_same liveMac1 tSize, kept k apartK macK, kept n apartN macN, readC]

/-- Opening inverts sealing for messages of at most thirty-two bytes; beyond, the call for the rest asks
for sixty-four bytes too many, and stays in the buffers only where this length wraps around. -/
theorem openDetached_inverts_detached_iff (views : DetachedRoundTrip h c mac m m' n k len) :
    (∃ h1 h2, cryptoSecretboxDetached c mac m len n k h = some (0, h1) ∧
      cryptoSecretboxOpenDetached m' c mac len n k h1 = some (0, h2) ∧ h2.read m' = h.read m) ↔
    len.toNat ≤ 32 ∨ 2 ^ 32 ≤ len.toNat + 32 ∧
      (h.read m').drop (len.toNat + 64 - 2 ^ 32) = (h.read m).drop (len.toNat + 64 - 2 ^ 32) := by
  obtain ⟨h1, sealed, args, liveMac, authentic, readM', readC, readK, readN⟩ := detached_sealed views
  have bytes := Mem.read_length views.sealArgs.liveInput
  have sizeM := views.sealArgs.inputSize
  have sizeM' := views.sizeM'
  have opened : encipher (h1.read k) (h1.read n) (h1.read c) = h.read m := by
    rw [readC, readK, readN, encipher_involutive]
  have only {r : UInt32} {h1' h2 : Mem} (same : cryptoSecretboxDetached c mac m len n k h = some (0, h1'))
      (ran : cryptoSecretboxOpenDetached m' c mac len n k h1' = some (r, h2)) :
      cryptoSecretboxOpenDetached m' c mac len n k h1 = some (r, h2) := by
    rw [sealed] at same
    rwa [← (Prod.mk.inj (Option.some.inj same)).2] at ran
  -- A short message, a call that leaves the buffers, and a length that wraps around.
  rcases Nat.lt_or_ge 32 len.toNat with long | short
  · rcases Nat.lt_or_ge (len.toNat + 32) (2 ^ 32) with fits | wraps
    · have faults := cryptoSecretboxOpenDetached_fault args liveMac views.sizeMac authentic long fits
      constructor
      · rintro ⟨h1', h2, sealed', ran, -⟩
        exact absurd (only sealed' ran) (by rw [faults]; exact nofun)
      · omega
    · have ran := cryptoSecretboxOpenDetached_wrapped args liveMac views.sizeMac authentic wraps
      set done := len.toNat + 64 - 2 ^ 32 with done_def
      have begun : xorStream (messageStream h1 n k) ((h1.read c).take done) = (h.read m).take done := by
        rw [← opened, encipher, xorStream_take]
        rfl
      have written : (streamed h1 (messageStream h1 n k) m' c done).read m' =
          (h.read m).take done ++ (h.read m').drop done := by
        have size : ((h.read m).take done).length = done := by rw [List.length_take]; omega
        rw [streamed, begun, Mem.read_write_prefix args.liveOutput (by omega), size, readM']
      constructor
      · rintro ⟨h1', h2, sealed', ran', same⟩
        have last := only sealed' ran'
        rw [ran] at last
        rw [← (Prod.mk.inj (Option.some.inj last)).2, written] at same
        refine Or.inr ⟨wraps, ?_⟩
        have split := List.take_append_drop done (h.read m)
        exact List.append_cancel_left (same.trans split.symm)
      · rintro (short | ⟨-, agrees⟩)
        · omega
        · exact ⟨h1, _, sealed, ran, by rw [written, agrees, List.take_append_drop]⟩
  · have ran := cryptoSecretboxOpenDetached_short args liveMac views.sizeMac authentic short
    rw [opened] at ran
    exact ⟨fun _ => Or.inl short, fun _ => ⟨h1, _, sealed, ran,
      Mem.read_write_same args.liveOutput (by omega)⟩⟩

/-- A zero message of thirty-two bytes, a zero nonce and a zero key. -/
theorem zeroDetachedRoundTrip : DetachedRoundTrip (zeroMem [32, 16, 32, 32, 24, 32]) (whole 0 32)
    (whole 1 16) (whole 2 32) (whole 3 32) (whole 4 24) (whole 5 32) 32 := by
  constructor <;> first | decide | (constructor <;> decide)

theorem openDetached_inverts_detached_zero :
    (∃ h1 h2, cryptoSecretboxDetached (whole 0 32) (whole 1 16) (whole 2 32) 32 (whole 4 24) (whole 5 32)
        (zeroMem [32, 16, 32, 32, 24, 32]) = some (0, h1) ∧
      cryptoSecretboxOpenDetached (whole 3 32) (whole 0 32) (whole 1 16) 32 (whole 4 24) (whole 5 32) h1 =
        some (0, h2) ∧
      h2.read (whole 3 32) = (zeroMem [32, 16, 32, 32, 24, 32]).read (whole 2 32)) ↔
    (32 : UInt64).toNat ≤ 32 ∨ 2 ^ 32 ≤ (32 : UInt64).toNat + 32 ∧
      ((zeroMem [32, 16, 32, 32, 24, 32]).read (whole 3 32)).drop ((32 : UInt64).toNat + 64 - 2 ^ 32) =
        ((zeroMem [32, 16, 32, 32, 24, 32]).read (whole 2 32)).drop
          ((32 : UInt64).toNat + 64 - 2 ^ 32) :=
  openDetached_inverts_detached_iff zeroDetachedRoundTrip

/-- A zero message of thirty-three bytes, a zero nonce and a zero key. -/
theorem zeroDetachedRoundTrip' : DetachedRoundTrip (zeroMem [33, 16, 33, 33, 24, 32]) (whole 0 33)
    (whole 1 16) (whole 2 33) (whole 3 33) (whole 4 24) (whole 5 32) 33 := by
  constructor <;> first | decide | (constructor <;> decide)

/-- A message of thirty-three bytes is sealed, and opening it leaves the buffers. -/
theorem openDetached_inverts_detached_fails :
    ¬ ∃ h1 h2, cryptoSecretboxDetached (whole 0 33) (whole 1 16) (whole 2 33) 33 (whole 4 24) (whole 5 32)
        (zeroMem [33, 16, 33, 33, 24, 32]) = some (0, h1) ∧
      cryptoSecretboxOpenDetached (whole 3 33) (whole 0 33) (whole 1 16) 33 (whole 4 24) (whole 5 32) h1 =
        some (0, h2) ∧
      h2.read (whole 3 33) = (zeroMem [33, 16, 33, 33, 24, 32]).read (whole 2 33) := by
  obtain ⟨h1, sealed, args, liveMac, authentic, -⟩ := detached_sealed zeroDetachedRoundTrip'
  rintro ⟨h1', h2, sealed', ran, -⟩
  rw [sealed] at sealed'
  rw [← (Prod.mk.inj (Option.some.inj sealed')).2,
    cryptoSecretboxOpenDetached_fault args liveMac rfl authentic (by decide) (by decide)] at ran
  exact absurd ran nofun

end Unpadded

section Agreement

variable {h h' : Mem} {c mac m n k c' mac' m' n' k' : Buffer} {len : UInt64} {msg key nonce : Bytes}

/-- The padded and the unpadded implementation both write the specification's tag and ciphertext. -/
theorem detached_agree (padded : Api.SecretBox.ZeroPad.Args h c m n k len)
    (plain : Api.SecretBox.Args h' c' m' n' k' len)
    (liveMac : h.Live mac) (sizeMac : mac.length = 16) (apart : mac.Disjoint c)
    (liveMac' : h'.Live mac') (sizeMac' : mac'.length = 16) (apart' : mac'.Disjoint c')
    (sizeC : c.length = len.toNat + 32)
    (message : h.read m = List.replicate 32 0 ++ msg) (message' : h'.read m' = msg)
    (keyed : h.read k = key) (keyed' : h'.read k' = key)
    (nonced : h.read n = nonce) (nonced' : h'.read n' = nonce) :
    ∃ h1 h1', Api.SecretBox.ZeroPad.cryptoSecretboxDetached c mac m len n k h = some (0, h1) ∧
      Api.SecretBox.cryptoSecretboxDetached c' mac' m' len n' k' h' = some (0, h1') ∧
      (h1.read mac, (h1.read c).drop 32) = secretboxDetached msg key nonce ∧
      (h1'.read mac', h1'.read c') = secretboxDetached msg key nonce := by
  have bytes' := Mem.read_length plain.liveInput
  rw [message', plain.inputSize] at bytes'
  have masked : Api.SecretBox.ZeroPad.masked h m n k len =
      xorStream (boxStream key nonce) (List.replicate 32 0 ++ msg) := by
    rw [Api.SecretBox.ZeroPad.masked, message, keyed, nonced, List.take_of_length_le (by
      rw [List.length_append, List.length_replicate]; omega)]
  have ran := Api.SecretBox.ZeroPad.cryptoSecretboxDetached_run padded liveMac sizeMac.ge apart
  have ran' := Api.SecretBox.cryptoSecretboxDetached_run plain liveMac' sizeMac'
  rw [masked, drop_boxStream, take_boxStream (List.take_left' List.length_replicate),
    List.drop_left' List.length_replicate, ← tag] at ran
  rw [message', keyed', nonced'] at ran'
  set cipher := encipher key nonce msg with cipher_def
  have cipherSize : cipher.length = len.toNat := by rw [cipher_def, encipher_length]; omega
  set t := tag key nonce cipher with t_def
  have tSize : t.length = 16 := tag_length _ _ _
  refine ⟨_, _, ran, ran', ?_, ?_⟩
  · have size : (List.replicate 32 0 ++ cipher).length = c.length := by
      rw [List.length_append, List.length_replicate]; omega
    have liveMac1 := liveMac.write padded.liveOutput size.le
    rw [Mem.read_write_same liveMac1 (by omega), Mem.read_write_disjoint liveMac1 (by omega) apart,
      Mem.read_write_same padded.liveOutput size, List.drop_left' List.length_replicate,
      secretboxDetached_eq]
  · have size : cipher.length = c'.length := by rw [plain.outputSize]; exact cipherSize
    have liveMac1 := liveMac'.write plain.liveOutput size.le
    rw [Mem.read_write_same liveMac1 (by omega), Mem.read_write_disjoint liveMac1 (by omega) apart',
      Mem.read_write_same plain.liveOutput size, secretboxDetached_eq]

theorem detached_agree_zero :
    ∃ h1 h1', Api.SecretBox.ZeroPad.cryptoSecretboxDetached (whole 0 33) (whole 1 16) (whole 2 33) 1
        (whole 3 24) (whole 4 32) (zeroMem [33, 16, 33, 24, 32]) = some (0, h1) ∧
      Api.SecretBox.cryptoSecretboxDetached (whole 0 1) (whole 1 16) (whole 2 1) 1 (whole 3 24)
        (whole 4 32) (zeroMem [1, 16, 1, 24, 32]) = some (0, h1') ∧
      (h1.read (whole 1 16), (h1.read (whole 0 33)).drop 32) =
        secretboxDetached [0] (List.replicate 32 0) (List.replicate 24 0) ∧
      (h1'.read (whole 1 16), h1'.read (whole 0 1)) =
        secretboxDetached [0] (List.replicate 32 0) (List.replicate 24 0) :=
  detached_agree (by constructor <;> decide) (by constructor <;> decide) (by decide) rfl (by decide)
    (by decide) rfl (by decide) rfl (by decide) (by decide) (by decide) (by decide) (by decide)
    (by decide)

end Agreement

end HaclStar.Correctness.SecretBox
