import HaclStar.SecureApi.AEAD

/-! Authenticated encryption with a concrete cipher: what it writes, and which points it requests. -/

namespace HaclStar.SecureApi.AEAD

open Endianness Keystream Memory PRF EnxorDexor UF1CMA

/-- The one-time key of a nonce: the point of the polynomial, which may be static, and the mask. -/
def oneTimeKey (i : Id) (block : Cipher.Iv → UInt32 → Bytes) (n : Cipher.Iv) : Bytes × Bytes :=
  if skeyed i then (block 0 0, block n 1)
  else
    let k := block n 0
    (k.take 16, (k.drop 16).take 16)

/-- What is authenticated. -/
def encoded (i : Id) (aad cipher : Bytes) : Text :=
  Encoding.encodeBoth i (UInt32.ofNat aad.length) aad (UInt32.ofNat cipher.length) cipher

/-- The tag of additional data and a ciphertext under the one-time key of a nonce. -/
def authTag (fl : Flags) (i : Id) (key : Bytes) (n : Cipher.Iv) (aad cipher : Bytes) : Bytes :=
  let (r, s) := oneTimeKey i (Cipher.block fl i (Cipher.init fl i key)) n
  MAC.mac (macAlgOfId i) (encoded i aad cipher) r s

/-- A text combined with the pads of a nonce. -/
def padded (fl : Flags) (i : Id) (key : Bytes) (n : Cipher.Iv) (txt : Bytes) : Bytes :=
  xorStream (pad fl i (Cipher.init fl i key) n (otpOffset i)) txt

/-- The state of an instance with a key. -/
def realState (fl : Flags) (i : Id) (key : Bytes) : State i where
  prf := Cipher.init fl i key
  ak := if skeyed i then some (Cipher.block fl i (Cipher.init fl i key) 0 0) else none

/-- The points requested for a static key. -/
def staticPoints (i : Id) : List Domain := if skeyed i then [⟨0, 0⟩] else []

/-- The points requested by an encryption. -/
def encryptPoints (i : Id) (n : Cipher.Iv) (plainlen : Nat) : List Domain :=
  ⟨n, ctr0 i⟩ :: points n (otpOffset i) (numBlocksForLen i plainlen)

variable {i : Id} {fl : Flags} {key aad plain cipher cipherTagged : Bytes} {n : Cipher.Iv}
  {w : World i}

@[simp] theorem authTag_length (fl : Flags) (i : Id) (key : Bytes) (n : Cipher.Iv) (aad cipher : Bytes) :
    (authTag fl i key n aad cipher).length = 16 := MAC.mac_length _ _ _ _

@[simp] theorem padded_length (fl : Flags) (i : Id) (key : Bytes) (n : Cipher.Iv) (txt : Bytes) :
    (padded fl i key n txt).length = txt.length := xorStream_length _ _

/-- Combining twice with the pads restores a text. -/
theorem padded_padded (fl : Flags) (i : Id) (key : Bytes) (n : Cipher.Iv) (txt : Bytes) :
    padded fl i key n (padded fl i key n txt) = txt := xorStream_involutive _ _

theorem UF1CMA_keylen_le (i : Id) : UF1CMA.keylen i ≤ blocklen i := by
  cases i with
  | aes128Gcm => exact le_rfl
  | aes256Gcm => exact le_rfl
  | chacha20Poly1305 => exact Nat.le_add_left 32 32

/-- An instance with a key requests at most the point of its static key. -/
theorem coerce_run (clear : fl.prf i = false) (size : key.length = PRF.keylen i) :
    coerce fl i key = some (realState fl i key, ⟨⟨[], [], staticPoints i⟩, []⟩) := by
  have state := Cipher.init_length fl size
  rw [coerce, init, realState, staticPoints]
  cases static : skeyed i with
  | false => rfl
  | true =>
    have short : skeylen i = blocklen i := by
      cases i with
      | aes128Gcm => rfl
      | aes256Gcm => rfl
      | chacha20Poly1305 => cases static
    have ran := getBlock_run fl state (⟨0, 0⟩ : Domain) short.le (⟨[], [], []⟩ : PRF.World i)
    rw [short, List.take_of_length_le (by rw [Cipher.block_length]; exact le_rfl)] at ran
    simp only [if_true, prfSk0, clear, Bool.false_eq_true, if_false, short]
    rw [ran]
    rfl

/-- The halves of the key of an authenticator are those of the one-time key. -/
theorem halves_block {block : Cipher.Iv → UInt32 → Bytes} (width : ∀ n ctr, (block n ctr).length = blocklen i)
    (n : Cipher.Iv) :
    halves i (if skeyed i then some (block 0 0) else none) ((block n (ctr0 i)).take (UF1CMA.keylen i)) =
        some (oneTimeKey i block n) ∧
      (oneTimeKey i block n).1.length = 16 ∧ (oneTimeKey i block n).2.length = 16 := by
  cases i with
  | aes128Gcm =>
    have whole : (block n 1).take 16 = block n 1 := List.take_of_length_le (width n 1).le
    exact ⟨congrArg (fun k => some (block 0 0, k)) whole, width 0 0, width n 1⟩
  | aes256Gcm =>
    have whole : (block n 1).take 16 = block n 1 := List.take_of_length_le (width n 1).le
    exact ⟨congrArg (fun k => some (block 0 0, k)) whole, width 0 0, width n 1⟩
  | chacha20Poly1305 =>
    have size : (block n 0).length = 64 := width n 0
    refine ⟨?_, ?_, ?_⟩
    · show some (((block n 0).take 32).take 16, (((block n 0).take 32).drop 16).take 16) = _
      rw [List.take_take, List.drop_take, List.take_take]
      rfl
    · show ((block n 0).take 16).length = 16
      rw [List.length_take, size]
      rfl
    · show (((block n 0).drop 16).take 16).length = 16
      rw [List.length_take, List.length_drop, size]
      rfl

/-- The authenticator of a nonce holds its one-time key. -/
theorem prfMac_real (coins : Coins) (clear : fl.prf i = false) (size : key.length = PRF.keylen i) (n : Cipher.Iv)
    (w : PRF.World i) :
    ∃ mc logs, Keyed (oneTimeKey i (Cipher.block fl i (Cipher.init fl i key)) n).1
        (oneTimeKey i (Cipher.block fl i (Cipher.init fl i key)) n).2 mc ∧
      prfMac fl coins (realState fl i key).prf (realState fl i key).ak ⟨n, ctr0 i⟩ w =
        some (mc, ⟨w.table, logs, w.requested ++ [⟨n, ctr0 i⟩]⟩) := by
  have ran := getBlock_run fl (Cipher.init_length fl size) (⟨n, ctr0 i⟩ : Domain) (UF1CMA_keylen_le i) w
  obtain ⟨cut, rawSize, maskSize⟩ := halves_block (Cipher.block_length fl i (Cipher.init fl i key)) n
  generalize oneTimeKey i (Cipher.block fl i (Cipher.init fl i key)) n = keys at cut rawSize maskSize ⊢
  obtain ⟨mc, keyed, -, allocated⟩ := alloc_run fl n w.logs cut rawSize maskSize
  refine ⟨mc, if fl.macLog = true then w.logs ++ [(n, none)] else w.logs, keyed, ?_⟩
  simp only [prfMac, realState, clear, Bool.false_eq_true, if_false, ran, Option.bind_eq_bind, Option.bind_some,
    UF1CMA.coerce, allocated, Option.pure_def]

/-- A text is encrypted by its pads, and each of its points is requested. -/
theorem enxor_real (coins : Coins) (clear : fl.prf i = false) (size : key.length = PRF.keylen i) (same : cipher.length = plain.length)
    (n : Cipher.Iv) (w : PRF.World i) :
    enxor fl coins (realState fl i key).prf n plain cipher w = some (padded fl i key n plain,
      { w with requested := w.requested ++ points n (otpOffset i) (numBlocksForLen i plain.length) }) :=
  counterLoop_combines (prfEnxor_combines clear (Cipher.init_length fl size)) same

/-- A text is decrypted by the same pads, at the same points. -/
theorem dexor_real (coins : Coins) (clear : fl.prf i = false) (size : key.length = PRF.keylen i) (same : plain.length = cipher.length)
    (n : Cipher.Iv) (w : PRF.World i) :
    dexor fl coins (realState fl i key).prf n plain cipher w = some (padded fl i key n cipher,
      { w with requested := w.requested ++ points n (otpOffset i) (numBlocksForLen i cipher.length) }) := by
  rw [dexor, same]
  exact counterLoop_combines (prfDexor_combines clear (Cipher.init_length fl size)) same

/-- Encryption writes the ciphertext and its tag, and requests the points of its blocks. -/
theorem encrypt_real (coins : Coins) (clear : fl.prf i = false) (size : key.length = PRF.keylen i)
    (room : cipherTagged.length = plain.length + 16) (n : Cipher.Iv) (aad : Bytes) (w : World i) :
    ∃ logs, encrypt fl coins (realState fl i key) n aad plain cipherTagged w =
      some (padded fl i key n plain ++ authTag fl i key n aad (padded fl i key n plain),
        { w with prf := { w.prf with logs, requested := w.prf.requested ++ encryptPoints i n plain.length } }) := by
  obtain ⟨mc, logs, keyed, ran⟩ := prfMac_real coins clear size n w.prf
  have short : (cipherTagged.take plain.length).length = plain.length := by rw [List.length_take]; omega
  have encrypted := enxor_real coins clear size short n
    ⟨w.prf.table, logs, w.prf.requested ++ [⟨n, ctr0 i⟩]⟩
  have bytes := padded_length fl i key n plain
  obtain ⟨acc, ran', absorbed⟩ := Encoding.accumulate_run keyed fl (UInt32.ofNat aad.length) aad
    (UInt32.ofNat plain.length) (padded fl i key n plain)
  have safe := Flags.safeMac_of_not_prf clear
  have tagged := mac_real n logs safe keyed absorbed
  have sameTag : authTag fl i key n aad (padded fl i key n plain) = MAC.mac (macAlgOfId i)
      (Encoding.encodeBoth i (UInt32.ofNat aad.length) aad (UInt32.ofNat plain.length) (padded fl i key n plain))
      (oneTimeKey i (Cipher.block fl i (Cipher.init fl i key)) n).1
      (oneTimeKey i (Cipher.block fl i (Cipher.init fl i key)) n).2 := by
    rw [authTag, encoded, bytes]
  -- The ciphertext and the tag fill the output.
  have cipherWritten : splice cipherTagged 0 (padded fl i key n plain) =
      padded fl i key n plain ++ cipherTagged.drop plain.length := by rw [splice_start, bytes]
  have tagWritten (tag : Bytes) (full : tag.length = 16) :
      splice (padded fl i key n plain ++ cipherTagged.drop plain.length) plain.length tag =
        padded fl i key n plain ++ tag := by
    have fits : tag.length = (cipherTagged.drop plain.length).length := by rw [List.length_drop]; omega
    have behind := splice_suffix (padded fl i key n plain) fits
    rwa [bytes] at behind
  refine ⟨logs, ?_⟩
  rw [sameTag]
  simp only [encrypt, ran, encrypted, ran', tagged, Option.bind_eq_bind, Option.bind_some, safe, cipherWritten,
    tagWritten _ (MAC.mac_length _ _ _ _), encryptPoints, List.append_assoc, List.singleton_append,
    Bool.false_eq_true, if_false, Option.pure_def]

/-- Decryption accepts exactly the tag of the ciphertext, and writes the plaintext only then. -/
theorem decrypt_real (coins : Coins) (clear : fl.prf i = false) (size : key.length = PRF.keylen i)
    (same : plain.length = cipher.length) {tag : Bytes} (full : tag.length = 16) (n : Cipher.Iv) (aad : Bytes)
    (w : World i) :
    ∃ w', decrypt fl coins (realState fl i key) n aad plain (cipher ++ tag) w =
      some (decide (authTag fl i key n aad cipher = tag),
        if authTag fl i key n aad cipher = tag then padded fl i key n cipher else plain, w') := by
  obtain ⟨mc, logs, keyed, ran⟩ := prfMac_real coins clear size n w.prf
  have front : (cipher ++ tag).take plain.length = cipher := by rw [same, List.take_left]
  have back : ((cipher ++ tag).drop plain.length).take MAC.taglen = tag := by
    rw [same, List.drop_left]
    exact List.take_of_length_le full.le
  obtain ⟨acc, ran', absorbed⟩ := Encoding.accumulate_run keyed fl (UInt32.ofNat aad.length) aad
    (UInt32.ofNat plain.length) cipher
  have safe := Flags.safeMac_of_not_prf clear
  have checked := verify_real tag logs safe keyed absorbed
  have sameTag : authTag fl i key n aad cipher = MAC.mac (macAlgOfId i)
      (Encoding.encodeBoth i (UInt32.ofNat aad.length) aad (UInt32.ofNat plain.length) cipher)
      (oneTimeKey i (Cipher.block fl i (Cipher.init fl i key)) n).1
      (oneTimeKey i (Cipher.block fl i (Cipher.init fl i key)) n).2 := by
    rw [authTag, encoded, same]
  rw [← sameTag] at checked
  have ideal := Flags.safeId_of_not_prf clear
  by_cases right : authTag fl i key n aad cipher = tag
  · rw [beq_iff_eq.mpr right] at checked
    have decrypted := dexor_real coins clear size same n ⟨w.prf.table, logs, w.prf.requested ++ [⟨n, ctr0 i⟩]⟩
    refine ⟨{ w with prf := ⟨w.prf.table, logs, (w.prf.requested ++ [⟨n, ctr0 i⟩]) ++
      points n (otpOffset i) (numBlocksForLen i cipher.length)⟩ }, ?_⟩
    simp only [decrypt, ran, front, back, ran', verify, checked, getVerifiedPlain, ideal, decryptVerified, decrypted,
      Option.bind_eq_bind, Option.bind_some, Option.map_some, if_true, right, decide_true, Bool.false_eq_true, if_false,
      Option.pure_def]
  · rw [beq_eq_false_iff_ne.mpr right] at checked
    refine ⟨{ w with prf := ⟨w.prf.table, logs, w.prf.requested ++ [⟨n, ctr0 i⟩]⟩ }, ?_⟩
    simp only [decrypt, ran, front, back, ran', verify, checked, decryptVerified, Option.bind_eq_bind, Option.bind_some,
      right, decide_false, Bool.false_eq_true, if_false]

end HaclStar.SecureApi.AEAD
