import HaclStar.Api.NaCl
import HaclStar.Correctness.SecretBox

/-! Sealing and opening with a shared key, behind the C interface. -/

namespace HaclStar.Correctness.Box

open Endianness Keystream Memory Spec.SecretBox Api.SecretBox.ZeroPad Correctness.SecretBox

section Detached

open Api.Haclnacl

/-- What opening promises: it accepts exactly the tag of the ciphertext, changes the message only then,
never changes the tag, and restores what the specification seals to this ciphertext and tag. -/
structure Opens (h h' : Mem) (r : UInt32) (m c mac n k : Buffer) : Prop where
  code : r = 0 ↔ (h.read mac).take 16 = tag (h.read k) (h.read n) ((h.read c).drop 32)
  unchanged : r ≠ 0 → h'.read m = h.read m
  keepsMac : h'.read mac = h.read mac
  restores : ∀ msg, h.read c = List.replicate 32 0 ++ (secretboxDetached msg (h.read k) (h.read n)).2 →
    (h.read mac).take 16 = (secretboxDetached msg (h.read k) (h.read n)).1 →
    r = 0 ∧ h'.read m = List.replicate 32 0 ++ msg

/-- The buffers of a ciphertext, its tag and the message: the tag has at least sixteen bytes. -/
structure DetachedViews (h : Mem) (m c mac n k : Buffer) (len : UInt64) : Prop where
  liveM : h.Live m
  liveC : h.Live c
  liveMac : h.Live mac
  liveN : h.Live n
  liveK : h.Live k
  nonceSize : n.length = 24
  keySize : k.length = 32
  sizeM : m.length = len.toNat + 32
  sizeC : c.length = len.toNat + 32
  sizeMac : 16 ≤ mac.length
  bounded : len.toNat + 32 < 2 ^ 32
  apartM : c.Disjoint m
  apartC : mac.Disjoint c
  apartMac : mac.Disjoint m

variable {h : Mem} {m c mac n k : Buffer} {len : UInt64}

/-- Where the tag buffer goes on long enough, its bytes are sealed to the message buffer. -/
theorem cryptoBoxOpenDetachedAfternm_run (views : DetachedViews h m c mac n k len)
    (long : len.toNat + 32 ≤ mac.length) :
    ∃ h', cryptoBoxOpenDetachedAfternm m c mac len n k h = some (0, h') ∧
      h'.read m = List.replicate 32 0 ++
        encipher (h.read k) (h.read n) (((h.read mac).take (len.toNat + 32)).drop 32) ∧
      h'.read mac = h.read mac := by
  obtain ⟨liveM, liveC, liveMac, liveN, liveK, nonceSize, keySize, sizeM, sizeC, sizeMac, bounded, apartM,
    apartC, apartMac⟩ := views
  have bytes := Mem.read_length liveMac
  have args : Args h m mac n k len := ⟨liveM, liveMac, liveN, liveK, nonceSize, keySize,
    Or.inr apartMac.symm, bounded, sizeM.ge, long⟩
  have ran := cryptoSecretboxDetached_run args liveC (by omega) apartM
  have size := masked_length args
  rw [masked, drop_boxStream] at ran
  set plain := List.replicate 32 0 ++
    encipher (h.read k) (h.read n) (((h.read mac).take (len.toNat + 32)).drop 32) with plain_def
  have plainSize : plain.length = m.length := by
    rw [plain_def, List.length_append, List.length_replicate, encipher_length, List.length_drop,
      List.length_take]
    omega
  have liveC1 : (h.write m plain).Live c := liveC.write liveM plainSize.le
  have tagFits (cipher key : Bytes) : (Spec.Poly1305.poly1305 cipher key).length ≤ c.length := by
    rw [Spec.Poly1305.poly1305_length]
    omega
  refine ⟨_, ran, ?_, ?_⟩
  · rw [Mem.read_write_disjoint liveC1 (tagFits _ _) apartM, Mem.read_write_same liveM plainSize]
  · rw [Mem.read_write_disjoint liveC1 (tagFits _ _) apartC.symm,
      Mem.read_write_disjoint liveM plainSize.le apartMac.symm]

/-- Where the tag buffer ends before that, its end is left. -/
theorem cryptoBoxOpenDetachedAfternm_fault (views : DetachedViews h m c mac n k len)
    (short : mac.length < len.toNat + 32) : cryptoBoxOpenDetachedAfternm m c mac len n k h = none :=
  cryptoSecretboxDetached_fault c views.liveN views.liveK views.nonceSize views.keySize
    (by have := views.bounded; omega) (by have := views.bounded; have := views.sizeM; omega)
    (Or.inr ⟨short, views.bounded⟩)

/-- Opening keeps its promise exactly when the buffer of the tag goes on for the length of the padded
message, starts with the right tag and, for a zero-padded ciphertext, repeats this ciphertext. -/
theorem openDetachedAfternm_opens_iff (views : DetachedViews h m c mac n k len) :
    (∃ r h', cryptoBoxOpenDetachedAfternm m c mac len n k h = some (r, h') ∧
      Opens h h' r m c mac n k) ↔
    len.toNat + 32 ≤ mac.length ∧
      (h.read mac).take 16 = tag (h.read k) (h.read n) ((h.read c).drop 32) ∧
      ((h.read c).take 32 = List.replicate 32 0 →
        ((h.read mac).take (len.toNat + 32)).drop 32 = (h.read c).drop 32) := by
  rcases Nat.lt_or_ge mac.length (len.toNat + 32) with short | long
  · have faults := cryptoBoxOpenDetachedAfternm_fault views short
    constructor
    · rintro ⟨r, h', ran, -⟩
      rw [faults] at ran
      exact absurd ran nofun
    · omega
  · obtain ⟨h1, ran, readM, readMac⟩ := cryptoBoxOpenDetachedAfternm_run views long
    -- A zero-padded ciphertext with the right tag is what the specification seals its message to.
    constructor
    · rintro ⟨r, h', ran', opens⟩
      rw [ran] at ran'
      obtain ⟨rfl, rfl⟩ := Prod.mk.inj (Option.some.inj ran')
      have right := opens.code.mp rfl
      refine ⟨long, right, fun zeros => ?_⟩
      have restored := (opens.restores (encipher (h.read k) (h.read n) ((h.read c).drop 32)) (by
        rw [secretboxDetached_eq, encipher_involutive, ← zeros, List.take_append_drop]) (by
        rw [secretboxDetached_eq, encipher_involutive, right])).2
      rw [readM] at restored
      have same := List.append_cancel_left restored
      rw [← encipher_involutive (h.read k) (h.read n) (((h.read mac).take (len.toNat + 32)).drop 32),
        same, encipher_involutive]
    · rintro ⟨-, right, repeats⟩
      refine ⟨0, h1, ran, ⟨⟨fun _ => right, fun _ => rfl⟩, fun nonzero => absurd rfl nonzero, readMac,
        fun msg sealed _ => ⟨rfl, ?_⟩⟩⟩
      have zeros : (h.read c).take 32 = List.replicate 32 0 := by
        rw [sealed, List.take_left' List.length_replicate]
      rw [readM, repeats zeros, sealed, List.drop_left' List.length_replicate, secretboxDetached_eq,
        encipher_involutive]

theorem openDetachedAfternm_opens_zero :
    (∃ r h', cryptoBoxOpenDetachedAfternm (whole 0 32) (whole 1 32) (whole 2 16) 0 (whole 3 24)
        (whole 4 32) (zeroMem [32, 32, 16, 24, 32]) = some (r, h') ∧
      Opens (zeroMem [32, 32, 16, 24, 32]) h' r (whole 0 32) (whole 1 32) (whole 2 16) (whole 3 24)
        (whole 4 32)) ↔
    (0 : UInt64).toNat + 32 ≤ (whole 2 16).length ∧
      ((zeroMem [32, 32, 16, 24, 32]).read (whole 2 16)).take 16 =
        tag ((zeroMem [32, 32, 16, 24, 32]).read (whole 4 32))
          ((zeroMem [32, 32, 16, 24, 32]).read (whole 3 24))
          (((zeroMem [32, 32, 16, 24, 32]).read (whole 1 32)).drop 32) ∧
      (((zeroMem [32, 32, 16, 24, 32]).read (whole 1 32)).take 32 = List.replicate 32 0 →
        (((zeroMem [32, 32, 16, 24, 32]).read (whole 2 16)).take ((0 : UInt64).toNat + 32)).drop 32 =
          ((zeroMem [32, 32, 16, 24, 32]).read (whole 1 32)).drop 32) :=
  openDetachedAfternm_opens_iff (by constructor <;> decide)

/-- A zero tag on the empty message is accepted under a zero key, though it is not the right one. -/
theorem openDetachedAfternm_accepts_forged :
    ¬ ∃ r h', cryptoBoxOpenDetachedAfternm (whole 0 32) (whole 1 32) (whole 2 32) 0 (whole 3 24)
        (whole 4 32) (zeroMem [32, 32, 32, 24, 32]) = some (r, h') ∧
      Opens (zeroMem [32, 32, 32, 24, 32]) h' r (whole 0 32) (whole 1 32) (whole 2 32) (whole 3 24)
        (whole 4 32) := by
  have views : DetachedViews (zeroMem [32, 32, 32, 24, 32]) (whole 0 32) (whole 1 32) (whole 2 32)
      (whole 3 24) (whole 4 32) 0 := by constructor <;> decide
  obtain ⟨h1, ran, -⟩ := cryptoBoxOpenDetachedAfternm_run views (by decide)
  rintro ⟨r, h', ran', opens⟩
  rw [ran] at ran'
  exact tag_zero_ne (opens.code.mp (Prod.mk.inj (Option.some.inj ran')).1.symm).symm

end Detached

section Precomputed

open Api.Box Api.Haclnacl

/-- The buffers of two calls that read one input under one length: the first computes the shared key,
the second is given the key computed before. -/
structure Calls (curve : Curve25519) (h0 h : Mem) (output output' input n pk sk k : Buffer)
    (len : UInt64) : Prop where
  liveOutput : h0.Live output
  liveOutput' : h0.Live output'
  liveInput : h0.Live input
  liveN : h0.Live n
  livePk : h0.Live pk
  liveSk : h0.Live sk
  liveK : h0.Live k
  nonceSize : n.length = 24
  pkSize : pk.length = 32
  keySize : k.length = 32
  views : SameOrDisjoint output input
  views' : SameOrDisjoint output' input
  apartPk : k.Disjoint pk
  apartSk : k.Disjoint sk
  padded : 32 ≤ len.toNat
  fits : len.toNat ≤ output.length
  fits' : len.toNat ≤ output'.length
  within : len.toNat ≤ input.length
  bounded : output.length < 2 ^ 32
  bounded' : output'.length < 2 ^ 32
  bounded'' : input.length < 2 ^ 32
  computed : Api.Haclnacl.cryptoBoxBeforenm curve k pk sk h0 = some (0, h)

variable {curve : Curve25519} {h0 h : Mem} {output output' input n pk sk k : Buffer} {len : UInt64}

/-- After the shared key has been computed, everything is live, and the key is the shared one. -/
theorem Calls.keyed (calls : Calls curve h0 h output output' input n pk sk k len) :
    (∀ b, h0.Live b → h.Live b) ∧ h.read k = sharedKey curve (h.read pk) (h.read sk) := by
  have ran := cryptoBoxBeforenm_run curve calls.liveK calls.livePk calls.liveSk calls.keySize
  have same : Api.Box.cryptoBoxBeforenm curve k pk sk h0 = some (0, h) := calls.computed
  rw [ran] at same
  obtain rfl := (Prod.mk.inj (Option.some.inj same)).2
  have size : (sharedKey curve (h0.read pk) (h0.read sk)).length = k.length := by
    rw [sharedKey_length, calls.keySize]
  refine ⟨fun b live => live.write calls.liveK size.le, ?_⟩
  rw [Mem.read_write_same calls.liveK size, Mem.read_write_disjoint calls.liveK size.le calls.apartPk,
    Mem.read_write_disjoint calls.liveK size.le calls.apartSk]

/-- The first call takes the padding off the length. -/
theorem Calls.shorter (calls : Calls curve h0 h output output' input n pk sk k len) :
    (len - 32).toNat = len.toNat - 32 :=
  UInt64.toNat_sub_of_le _ _ calls.padded

/-- The arguments of the first call. -/
theorem Calls.args (calls : Calls curve h0 h output output' input n pk sk k len) :
    Args h output input n pk (len - 32) := by
  have shorter := calls.shorter
  have padded := calls.padded
  have fits := calls.fits
  have within := calls.within
  have bounded := calls.bounded
  have live := calls.keyed.1
  exact ⟨live _ calls.liveOutput, live _ calls.liveInput, live _ calls.liveN, live _ calls.livePk,
    calls.nonceSize, calls.pkSize, calls.views, by omega, by omega, by omega⟩

/-- The arguments of the second call, when its buffers reach beyond the length. -/
theorem Calls.args' (calls : Calls curve h0 h output output' input n pk sk k len)
    (long : len.toNat + 32 ≤ output'.length) (long' : len.toNat + 32 ≤ input.length) :
    Args h output' input n k len := by
  have bounded := calls.bounded'
  have live := calls.keyed.1
  exact ⟨live _ calls.liveOutput', live _ calls.liveInput, live _ calls.liveN, live _ calls.liveK,
    calls.nonceSize, calls.keySize, calls.views', by omega, long, long'⟩

end Precomputed

end HaclStar.Correctness.Box
