import HaclStar.Impl.HMAC
import HaclStar.Impl.Policies

/-! The NaCl authenticator: the C functions in front of HMAC-SHA2-256. A C pointer carries no length, so a
callee views as many bytes from it as its own argument has. -/

namespace HaclStar.Api.Haclnacl

open Endianness Memory Impl

/-- The key goes to the core of HMAC as it is, where it is viewed as one block. -/
def cryptoAuth (output input : Buffer) (inputLen : UInt64) (key : Buffer) : Stack Int := do
  let len := inputLen.toUInt32
  HMAC.hmacCore (output.slice 0 32) (key.slice 0 64) (input.slice 0 len.toNat) len
  return 0

/-- Keep the mask while the bytes of the tags agree. -/
def compareTags (tag recomputedTag : Buffer) (len : Nat) : Stack UInt8 :=
  forLoop (fun i tmp => do
    let x ← tag.index i
    let y ← recomputedTag.index i
    return tmp &&& Policies.eqMask x y) len 0xff

/-- Zero when the tag is the one computed again, and minus one otherwise. -/
def cryptoAuthVerify (tag input : Buffer) (inputLen : UInt64) (key : Buffer) : Stack Int := inFrame do
  let recomputedTag ← create 32
  let len := inputLen.toUInt32
  HMAC.hmacCore recomputedTag (key.slice 0 64) (input.slice 0 len.toNat) len
  let tmp ← compareTags tag recomputedTag 32
  let tmp := tmp >>> 7
  return (tmp.toNat : Int) - 1

/-- A 32-byte key, an input whose length leaves room for a block, and room for a tag. -/
structure AuthArgs (h : Mem) (tag input : Buffer) (inputLen : UInt64) (key : Buffer) : Prop where
  liveTag : h.Live tag
  liveInput : h.Live input
  liveKey : h.Live key
  tagSize : tag.length = 32
  inputSize : input.length = inputLen.toNat
  keySize : key.length = 32
  bounded : inputLen.toNat < 2 ^ 32 - 64

/-- The block that the core of HMAC finds where the key is: the key and what is stored behind it. -/
def keyBlock (h : Mem) (key : Buffer) : Bytes := h.read key ++ h.read (key.slice 32 32)

variable {h : Mem} {tag input key : Buffer} {inputLen : UInt64}

/-- The loop over the tags tells whether they agree. -/
theorem compareTags_run {recomputedTag : Buffer} (live : h.Live tag) (live' : h.Live recomputedTag)
    (size : tag.length = 32) (size' : recomputedTag.length = 32) :
    compareTags tag recomputedTag 32 h =
      some (if h.read tag = h.read recomputedTag then 255 else 0, h) := by
  have bytes := Mem.read_length live
  have bytes' := Mem.read_length live'
  have ran := Policies.mask_run 32 live live' size.ge size'.ge
  rw [List.take_of_length_le (by omega), List.take_of_length_le (by omega)] at ran
  -- The C loop conjoins the mask from the left.
  rw [← ran, compareTags, Policies.cmpBytes_]
  simp only [UInt8.and_comm]

namespace AuthArgs

/-- The cast to 32 bits keeps the length. -/
theorem cast (args : AuthArgs h tag input inputLen key) :
    inputLen.toUInt32.toNat = inputLen.toNat := by
  have small := args.bounded
  rw [UInt64.toNat_toUInt32]
  omega

/-- The callee views the whole input. -/
theorem inputView (args : AuthArgs h tag input inputLen key) :
    input.slice 0 inputLen.toUInt32.toNat = input := by
  rw [args.cast, ← args.inputSize, Buffer.slice_all]

/-- What the callee reads as its key. -/
theorem keyView (args : AuthArgs h tag input inputLen key) :
    h.read (key.slice 0 64) = keyBlock h key := by
  have parts := Mem.read_slice_append h key 0 32 32
  have first : key.slice 0 32 = key := by rw [← args.keySize, Buffer.slice_all]
  rw [first] at parts
  exact parts

end AuthArgs

/-- The authenticator is that of the key and what is stored behind it. -/
theorem cryptoAuth_run (args : AuthArgs h tag input inputLen key) (readable : h.Live (key.slice 0 64)) :
    cryptoAuth tag input inputLen key h =
      some (0, h.write tag (Spec.HMAC.hmacCore (keyBlock h key) (h.read input))) := by
  have live : h.Live (tag.slice 0 32) := args.liveTag.slice (by rw [args.tagSize])
  have size : (input.slice 0 inputLen.toUInt32.toNat).length = inputLen.toUInt32.toNat := rfl
  have ran := HMAC.hmacCore_run live readable (by rw [args.inputView]; exact args.liveInput) rfl rfl size
  rw [cryptoAuth, Stack.bind_run ran, args.keyView, args.inputView, Stack.pure_run]
  rfl

/-- A key at the end of its object is read beyond the object. -/
theorem cryptoAuth_fault (args : AuthArgs h tag input inputLen key)
    (beyond : ¬ h.Live (key.slice 0 64)) : cryptoAuth tag input inputLen key h = none := by
  have faults : HMAC.hmacCore (tag.slice 0 32) (key.slice 0 64) (input.slice 0 inputLen.toUInt32.toNat)
      inputLen.toUInt32 h = none :=
    HMAC.hmacCore_fault (Buffer.slice_length key 0 64) args.liveKey.1 beyond
  exact Stack.bind_fault faults _

/-- Verification compares with the authenticator of the key and what is stored behind it. -/
theorem cryptoAuthVerify_run (args : AuthArgs h tag input inputLen key)
    (readable : h.Live (key.slice 0 64)) :
    cryptoAuthVerify tag input inputLen key h =
      some (if h.read tag = Spec.HMAC.hmacCore (keyBlock h key) (h.read input) then 0 else -1, h) := by
  set computed := Spec.HMAC.hmacCore (keyBlock h key) (h.read input) with computed_def
  have computedSize : computed.length = 32 := Spec.SHA2.Algorithm.finish_length _ (by decide)
  have outer1 : h.Outer (h.alloc 32) := (Mem.Outer.refl h).alloc 32
  have fresh := Mem.fresh_live h 32
  have liveInput : h.Live (input.slice 0 inputLen.toUInt32.toNat) := by
    rw [args.inputView]; exact args.liveInput
  -- The recomputed tag goes to a buffer of the function's own frame.
  have ran := HMAC.hmacCore_run fresh (outer1.live readable) (outer1.live liveInput) rfl rfl
    (show (input.slice 0 inputLen.toUInt32.toNat).length = inputLen.toUInt32.toNat from rfl)
  rw [outer1.read readable, outer1.read liveInput, args.keyView] at ran
  have inputBytes := congrArg h.read args.inputView
  rw [inputBytes, ← computed_def] at ran
  have outer2 : h.Outer ((h.alloc 32).write (h.fresh 32) computed) := outer1.write_new le_rfl _
  have compared := compareTags_run (outer2.live args.liveTag)
    (fresh.write fresh (by rw [computedSize]; exact le_rfl)) args.tagSize rfl
  rw [outer2.read args.liveTag, Mem.read_write_same fresh computedSize] at compared
  refine inFrame_outer ?_ outer2 rfl
  rw [Stack.bind_run (create_run 32), Stack.bind_run ran, Stack.bind_run compared]
  -- The top bit of the mask is the answer.
  split <;> rfl

/-- Verification reads beyond the object of the key as well. -/
theorem cryptoAuthVerify_fault (args : AuthArgs h tag input inputLen key)
    (beyond : ¬ h.Live (key.slice 0 64)) : cryptoAuthVerify tag input inputLen key h = none := by
  have outer : h.Outer (h.alloc 32) := (Mem.Outer.refl h).alloc 32
  have allocated := args.liveKey.1
  have beyond' : ¬ (h.alloc 32).Live (key.slice 0 64) := by
    intro live
    have bound := live.2
    rw [Buffer.slice_base, outer.block allocated] at bound
    exact beyond ⟨allocated, bound⟩
  have faults : HMAC.hmacCore (h.fresh 32) (key.slice 0 64) (input.slice 0 inputLen.toUInt32.toNat)
      inputLen.toUInt32 (h.alloc 32) = none :=
    HMAC.hmacCore_fault (Buffer.slice_length key 0 64) (allocated.trans_le outer.length_le) beyond'
  refine inFrame_fault ?_
  rw [Stack.bind_run (create_run 32)]
  exact Stack.bind_fault faults _

end HaclStar.Api.Haclnacl
