import HaclStar.Impl.Poly1305
import HaclStar.Spec.Chacha20Poly1305

/-! The authenticator over padded byte strings, fed one string after another. -/

namespace HaclStar.Impl.AeadPoly1305

open Endianness Memory Poly1305 Spec.Chacha20Poly1305 Spec.Poly1305

/-- A block that starts with the input and goes on with zeros. -/
def pad16Bytes (input : Buffer) (len : Nat) : Stack Buffer := do
  let b ← create 16
  Buffer.blit input 0 b 0 len
  return b

/-- The length of the whole blocks. -/
def mulDiv16 (len : UInt32) : UInt32 := (16 : UInt32) * (len >>> 4)

/-- Absorb the padded rest when there is one. -/
def padLast (st : Poly1305.State) (input : Buffer) (len : UInt32) : Stack Poly1305.State := inFrame do
  if len = 0 then return st
  else
    let b ← pad16Bytes input len.toNat
    update st b

/-- Start with a key, and absorb a padded byte string. -/
def blocksInit (input : Buffer) (len : UInt32) (k : Buffer) : Stack Poly1305.State := do
  let len16 := len >>> 4
  let rem16 := len &&& 15
  let kr ← k.sub 0 16
  let len' := mulDiv16 len
  let partInput ← input.sub 0 len'.toNat
  let lastBlock ← input.offset len'.toNat
  let st ← poly1305Partial partInput len16.toNat kr
  padLast st lastBlock rem16

/-- Absorb one more padded byte string. -/
def blocksContinue (st : Poly1305.State) (input : Buffer) (len : UInt32) : Stack Poly1305.State := do
  let len16 := len >>> 4
  let rem16 := len &&& 15
  let len' := mulDiv16 len
  let partInput ← input.sub 0 len'.toNat
  let lastBlock ← input.offset len'.toNat
  let st ← blocks st partInput len16.toNat
  padLast st lastBlock rem16

/-- Absorb a last whole block, and store the tag. -/
def blocksFinish (st : Poly1305.State) (input mac keyS : Buffer) : Stack Unit := do
  let st ← update st input
  let rest ← input.offset 16
  let st ← updateLast st rest 0
  finish st mac keyS

variable {h : Mem} {input mac k keyS : Buffer} {len : UInt32} {st : Poly1305.State} {kr done : Bytes}
variable {Absorbs : List Bytes → Poly1305.State → Prop}

/-- The number of whole blocks. -/
theorem shiftRight_four_toNat (len : UInt32) : (len >>> 4).toNat = len.toNat / 16 := by
  rw [UInt32.toNat_shiftRight]
  show len.toNat >>> 4 = _
  rw [Nat.shiftRight_eq_div_pow]

/-- The length of the rest. -/
theorem and_fifteen_toNat (len : UInt32) : (len &&& 15).toNat = len.toNat % 16 := by
  rw [UInt32.toNat_and]
  exact Nat.and_two_pow_sub_one_eq_mod len.toNat 4

/-- The whole blocks reach up to the last multiple of sixteen. -/
theorem mulDiv16_toNat (len : UInt32) : (mulDiv16 len).toNat = 16 * (len.toNat / 16) := by
  have small := len.toNat_lt
  rw [mulDiv16, UInt32.toNat_mul, shiftRight_four_toNat]
  show 16 * (len.toNat / 16) % 2 ^ 32 = _
  omega

/-- The rest of a byte string is absorbed with its padding. -/
theorem padLast_run (tracks : Tracks Absorbs) (whole : done.length % 16 = 0)
    (absorbed : Absorbs (encodeBytes done) st) (live : h.Live input) (size : input.length = len.toNat)
    (short : len.toNat < 16) :
    ∃ st', Absorbs (encodeBytes (done ++ pad16 (h.read input))) st' ∧
      padLast st input len h = some (st', h) := by
  have bytes := Mem.read_length live
  by_cases none : len = 0
  · -- There is no rest, and nothing is absorbed.
    subst none
    have empty : h.read input = [] := List.eq_nil_of_length_eq_zero (by rw [bytes, size]; rfl)
    refine ⟨st, by simpa [empty] using absorbed, ?_⟩
    exact inFrame_outer (by rw [if_pos rfl, Stack.pure_run]) (Mem.Outer.refl h) rfl
  · -- The rest is copied to a local block of zeros, which is absorbed.
    have positive : 0 < len.toNat := by
      rcases Nat.eq_zero_or_pos len.toNat with zero | positive
      · exact absurd (UInt32.toNat_inj.mp zero) none
      · exact positive
    have outer0 : h.Outer (h.alloc 16) := (Mem.Outer.refl h).alloc 16
    have fresh := Mem.fresh_live h 16
    have room : (h.fresh 16).length = 16 := rfl
    have copied := Buffer.blit_run (outer0.live live) fresh (show 0 + len.toNat ≤ input.length by omega)
      (show 0 + len.toNat ≤ (h.fresh 16).length by omega)
    rw [outer0.read live, List.drop_zero, List.take_of_length_le (by omega), Mem.write_slice_zero]
      at copied
    have fits : (h.read input).length ≤ (h.fresh 16).length := by omega
    have padded : ((h.alloc 16).write (h.fresh 16) (h.read input)).read (h.fresh 16) =
        pad16 (h.read input) := by
      rw [Mem.read_write_prefix fresh fits, Mem.read_fresh, List.drop_replicate]
      simp only [pad16]
      rw [if_neg (by omega), Nat.mod_eq_of_lt (by omega)]
    have full : (pad16 (h.read input)).length = 16 := by
      rw [← padded, Mem.read_length (fresh.write fresh fits), room]
    obtain ⟨st', absorbed', ran⟩ := update_run tracks absorbed (fresh.write fresh fits) room
    rw [padded, ← encodeBytes_concat whole (by
      intro empty
      rw [empty] at full
      exact absurd full (by decide)) full.le] at absorbed'
    refine ⟨st', absorbed', ?_⟩
    have filled : pad16Bytes input len.toNat h =
        some (h.fresh 16, (h.alloc 16).write (h.fresh 16) (h.read input)) := by
      rw [pad16Bytes, Stack.bind_run (create_run 16), Stack.bind_run copied, Stack.pure_run]
    exact inFrame_outer (by rw [if_neg none, Stack.bind_run filled, ran])
      (outer0.write_new (b := h.fresh 16) le_rfl _) rfl

/-- Whole blocks and a padded rest are absorbed as the padded byte string. -/
theorem blocks_padLast_run (tracks : Tracks Absorbs) (whole : done.length % 16 = 0)
    (absorbed : Absorbs (encodeBytes done) st) (live : h.Live input)
    (size : input.length = len.toNat) :
    ∃ st' st'', Absorbs (encodeBytes (done ++ pad16 (h.read input))) st'' ∧
      blocks st (input.slice 0 (16 * (len.toNat / 16))) (len.toNat / 16) h = some (st', h) ∧
      padLast st' (input.slice (16 * (len.toNat / 16)) (input.length - 16 * (len.toNat / 16)))
        (len &&& 15) h = some (st'', h) := by
  have bytes := Mem.read_length live
  set count := 16 * (len.toNat / 16) with count_def
  have within : count ≤ input.length := by omega
  have first := Mem.read_slice h input (i := 0) (n := count) (by omega)
  have rest := Mem.read_slice h input (i := count) (n := input.length - count) (by omega)
  rw [List.drop_zero] at first
  rw [List.take_of_length_le (by rw [List.length_drop]; omega)] at rest
  obtain ⟨st', absorbed', ran⟩ := blocks_run tracks whole absorbed (live.slice (i := 0) (n := count) (by omega))
    (len.toNat / 16) le_rfl
  rw [first, List.take_take, Nat.min_self] at absorbed'
  -- The whole blocks have a length divisible by sixteen, so the rest alone is padded.
  have taken : ((h.read input).take count).length = count := by rw [List.length_take]; omega
  have whole' : (done ++ (h.read input).take count).length % 16 = 0 := by
    rw [List.length_append, taken]
    omega
  have rest_size : (input.slice count (input.length - count)).length = (len &&& 15).toNat := by
    rw [and_fifteen_toNat, Buffer.slice_length]
    omega
  obtain ⟨st'', absorbed'', ran'⟩ := padLast_run tracks whole' absorbed'
    (live.slice (i := count) (n := input.length - count) (by omega)) rest_size
    (by rw [and_fifteen_toNat]; omega)
  rw [rest, List.append_assoc, ← pad16_append (by rw [taken]; omega), List.take_append_drop] at absorbed''
  exact ⟨st', st'', absorbed'', ran, ran'⟩

/-- One more byte string is absorbed with its padding. -/
theorem blocksContinue_run (tracks : Tracks Absorbs) (whole : done.length % 16 = 0)
    (absorbed : Absorbs (encodeBytes done) st) (live : h.Live input)
    (size : input.length = len.toNat) :
    ∃ st', Absorbs (encodeBytes (done ++ pad16 (h.read input))) st' ∧
      blocksContinue st input len h = some (st', h) := by
  obtain ⟨st', st'', absorbed', ran, ran'⟩ := blocks_padLast_run tracks whole absorbed live size
  refine ⟨st'', absorbed', ?_⟩
  rw [blocksContinue, mulDiv16_toNat, shiftRight_four_toNat, Stack.bind_run (Buffer.sub_run _ (by omega)),
    Stack.bind_run (Buffer.offset_run _ (by omega)), Stack.bind_run ran, ran']

/-- The first byte string is absorbed with its padding under the first half of the key. -/
theorem blocksInit_run (tracks : Tracks Absorbs)
    (begins : ∀ {st}, Absorbed ((h.read k).take 16) [] st → st.h = start → Absorbs [] st)
    (live : h.Live input) (liveK : h.Live k) (size : input.length = len.toNat)
    (keySize : 16 ≤ k.length) :
    ∃ st', Absorbs (encodeBytes (pad16 (h.read input))) st' ∧
      blocksInit input len k h = some (st', h) := by
  have key := Mem.read_slice h k (i := 0) (n := 16) (by omega)
  rw [List.drop_zero] at key
  obtain ⟨st, started, zero, ran⟩ := init_run (liveK.slice (i := 0) (n := 16) (by omega)) rfl
  rw [key] at started
  have begun := begins started zero
  rw [← encodeBytes_nil] at begun
  obtain ⟨st', st'', absorbed', ran', ran''⟩ := blocks_padLast_run tracks rfl begun live size
  rw [List.nil_append] at absorbed'
  refine ⟨st'', absorbed', ?_⟩
  rw [blocksInit, Stack.bind_run (Buffer.sub_run _ (by omega)), mulDiv16_toNat, shiftRight_four_toNat,
    Stack.bind_run (Buffer.sub_run _ (by omega)), Stack.bind_run (Buffer.offset_run _ (by omega)),
    poly1305Partial, Stack.bind_run (by rw [Stack.bind_run ran, ran']), ran'']

/-- A last block is absorbed, and the tag of everything absorbed is written. -/
theorem blocksFinish_run (whole : done.length % 16 = 0) (absorbed : Absorbed kr (encodeBytes done) st)
    (live : h.Live input) (liveMac : h.Live mac) (liveKey : h.Live keyS) (size : input.length = 16)
    (macSize : 16 ≤ mac.length) (keySize : keyS.length = 16) :
    blocksFinish st input mac keyS h = some ((), h.write mac (Spec.Poly1305.finish
      (poly (encodeBytes (done ++ h.read input)) (encodeR kr)) (h.read keyS))) := by
  have bytes := Mem.read_length live
  obtain ⟨st', absorbed', ran⟩ := update_run (absorbed_tracks kr) absorbed live size
  rw [← encodeBytes_concat whole (by
    intro empty
    rw [empty, size] at bytes
    exact absurd bytes (by decide)) (by omega)] at absorbed'
  -- Nothing is left for the final partial block.
  obtain ⟨st'', bound, value, ran'⟩ := updateLast_run (by rw [List.length_append]; omega) absorbed'
    (live.slice (i := 16) (n := input.length - 16) (by omega)) 0 (by decide) (Nat.zero_le _)
  rw [List.take_zero, List.append_nil] at value
  rw [blocksFinish, Stack.bind_run ran, Stack.bind_run (Buffer.offset_run _ (by omega)),
    Stack.bind_run ran', finish_run liveMac liveKey macSize keySize bound, value]

end HaclStar.Impl.AeadPoly1305
