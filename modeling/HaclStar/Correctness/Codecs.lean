import HaclStar.SecureApi.BufferCodecs
import HaclStar.Spec.Lib

/-! Integers and byte strings: every way to write one and the way to read it back are inverse to each other. -/

namespace HaclStar.Correctness.Codecs

open Endianness Memory Words
open HaclStar.SecureApi.BufferCodecs
open HaclStar.Spec

/-- A store and a load of integers in buffers of up to `most` bytes that undo each other.

The load after the store returns the integer, and the store after the load restores the bytes, in the same buffer or
in any other one of that length. -/
structure Inverse {w : Nat} (most : Nat) (load : Nat → Buffer → Stack (BitVec w))
    (store : Nat → Buffer → BitVec w → Stack Unit) : Prop where
  load_store : ∀ (h : Mem) (buf : Buffer) (n : BitVec w), h.Live buf → buf.length ≤ most →
    n.toNat < 2 ^ (8 * buf.length) →
      ∃ bytes, bytes.length = buf.length ∧ store buf.length buf n h = some ((), h.write buf bytes) ∧
        load buf.length buf (h.write buf bytes) = some (n, h.write buf bytes)
  store_load : ∀ (h : Mem) (buf : Buffer), h.Live buf → buf.length ≤ most →
    ∃ n, load buf.length buf h = some (n, h) ∧ n.toNat < 2 ^ (8 * buf.length) ∧
      ∀ (h' : Mem) (buf' : Buffer), h'.Live buf' → buf'.length = buf.length →
        store buf.length buf' n h' = some ((), h'.write buf' (h.read buf))

/-- A load of the value of the bytes and a store of the bytes of the value undo each other. -/
theorem inverse_of_positional {w most : Nat} {load : Nat → Buffer → Stack (BitVec w)}
    {store : Nat → Buffer → BitVec w → Stack Unit} {value : Bytes → Nat} {bytes : Nat → Nat → Bytes}
    (loads : ∀ {h : Mem} {buf : Buffer}, h.Live buf → buf.length ≤ most →
      ∃ n, load buf.length buf h = some (n, h) ∧ n.toNat = value (h.read buf))
    (stores : ∀ {h : Mem} {buf : Buffer}, h.Live buf → buf.length ≤ most →
      ∀ n, store buf.length buf n h = some ((), h.write buf (bytes buf.length n.toNat)))
    (size : ∀ len n, (bytes len n).length = len) (below : ∀ x, value x < 2 ^ (8 * x.length))
    (value_bytes : ∀ len n, value (bytes len n) = n % 2 ^ (8 * len))
    (bytes_value : ∀ x, bytes x.length (value x) = x) : Inverse most load store := by
  constructor
  · intro h buf n live short fits
    have full : (bytes buf.length n.toNat).length = buf.length := size _ _
    have live' := live.write live full.le
    obtain ⟨n', ran, same⟩ := loads live' short
    rw [Mem.read_write_same live full, value_bytes, Nat.mod_eq_of_lt fits] at same
    have equal : n' = n := BitVec.eq_of_toNat_eq same
    rw [equal] at ran
    exact ⟨_, full, stores live short n, ran⟩
  · intro h buf live short
    obtain ⟨n, ran, same⟩ := loads live short
    have length := Mem.read_length live
    have bound := below (h.read buf)
    rw [length, ← same] at bound
    refine ⟨n, ran, bound, fun h' buf' live' size' => ?_⟩
    have restored := bytes_value (h.read buf)
    rw [length, ← same] at restored
    rw [← size', stores live' (by omega) n, size', restored]

theorem inverse_little {w most : Nat} (fits : 8 * most ≤ w) {join : UInt8 → BitVec w → BitVec w} (joins : Joins join) :
    Inverse most (loadLittle join) (@storeLittle w) :=
  inverse_of_positional (fun live short => loadLittle_run joins live rfl (by omega))
    (fun live short n => storeLittle_run live rfl (by omega) n)
    littleBytes_length littleEndian_lt littleEndian_littleBytes littleBytes_littleEndian

theorem inverse_big {w most : Nat} (fits : 8 * most ≤ w) {join : UInt8 → BitVec w → BitVec w} (joins : Joins join) :
    Inverse most (loadBig join) (@storeBig w) :=
  inverse_of_positional (fun live short => loadBig_run joins live rfl (by omega))
    (fun live short n => storeBig_run live rfl (by omega) n)
    bigBytes_length bigEndian_lt bigEndian_bigBytes bigBytes_bigEndian

/-- Two translations between byte strings and words of a width that are inverse, and that may be cut at the
boundaries of words. -/
structure Bijection {W : Type} (width : Nat) (fromBytes : (len : Nat) → Bytes → Vector W len)
    (toBytes : (len : Nat) → Vector W len → Bytes) : Prop where
  length : ∀ len src, (toBytes len src).length = width * len
  toBytes_fromBytes : ∀ len src, src.length = width * len → toBytes len (fromBytes len src) = src
  fromBytes_toBytes : ∀ len src, fromBytes len (toBytes len src) = src
  fromBytes_slice : ∀ {len i n : Nat} (src : Bytes) (within : i + n ≤ len), src.length = width * len →
    fromBytes n ((src.drop (width * i)).take (width * n)) = WordCodec.slice (fromBytes len src) i n within
  toBytes_slice : ∀ {len i n : Nat} (src : Vector W len) (within : i + n ≤ len),
    toBytes n (WordCodec.slice src i n within) = ((toBytes len src).drop (width * i)).take (width * n)

/-- The words of any encoding of fixed width are in bijection with the byte strings. -/
theorem bijection_of_codec {W : Type} (codec : WordCodec W) :
    Bijection codec.width codec.fromBytes codec.toBytes where
  length := codec.toBytes_length
  toBytes_fromBytes := codec.toBytes_fromBytes
  fromBytes_toBytes := codec.fromBytes_toBytes
  fromBytes_slice := fun _ within size => codec.fromBytes_slice size within
  toBytes_slice := codec.toBytes_slice

/-- All codecs of single integers and of sequences of words are inverse in both directions. -/
theorem codecs_inverse :
    (Inverse 4 loadUint32 storeUint32 ∧ Inverse 4 loadBig32 storeBig32 ∧
      Inverse 16 loadUint128 storeUint128 ∧ Inverse 16 loadBig128 storeBig128) ∧
    (Bijection 4 uint32sFromLe uint32sToLe ∧ Bijection 8 uint64sFromLe uint64sToLe ∧
      Bijection 4 uint32sFromBe uint32sToBe ∧ Bijection 8 uint64sFromBe uint64sToBe) :=
  ⟨⟨inverse_little (by decide) joins_uint32, inverse_big (by decide) joins_uint32,
      inverse_little (by decide) joins_uint128, inverse_big (by decide) joins_uint128⟩,
    bijection_of_codec uint32Le, bijection_of_codec uint64Le, bijection_of_codec uint32Be, bijection_of_codec uint64Be⟩

end HaclStar.Correctness.Codecs
