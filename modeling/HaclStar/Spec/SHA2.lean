import HaclStar.Lib.Blocks
import HaclStar.Spec.Lib

/-! The SHA-2 hash functions on words of any size, and their three instances. -/

namespace HaclStar.Spec.SHA2

open Endianness Blocks Words

/-- The big-endian encoding of words of `n` bytes. -/
def wordBe (n : Nat) : WordCodec (BitVec (8 * n)) where
  width := n
  decode := fun bytes => BitVec.ofNat (8 * n) (bigEndian bytes)
  encode := fun word => bigBytes n word.toNat
  encode_length := fun word => bigBytes_length n word.toNat
  decode_encode := fun word => by
    rw [bigEndian_bigBytes, Nat.mod_eq_of_lt word.isLt, BitVec.ofNat_toNat, BitVec.setWidth_eq]
  encode_decode := fun bytes size => by
    have bound := bigEndian_lt bytes
    rw [size] at bound
    rw [BitVec.toNat_ofNat, Nat.mod_eq_of_lt bound, ← size, bigBytes_bigEndian]

/-- The eight words of a hash value have eight positions. -/
theorem create8_size {W : Type} (a b c d e f g h : W) : #[a, b, c, d, e, f, g, h].size = 8 := rfl

/-- A hash value from its eight words. -/
def create8 {W : Type} (a b c d e f g h : W) : Vector W 8 :=
  ⟨#[a, b, c, d, e, f, g, h], create8_size a b c d e f g h⟩

/-- Rotate a word towards its least significant bit. -/
def rotateRight {w : Nat} (a : BitVec w) (s : Nat) : BitVec w := (a >>> s) ||| (a <<< (w - s))

/-- What the hash functions differ in. -/
structure Algorithm (n sizeK : Nat) where
  bigSigma0 : BitVec (8 * n) → BitVec (8 * n)
  bigSigma1 : BitVec (8 * n) → BitVec (8 * n)
  smallSigma0 : BitVec (8 * n) → BitVec (8 * n)
  smallSigma1 : BitVec (8 * n) → BitVec (8 * n)
  k : Vector (BitVec (8 * n)) sizeK
  h0 : Vector (BitVec (8 * n)) 8
  sizeLen : Nat
  /-- The whole blocks that the number of padding zeros is counted from. -/
  padBlocks : Nat
  sizeHashFinal : Nat

variable {n sizeK : Nat}

/-- Choose between two words bit by bit. -/
def ch (x y z : BitVec (8 * n)) : BitVec (8 * n) := (x &&& y) ^^^ (~~~x &&& z)

/-- The majority of three words bit by bit. -/
def maj (x y z : BitVec (8 * n)) : BitVec (8 * n) := (x &&& y) ^^^ ((x &&& z) ^^^ (y &&& z))

/-- The bytes of a block of sixteen words. -/
def sizeBlock (n : Nat) : Nat := n * 16

variable (alg : Algorithm n sizeK)

namespace Algorithm

/-- The words scheduled for a block. -/
def ws (b : Vector (BitVec (8 * n)) 16) (t : Nat) : BitVec (8 * n) :=
  if early : t < 16 then b.get ⟨t, early⟩
  else
    let t16 := ws b (t - 16)
    let t15 := ws b (t - 15)
    let t7 := ws b (t - 7)
    let t2 := ws b (t - 2)
    let s1 := alg.smallSigma1 t2
    let s0 := alg.smallSigma0 t15
    s1 + (t7 + (s0 + t16))

/-- One round. -/
def shuffleCore (block : Vector (BitVec (8 * n)) 16) (hash : Vector (BitVec (8 * n)) 8) (t : Fin sizeK) :
    Vector (BitVec (8 * n)) 8 :=
  let a := hash.get 0
  let b := hash.get 1
  let c := hash.get 2
  let d := hash.get 3
  let e := hash.get 4
  let f := hash.get 5
  let g := hash.get 6
  let h := hash.get 7
  let t1 := h + alg.bigSigma1 e + ch e f g + alg.k.get t + alg.ws block t
  let t2 := alg.bigSigma0 a + maj a b c
  create8 (t1 + t2) a b c (d + t1) e f g

/-- All rounds. -/
def shuffle (hash : Vector (BitVec (8 * n)) 8) (block : Vector (BitVec (8 * n)) 16) :
    Vector (BitVec (8 * n)) 8 :=
  Fin.foldl sizeK (alg.shuffleCore block) hash

/-- Compress a block into a hash value. -/
def update (hash : Vector (BitVec (8 * n)) 8) (block : Bytes) : Vector (BitVec (8 * n)) 8 :=
  let b := (wordBe n).fromBytes 16 block
  let hash1 := alg.shuffle hash b
  Vector.zipWith (fun x y => x + y) hash hash1

/-- Compress block after block. The recursion is on the number of blocks. -/
def updateMulti (hash : Vector (BitVec (8 * n)) 8) (blocks : Bytes) : Vector (BitVec (8 * n)) 8 :=
  foldAll (sizeBlock n) alg.update hash blocks

/-- The number of zeros that complete a block. -/
def pad0Length (len : Nat) : Nat :=
  (((alg.padBlocks * sizeBlock n : Int) - (len + alg.sizeLen + 1)) % sizeBlock n).toNat

/-- The padding behind `prevlen` bytes of whole blocks and `len` more bytes. -/
def pad (prevlen len : Nat) : Bytes :=
  let tlen := prevlen + len
  let firstbyte : Bytes := [0x80]
  let zeros := List.replicate (alg.pad0Length len) 0
  let encodedlen := bigBytes alg.sizeLen (tlen * 8)
  firstbyte ++ zeros ++ encodedlen

/-- Compress the last bytes with the padding. -/
def updateLast (hash : Vector (BitVec (8 * n)) 8) (prevlen : Nat) (input : Bytes) :
    Vector (BitVec (8 * n)) 8 :=
  let blocks := alg.pad prevlen input.length
  alg.updateMulti hash (input ++ blocks)

/-- The bytes of the final words. -/
def finish (hashw : Vector (BitVec (8 * n)) 8) : Bytes :=
  (wordBe n).toBytes _ (hashw.take alg.sizeHashFinal)

/-- Hash a byte string. -/
def hash (input : Bytes) : Bytes :=
  let blocks := input.length / sizeBlock n
  let bs := input.take (blocks * sizeBlock n)
  let l := input.drop (blocks * sizeBlock n)
  let hash := alg.updateMulti alg.h0 bs
  let hash := alg.updateLast hash (blocks * sizeBlock n) l
  alg.finish hash

/-- Hash the padded byte string. -/
def hash' (input : Bytes) : Bytes :=
  let blocks := alg.pad 0 input.length
  alg.finish (alg.updateMulti alg.h0 (input ++ blocks))

end Algorithm

section Laws

variable [NeZero n] {alg}

/-- A block is not empty. -/
theorem sizeBlock_pos : 0 < sizeBlock n := Nat.mul_pos (Nat.pos_of_neZero n) (by decide)

namespace Algorithm

/-- The padding zeros complete a block. -/
theorem pad0Length_spec (len : Nat) :
    alg.pad0Length len < sizeBlock n ∧
      (len + 1 + alg.pad0Length len + alg.sizeLen) % sizeBlock n = 0 := by
  have positive := sizeBlock_pos (n := n)
  have low := Int.emod_nonneg ((alg.padBlocks * sizeBlock n : Int) - (len + alg.sizeLen + 1))
    (by omega : (sizeBlock n : Int) ≠ 0)
  have high := Int.emod_lt_of_pos ((alg.padBlocks * sizeBlock n : Int) - (len + alg.sizeLen + 1))
    (by omega : (0 : Int) < sizeBlock n)
  refine ⟨by rw [pad0Length]; omega, ?_⟩
  -- The number of zeros and the other bytes add up to whole blocks.
  have divided := Int.emod_add_mul_ediv ((alg.padBlocks * sizeBlock n : Int) - (len + alg.sizeLen + 1))
    (sizeBlock n)
  have total : ((len + 1 + alg.pad0Length len + alg.sizeLen : Nat) : Int) = sizeBlock n *
      (alg.padBlocks - ((alg.padBlocks * sizeBlock n : Int) - (len + alg.sizeLen + 1)) / sizeBlock n) := by
    rw [pad0Length, Int.mul_sub, Int.mul_comm (sizeBlock n : Int) alg.padBlocks]
    push_cast
    omega
  have divides : (sizeBlock n : Int) ∣ ((len + 1 + alg.pad0Length len + alg.sizeLen : Nat) : Int) :=
    ⟨_, total⟩
  exact Nat.mod_eq_zero_of_dvd (Int.natCast_dvd_natCast.mp divides)

/-- Fewer zeros than a block that complete one are the padding zeros. -/
theorem pad0Length_unique {len zeros : Nat} (few : zeros < sizeBlock n)
    (complete : (len + 1 + zeros + alg.sizeLen) % sizeBlock n = 0) : zeros = alg.pad0Length len := by
  obtain ⟨few', complete'⟩ := alg.pad0Length_spec len
  -- Both numbers have the same remainder.
  have congruent : (len + 1 + alg.sizeLen) + zeros ≡ (len + 1 + alg.sizeLen) + alg.pad0Length len
      [MOD sizeBlock n] := by
    rw [Nat.ModEq, Nat.add_right_comm _ _ zeros, Nat.add_right_comm _ _ (alg.pad0Length len), complete,
      complete']
  exact Nat.ModEq.eq_of_lt_of_lt (Nat.ModEq.add_left_cancel' _ congruent) few few'

/-- Whole blocks in front do not change the number of zeros. -/
theorem pad0Length_add {prevlen : Nat} (whole : prevlen % sizeBlock n = 0) (len : Nat) :
    alg.pad0Length (prevlen + len) = alg.pad0Length len := by
  obtain ⟨few, complete⟩ := alg.pad0Length_spec len
  refine (pad0Length_unique few ?_).symm
  rw [show prevlen + len + 1 + alg.pad0Length len + alg.sizeLen =
    prevlen + (len + 1 + alg.pad0Length len + alg.sizeLen) by omega, Nat.add_mod, whole, complete]
  rfl

omit [NeZero n] in
/-- The padding has a marker, its zeros and the length. -/
@[simp] theorem pad_length (prevlen len : Nat) :
    (alg.pad prevlen len).length = 1 + alg.pad0Length len + alg.sizeLen := by
  simp [pad, Nat.add_comm, Nat.add_left_comm]

/-- The padded length is the least one of whole blocks that holds the marker and the length. -/
theorem padded_least (prevlen : Nat) (input : Bytes) :
    IsLeast {size | size % sizeBlock n = 0 ∧ input.length + 1 + alg.sizeLen ≤ size}
      (input ++ alg.pad prevlen input.length).length := by
  obtain ⟨few, complete⟩ := alg.pad0Length_spec input.length
  have size : (input ++ alg.pad prevlen input.length).length =
      input.length + 1 + alg.pad0Length input.length + alg.sizeLen := by
    rw [List.length_append, pad_length]
    omega
  rw [size]
  refine ⟨⟨complete, by omega⟩, ?_⟩
  rintro other ⟨whole, holds⟩
  -- A smaller size of whole blocks would leave out a block, which has more bytes than the zeros.
  by_contra smaller
  have gap := Nat.mod_eq_zero_of_dvd
    ((Nat.dvd_sub (Nat.dvd_of_mod_eq_zero complete) (Nat.dvd_of_mod_eq_zero whole)))
  rw [Nat.mod_eq_of_lt (by omega)] at gap
  omega

omit [NeZero n] in
/-- A padded message that ends a padded message is that message: the length comes last. -/
theorem padded_suffix {x y : Bytes} (fits : x.length * 8 < 2 ^ (8 * alg.sizeLen))
    (fits' : y.length * 8 < 2 ^ (8 * alg.sizeLen))
    (suffix : (x ++ alg.pad 0 x.length) <:+ (y ++ alg.pad 0 y.length)) : x = y := by
  obtain ⟨front, joined⟩ := suffix
  have trailers := joined
  simp only [pad, Nat.zero_add, ← List.append_assoc] at trailers
  obtain ⟨-, lengths⟩ := List.append_inj' trailers (by simp)
  have size := bigBytes_injective fits fits' lengths
  -- Messages of one length are padded to one length, so nothing is in front.
  have same : x.length = y.length := by omega
  have counted := congrArg List.length joined
  simp only [List.length_append, pad_length, same] at counted
  rw [List.eq_nil_of_length_eq_zero (show front.length = 0 by omega), List.nil_append] at joined
  exact (List.append_inj joined same).1

/-- Whole blocks are compressed before what follows. -/
theorem updateMulti_append (hash : Vector (BitVec (8 * n)) 8) (first second : Bytes)
    (whole : first.length % sizeBlock n = 0) :
    alg.updateMulti hash (first ++ second) = alg.updateMulti (alg.updateMulti hash first) second :=
  foldAll_append sizeBlock_pos hash first second whole

/-- One block is one compression. -/
theorem updateMulti_block (hash : Vector (BitVec (8 * n)) 8) (block : Bytes)
    (whole : block.length = sizeBlock n) : alg.updateMulti hash block = alg.update hash block :=
  foldAll_block sizeBlock_pos hash block whole

/-- Finishing behind whole blocks is compressing the padded message. -/
theorem updateLast_updateMulti (hash : Vector (BitVec (8 * n)) 8) (done last : Bytes)
    (whole : done.length % sizeBlock n = 0) :
    alg.updateLast (alg.updateMulti hash done) done.length last =
      alg.updateMulti hash ((done ++ last) ++ alg.pad 0 (done ++ last).length) := by
  -- The padding depends on the total length alone.
  have same : alg.pad 0 (done ++ last).length = alg.pad done.length last.length := by
    simp only [pad, List.length_append, pad0Length_add whole, Nat.zero_add]
  rw [same, List.append_assoc, updateMulti_append hash done _ whole, updateLast]

omit [NeZero n] in
/-- A hash has its final words, each of its bytes. -/
theorem finish_length (hashw : Vector (BitVec (8 * n)) 8) (within : alg.sizeHashFinal ≤ 8) :
    (alg.finish hashw).length = n * alg.sizeHashFinal := by
  rw [finish, WordCodec.toBytes_length, Nat.min_eq_left within]
  rfl

/-- All whole blocks and then the rest with its padding are the padded message. -/
theorem updateLast_blocks (input : Bytes) :
    alg.updateLast (alg.updateMulti alg.h0 (input.take (input.length / sizeBlock n * sizeBlock n)))
        (input.length / sizeBlock n * sizeBlock n) (input.drop (input.length / sizeBlock n * sizeBlock n)) =
      alg.updateMulti alg.h0 (input ++ alg.pad 0 input.length) := by
  set count := input.length / sizeBlock n * sizeBlock n with count_def
  have within : count ≤ input.length := Nat.div_mul_le_self _ _
  have size : (input.take count).length = count := by rw [List.length_take]; omega
  have whole : (input.take count).length % sizeBlock n = 0 := by
    rw [size, count_def, Nat.mul_mod_left]
  have joined := alg.updateLast_updateMulti alg.h0 (input.take count) (input.drop count) whole
  rwa [List.take_append_drop, size] at joined

/-- The hash of a message is the hash of the padded message. -/
theorem hash_eq (input : Bytes) : alg.hash input = alg.hash' input := by
  simp only [hash, hash', updateLast_blocks]

/-- However whole blocks are cut off in front, the rest finishes the hash. -/
theorem finish_updateLast (done last : Bytes) (whole : done.length % sizeBlock n = 0) :
    alg.finish (alg.updateLast (alg.updateMulti alg.h0 done) done.length last) =
      alg.hash (done ++ last) := by
  rw [updateLast_updateMulti _ _ _ whole, hash_eq, hash']

end Algorithm

end Laws

section Instances

/-- The round constants of SHA-256. -/
def constants256 : Array (BitVec (8 * 4)) := #[
  0x428a2f98, 0x71374491, 0xb5c0fbcf, 0xe9b5dba5, 0x3956c25b, 0x59f111f1, 0x923f82a4, 0xab1c5ed5,
  0xd807aa98, 0x12835b01, 0x243185be, 0x550c7dc3, 0x72be5d74, 0x80deb1fe, 0x9bdc06a7, 0xc19bf174,
  0xe49b69c1, 0xefbe4786, 0x0fc19dc6, 0x240ca1cc, 0x2de92c6f, 0x4a7484aa, 0x5cb0a9dc, 0x76f988da,
  0x983e5152, 0xa831c66d, 0xb00327c8, 0xbf597fc7, 0xc6e00bf3, 0xd5a79147, 0x06ca6351, 0x14292967,
  0x27b70a85, 0x2e1b2138, 0x4d2c6dfc, 0x53380d13, 0x650a7354, 0x766a0abb, 0x81c2c92e, 0x92722c85,
  0xa2bfe8a1, 0xa81a664b, 0xc24b8b70, 0xc76c51a3, 0xd192e819, 0xd6990624, 0xf40e3585, 0x106aa070,
  0x19a4c116, 0x1e376c08, 0x2748774c, 0x34b0bcb5, 0x391c0cb3, 0x4ed8aa4a, 0x5b9cca4f, 0x682e6ff3,
  0x748f82ee, 0x78a5636f, 0x84c87814, 0x8cc70208, 0x90befffa, 0xa4506ceb, 0xbef9a3f7, 0xc67178f2]

theorem constants256_size : constants256.size = 64 := rfl

/-- The round constants of SHA-384 and SHA-512. -/
def constants512 : Array (BitVec (8 * 8)) := #[
  0x428a2f98d728ae22, 0x7137449123ef65cd, 0xb5c0fbcfec4d3b2f, 0xe9b5dba58189dbbc,
  0x3956c25bf348b538, 0x59f111f1b605d019, 0x923f82a4af194f9b, 0xab1c5ed5da6d8118,
  0xd807aa98a3030242, 0x12835b0145706fbe, 0x243185be4ee4b28c, 0x550c7dc3d5ffb4e2,
  0x72be5d74f27b896f, 0x80deb1fe3b1696b1, 0x9bdc06a725c71235, 0xc19bf174cf692694,
  0xe49b69c19ef14ad2, 0xefbe4786384f25e3, 0x0fc19dc68b8cd5b5, 0x240ca1cc77ac9c65,
  0x2de92c6f592b0275, 0x4a7484aa6ea6e483, 0x5cb0a9dcbd41fbd4, 0x76f988da831153b5,
  0x983e5152ee66dfab, 0xa831c66d2db43210, 0xb00327c898fb213f, 0xbf597fc7beef0ee4,
  0xc6e00bf33da88fc2, 0xd5a79147930aa725, 0x06ca6351e003826f, 0x142929670a0e6e70,
  0x27b70a8546d22ffc, 0x2e1b21385c26c926, 0x4d2c6dfc5ac42aed, 0x53380d139d95b3df,
  0x650a73548baf63de, 0x766a0abb3c77b2a8, 0x81c2c92e47edaee6, 0x92722c851482353b,
  0xa2bfe8a14cf10364, 0xa81a664bbc423001, 0xc24b8b70d0f89791, 0xc76c51a30654be30,
  0xd192e819d6ef5218, 0xd69906245565a910, 0xf40e35855771202a, 0x106aa07032bbd1b8,
  0x19a4c116b8d2d0c8, 0x1e376c085141ab53, 0x2748774cdf8eeb99, 0x34b0bcb5e19b48a8,
  0x391c0cb3c5c95a63, 0x4ed8aa4ae3418acb, 0x5b9cca4f7763e373, 0x682e6ff3d6b2b8a3,
  0x748f82ee5defb2fc, 0x78a5636f43172f60, 0x84c87814a1f0ab72, 0x8cc702081a6439ec,
  0x90befffa23631e28, 0xa4506cebde82bde9, 0xbef9a3f7b2c67915, 0xc67178f2e372532b,
  0xca273eceea26619c, 0xd186b8c721c0c207, 0xeada7dd6cde0eb1e, 0xf57d4f7fee6ed178,
  0x06f067aa72176fba, 0x0a637dc5a2c898a6, 0x113f9804bef90dae, 0x1b710b35131c471b,
  0x28db77f523047d84, 0x32caab7b40c72493, 0x3c9ebe0a15c9bebc, 0x431d67c49c100d4c,
  0x4cc5d4becb3e42b6, 0x597f299cfc657e2a, 0x5fcb6fab3ad6faec, 0x6c44198c4a475817]

theorem constants512_size : constants512.size = 80 := rfl

/-- SHA-256. -/
def sha256 : Algorithm 4 64 where
  bigSigma0 := fun x => rotateRight x 2 ^^^ (rotateRight x 13 ^^^ rotateRight x 22)
  bigSigma1 := fun x => rotateRight x 6 ^^^ (rotateRight x 11 ^^^ rotateRight x 25)
  smallSigma0 := fun x => rotateRight x 7 ^^^ (rotateRight x 18 ^^^ (x >>> 3))
  smallSigma1 := fun x => rotateRight x 17 ^^^ (rotateRight x 19 ^^^ (x >>> 10))
  k := ⟨constants256, constants256_size⟩
  h0 := create8
    0x6a09e667 0xbb67ae85 0x3c6ef372 0xa54ff53a
    0x510e527f 0x9b05688c 0x1f83d9ab 0x5be0cd19
  sizeLen := 8
  padBlocks := 1
  sizeHashFinal := 8

/-- SHA-384. -/
def sha384 : Algorithm 8 80 where
  bigSigma0 := fun x => rotateRight x 28 ^^^ (rotateRight x 34 ^^^ rotateRight x 39)
  bigSigma1 := fun x => rotateRight x 14 ^^^ (rotateRight x 18 ^^^ rotateRight x 41)
  smallSigma0 := fun x => rotateRight x 1 ^^^ (rotateRight x 8 ^^^ (x >>> 7))
  smallSigma1 := fun x => rotateRight x 19 ^^^ (rotateRight x 61 ^^^ (x >>> 6))
  k := ⟨constants512, constants512_size⟩
  h0 := create8
    0xcbbb9d5dc1059ed8 0x629a292a367cd507 0x9159015a3070dd17 0x152fecd8f70e5939
    0x67332667ffc00b31 0x8eb44a8768581511 0xdb0c2e0d64f98fa7 0x47b5481dbefa4fa4
  sizeLen := 16
  padBlocks := 1
  sizeHashFinal := 6

/-- SHA-512. -/
def sha512 : Algorithm 8 80 where
  bigSigma0 := fun x => rotateRight x 28 ^^^ (rotateRight x 34 ^^^ rotateRight x 39)
  bigSigma1 := fun x => rotateRight x 14 ^^^ (rotateRight x 18 ^^^ rotateRight x 41)
  smallSigma0 := fun x => rotateRight x 1 ^^^ (rotateRight x 8 ^^^ (x >>> 7))
  smallSigma1 := fun x => rotateRight x 19 ^^^ (rotateRight x 61 ^^^ (x >>> 6))
  k := ⟨constants512, constants512_size⟩
  h0 := create8
    0x6a09e667f3bcc908 0xbb67ae8584caa73b 0x3c6ef372fe94f82b 0xa54ff53a5f1d36f1
    0x510e527fade682d1 0x9b05688c2b3e6c1f 0x1f83d9abfb41bd6b 0x5be0cd19137e2179
  sizeLen := 16
  padBlocks := 2
  sizeHashFinal := 8

end Instances

end HaclStar.Spec.SHA2
