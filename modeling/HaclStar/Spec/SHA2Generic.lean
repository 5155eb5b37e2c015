import HaclStar.Spec.SHA2

/-! The generic SHA-2 specification, for all four algorithms. -/

namespace HaclStar.Spec.SHA2Generic

open Endianness Blocks Words SHA2

/-- The hash algorithms. -/
inductive HashAlg where
  | sha2_224
  | sha2_256
  | sha2_384
  | sha2_512
  deriving DecidableEq

/-- The bytes of a word. -/
def sizeWord : HashAlg → Nat
  | .sha2_224 | .sha2_256 => 4
  | .sha2_384 | .sha2_512 => 8

/-- The words of the final hash. -/
def sizeHashFinalW : HashAlg → Nat
  | .sha2_224 => 7
  | .sha2_256 => 8
  | .sha2_384 => 6
  | .sha2_512 => 8

/-- The bytes of a block. -/
def sizeBlock (a : HashAlg) : Nat := SHA2.sizeBlock (sizeWord a)

/-- The number of rounds. -/
def sizeKW : HashAlg → Nat
  | .sha2_224 | .sha2_256 => 64
  | .sha2_384 | .sha2_512 => 80

/-- The bytes of the length in the padding. -/
def sizeLen8 : HashAlg → Nat
  | .sha2_224 | .sha2_256 => 8
  | .sha2_384 | .sha2_512 => 16

/-- The bound on the bytes of an input. -/
def maxInput8 : HashAlg → Nat
  | .sha2_224 | .sha2_256 => 2 ^ 61
  | .sha2_384 | .sha2_512 => 2 ^ 125

/-- The distances of the rotations and shifts. -/
def op224_256 : List Nat := [2, 13, 22, 6, 11, 25, 7, 18, 3, 17, 19, 10]

def op384_512 : List Nat := [28, 34, 39, 14, 18, 41, 1, 8, 7, 19, 61, 6]

def op0 : HashAlg → Nat → Nat
  | .sha2_224, i => op224_256.getD i 0
  | .sha2_256, i => op224_256.getD i 0
  | .sha2_384, i => op384_512.getD i 0
  | .sha2_512, i => op384_512.getD i 0

/-- The round constants. -/
def k0 : (a : HashAlg) → Vector (BitVec (8 * sizeWord a)) (sizeKW a)
  | .sha2_224 => ⟨constants256, constants256_size⟩
  | .sha2_256 => ⟨constants256, constants256_size⟩
  | .sha2_384 => ⟨constants512, constants512_size⟩
  | .sha2_512 => ⟨constants512, constants512_size⟩

def h224 : Vector (BitVec (8 * 4)) 8 := create8
  0xc1059ed8 0x367cd507 0x3070dd17 0xf70e5939
  0xffc00b31 0x68581511 0x64f98fa7 0xbefa4fa4

/-- The initial hash value. -/
def h0 : (a : HashAlg) → Vector (BitVec (8 * sizeWord a)) 8
  | .sha2_224 => h224
  | .sha2_256 => sha256.h0
  | .sha2_384 => sha384.h0
  | .sha2_512 => sha512.h0

/-- What the algorithms differ in. -/
def params (a : HashAlg) : Algorithm (sizeWord a) (sizeKW a) where
  bigSigma0 := fun x => SHA2.rotateRight x (op0 a 0) ^^^ (SHA2.rotateRight x (op0 a 1) ^^^ SHA2.rotateRight x (op0 a 2))
  bigSigma1 := fun x => SHA2.rotateRight x (op0 a 3) ^^^ (SHA2.rotateRight x (op0 a 4) ^^^ SHA2.rotateRight x (op0 a 5))
  smallSigma0 := fun x => SHA2.rotateRight x (op0 a 6) ^^^ (SHA2.rotateRight x (op0 a 7) ^^^ (x >>> op0 a 8))
  smallSigma1 := fun x => SHA2.rotateRight x (op0 a 9) ^^^ (SHA2.rotateRight x (op0 a 10) ^^^ (x >>> op0 a 11))
  k := k0 a
  h0 := h0 a
  sizeLen := sizeLen8 a
  padBlocks := 1
  sizeHashFinal := sizeHashFinalW a

variable (a : HashAlg)

/-- One round. -/
def shuffleCore (block : Vector (BitVec (8 * sizeWord a)) 16) (hash : Vector (BitVec (8 * sizeWord a)) 8)
    (t : Fin (sizeKW a)) : Vector (BitVec (8 * sizeWord a)) 8 :=
  let a0 := hash.get 0
  let b0 := hash.get 1
  let c0 := hash.get 2
  let d0 := hash.get 3
  let e0 := hash.get 4
  let f0 := hash.get 5
  let g0 := hash.get 6
  let h0 := hash.get 7
  let t1 := h0 + ((params a).bigSigma1 e0 + (ch e0 f0 g0 + ((k0 a).get t + (params a).ws block t)))
  let t2 := (params a).bigSigma0 a0 + maj a0 b0 c0
  create8 (t1 + t2) a0 b0 c0 (d0 + t1) e0 f0 g0

/-- All rounds. -/
def shuffle (hash : Vector (BitVec (8 * sizeWord a)) 8) (block : Vector (BitVec (8 * sizeWord a)) 16) :
    Vector (BitVec (8 * sizeWord a)) 8 :=
  Fin.foldl (sizeKW a) (shuffleCore a block) hash

/-- Compress a block into a hash value. -/
def update (hash : Vector (BitVec (8 * sizeWord a)) 8) (block : Bytes) : Vector (BitVec (8 * sizeWord a)) 8 :=
  let blockW := (wordBe (sizeWord a)).fromBytes 16 block
  let hash1 := shuffle a hash blockW
  Vector.zipWith (fun x y => x + y) hash hash1

/-- Compress block after block. The recursion is on the number of blocks. -/
def updateMulti (hash : Vector (BitVec (8 * sizeWord a)) 8) (blocks : Bytes) :
    Vector (BitVec (8 * sizeWord a)) 8 :=
  foldAll (sizeBlock a) (update a) hash blocks

/-- The number of zeros that complete a block. -/
def pad0Length (len : Nat) : Nat := (params a).pad0Length len

/-- The padding behind `prevlen` bytes of whole blocks and `len` more bytes. -/
def pad (prevlen len : Nat) : Bytes := (params a).pad prevlen len

/-- Compress the last bytes with the padding. -/
def updateLast (hash : Vector (BitVec (8 * sizeWord a)) 8) (prevlen : Nat) (input : Bytes) :
    Vector (BitVec (8 * sizeWord a)) 8 :=
  let blocks := pad a prevlen input.length
  updateMulti a hash (input ++ blocks)

/-- The bytes of the final words. -/
def finish (hashw : Vector (BitVec (8 * sizeWord a)) 8) : Bytes := (params a).finish hashw

/-- Hash a byte string block by block. -/
def hash (input : Bytes) : Bytes :=
  let n := input.length / sizeBlock a
  let bs := input.take (n * sizeBlock a)
  let l := input.drop (n * sizeBlock a)
  let hash := updateMulti a (h0 a) bs
  let hash := updateLast a hash (n * sizeBlock a) l
  finish a hash

/-- Hash the padded byte string. -/
def hash' (input : Bytes) : Bytes :=
  let blocks := pad a 0 input.length
  finish a (updateMulti a (h0 a) (input ++ blocks))

instance : NeZero (sizeWord a) := ⟨by cases a <;> decide⟩

/-- The rounds add the same words in another order. -/
theorem shuffleCore_eq : shuffleCore a = (params a).shuffleCore := by
  funext block hash t
  simp only [shuffleCore, Algorithm.shuffleCore, BitVec.add_assoc]
  rfl

/-- The compression of the generic specification is that of its parameters. -/
theorem update_eq : update a = (params a).update := by
  funext hash block
  simp only [update, shuffle, shuffleCore_eq, Algorithm.update, Algorithm.shuffle]

theorem updateMulti_eq : updateMulti a = (params a).updateMulti := by
  funext hash blocks
  simp only [updateMulti, update_eq, Algorithm.updateMulti, sizeBlock]

theorem updateLast_eq : updateLast a = (params a).updateLast := by
  funext hash prevlen input
  simp only [updateLast, updateMulti_eq, pad, Algorithm.updateLast]

/-- Both ways to hash are those of the parameters. -/
theorem hash_params (input : Bytes) : hash a input = (params a).hash input := by
  simp only [hash, updateMulti_eq, updateLast_eq, finish, sizeBlock, Algorithm.hash]
  rfl

theorem hash'_params (input : Bytes) : hash' a input = (params a).hash' input := by
  simp only [hash', updateMulti_eq, pad, finish, Algorithm.hash']
  rfl

/-- The length of an input fits in the length field. -/
theorem length_fits {input : Bytes} (short : input.length < maxInput8 a) :
    input.length * 8 < 2 ^ (8 * sizeLen8 a) := by
  cases a <;> simp only [maxInput8, sizeLen8] at short ⊢ <;> omega

end HaclStar.Spec.SHA2Generic
