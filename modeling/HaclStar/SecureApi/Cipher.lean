import HaclStar.Impl.AES
import HaclStar.Impl.Chacha20
import HaclStar.SecureApi.Indexing

/-! The block functions of the instances, at an initialization vector and a counter. -/

namespace HaclStar.SecureApi.Cipher

open Endianness Memory Spec

def keylen : CipherAlg → Nat
  | .aes128 => 16
  | .aes256 => 32
  | .chacha20 => 32

def blocklen : CipherAlg → Nat
  | .aes128 => 16
  | .aes256 => 16
  | .chacha20 => 64

def ivlen : Nat := 12

def statelen : CipherAlg → Nat
  | .aes128 => 432
  | .aes256 => 496
  | .chacha20 => 32

/-- An initialization vector is a number of 96 bits. -/
abbrev Iv := BitVec 96

/-- The parameters of AES-128. -/
def aes128 (fl : Flags) : Impl.AES.Params where
  nk := 4
  nr := 10
  access := if fl.aesCt then Impl.AES.accessScan else Impl.AES.accessDirect

/-- The parameters of AES-256. -/
def aes256 (fl : Flags) : Impl.AES.Params where
  nk := 8
  nr := 14
  access := if fl.aesCt then Impl.AES.accessScan else Impl.AES.accessDirect

/-- The table and the expanded key, or the key itself. -/
def init (fl : Flags) (i : Id) (k : Bytes) : Bytes :=
  match cipherAlgOfId i with
  | .chacha20 => k.take (keylen .chacha20)
  | .aes128 =>
    match fl.vale with
    | none =>
      let sbox := Impl.AES.mkSbox
      let w := Impl.AES.keyExpansion (aes128 fl) k sbox
      sbox ++ w
    | some vale =>
      let sbox := List.replicate 256 0
      let w := vale.keyExpansion k sbox
      sbox ++ w
  | .aes256 =>
    let sbox := Impl.AES.mkSbox
    let w := Impl.AES.keyExpansion (aes256 fl) k sbox
    sbox ++ w

/-- Write the counter to the last four bytes of a block. -/
def aesStoreCounter (b : Bytes) (x : UInt32) : Bytes :=
  let b0 := (x &&& 255).toUInt8
  let b1 := ((x >>> 8) &&& 255).toUInt8
  let b2 := ((x >>> 16) &&& 255).toUInt8
  let b3 := ((x >>> 24) &&& 255).toUInt8
  let b := b.set 15 b0
  let b := b.set 14 b1
  let b := b.set 13 b2
  b.set 12 b3

/-- The input block of AES: the initialization vector and the counter. -/
def aesInput (n : Iv) (counter : UInt32) : Bytes :=
  let ctrBlock := List.replicate 16 0
  let ctrBlock := splice ctrBlock 0 (littleBytes ivlen n.toNat)
  aesStoreCounter ctrBlock counter

/-- The AES-128 of an instance. -/
def aes128Cipher (fl : Flags) (input w sbox : Bytes) : Bytes :=
  match fl.vale with
  | none => Impl.AES.cipher (aes128 fl) input w sbox
  | some vale => vale.cipher input w sbox

/-- The first bytes of an AES block, from the table and the expanded key of `wlen` bytes. -/
def computeAes (cipher : Bytes → Bytes → Bytes → Bytes) (wlen : Nat) (st : Bytes) (n : Iv) (counter : UInt32)
    (len : Nat) : Bytes :=
  let sbox := st.take 256
  let w := (st.drop 256).take wlen
  let ctrBlock := aesInput n counter
  let outputBlock := cipher ctrBlock w sbox
  outputBlock.take len

/-- The input state of ChaCha20, read from a key and a nonce that lie in memory. -/
def chachaInput (st : Bytes) (n : Iv) (counter : UInt32) : Option Impl.State :=
  let nbuf := littleBytes ivlen n.toNat
  (Impl.Chacha20.setup ⟨0, 0, 32⟩ ⟨1, 0, ivlen⟩ counter [st, nbuf]).map Prod.fst

/-- A whole block of keystream. -/
def chacha20Stream (st : Impl.State) : Bytes :=
  let st' := Impl.Chacha20.sumStates (Impl.Chacha20.rounds st) st
  uint32sToLe 16 st'

/-- The first bytes of a block of keystream. -/
def chacha20StreamFinish (len : Nat) (st : Impl.State) : Bytes :=
  let b := chacha20Stream st
  b.take len

/-- The first `len` bytes of the block at a point. -/
def compute (fl : Flags) (i : Id) (st : Bytes) (n : Iv) (counter : UInt32) (len : Nat) : Option Bytes :=
  match cipherAlgOfId i with
  | .chacha20 => do
    let chachaState ← chachaInput st n counter
    if len = 64 then some (chacha20Stream chachaState) else some (chacha20StreamFinish len chachaState)
  | .aes128 => some (computeAes (aes128Cipher fl) 176 st n counter len)
  | .aes256 => some (computeAes (Impl.AES.cipher (aes256 fl)) 240 st n counter len)

/-- The block at a point. -/
def block (fl : Flags) (i : Id) (st : Bytes) (n : Iv) (counter : UInt32) : Bytes :=
  let sbox := st.take 256
  let input := littleBytes 12 n.toNat ++ bigBytes 4 counter.toNat
  match cipherAlgOfId i with
  | .chacha20 => Chacha20.chacha20Block st (littleBytes 12 n.toNat) counter.toNat
  | .aes128 => aes128Cipher fl input ((st.drop 256).take 176) sbox
  | .aes256 => Impl.AES.cipher (aes256 fl) input ((st.drop 256).take 240) sbox

variable {fl : Flags} {i : Id} {st : Bytes} {n : Iv} {counter : UInt32} {len : Nat}

/-- A key makes a state of its size. -/
theorem init_length (fl : Flags) {k : Bytes} (size : k.length = keylen (cipherAlgOfId i)) :
    (init fl i k).length = statelen (cipherAlgOfId i) := by
  have table := Impl.AES.mkSbox_length
  cases i with
  | aes128Gcm =>
    have expanded := Impl.AES.keyExpansion_length (aes128 fl) Impl.AES.mkSbox size.ge
      (show 4 ≤ 44 by decide)
    simp only [init, cipherAlgOfId]
    split
    · rw [List.length_append, table, expanded]
      rfl
    · rw [List.length_append, List.length_replicate, Vale.keyExpansion_length]
      rfl
  | aes256Gcm =>
    have expanded := Impl.AES.keyExpansion_length (aes256 fl) Impl.AES.mkSbox size.ge
      (show 8 ≤ 60 by decide)
    simp only [init, cipherAlgOfId, List.length_append, table, expanded]
    rfl
  | chacha20Poly1305 =>
    have whole : k.take 32 = k := List.take_of_length_le size.le
    simp only [init, cipherAlgOfId, keylen, whole]
    exact size

/-- The input block is the initialization vector, first byte first, and the counter, last byte first. -/
theorem aesInput_eq (n : Iv) (counter : UInt32) :
    aesInput n counter = littleBytes 12 n.toNat ++ bigBytes 4 counter.toNat := by
  have size : (littleBytes 12 n.toNat).length = (List.replicate 12 (0 : UInt8)).length := by simp
  -- The zeros behind the vector are replaced one by one.
  have block : splice (List.replicate 16 0) 0 (littleBytes 12 n.toNat) = littleBytes 12 n.toNat ++ [0, 0, 0, 0] :=
    splice_prefix [0, 0, 0, 0] size
  have byte : ∀ (x : UInt32) (k : Nat), x.toNat = k → (x &&& 255).toUInt8 = UInt8.ofNat (k % 256) := by
    intro x k value
    have masked : (x &&& 255).toNat = x.toNat % 256 := by
      rw [UInt32.toNat_and]
      exact Nat.and_two_pow_sub_one_eq_mod x.toNat 8
    rw [← UInt8.toNat_inj, UInt32.toNat_toUInt8, masked, value, UInt8.toNat_ofNat']
  have first : (counter >>> 8).toNat = counter.toNat / 256 := by
    rw [UInt32.toNat_shiftRight, Nat.shiftRight_eq_div_pow]
    rfl
  have second : (counter >>> 16).toNat = counter.toNat / 256 / 256 := by
    rw [UInt32.toNat_shiftRight, Nat.shiftRight_eq_div_pow, Nat.div_div_eq_div_mul]
    rfl
  have third : (counter >>> 24).toNat = counter.toNat / 256 / 256 / 256 := by
    rw [UInt32.toNat_shiftRight, Nat.shiftRight_eq_div_pow, Nat.div_div_eq_div_mul, Nat.div_div_eq_div_mul]
    rfl
  simp only [aesInput, ivlen, block, aesStoreCounter]
  rw [byte counter _ rfl, byte _ _ first, byte _ _ second, byte _ _ third]
  generalize littleBytes 12 n.toNat = vector at size
  rw [List.length_replicate] at size
  rw [List.set_append_right _ _ (by omega), List.set_append_right _ _ (by omega), List.set_append_right _ _ (by omega),
    List.set_append_right _ _ (by omega), size]
  rfl

@[simp] theorem aes128Cipher_length (fl : Flags) (input w sbox : Bytes) : (aes128Cipher fl input w sbox).length = 16 := by
  rw [aes128Cipher]
  split
  · exact Impl.AES.cipher_length _ _ _ _
  · exact Vale.cipher_length _ _ _ _

@[simp] theorem block_length (fl : Flags) (i : Id) (st : Bytes) (n : Iv) (counter : UInt32) :
    (block fl i st n counter).length = blocklen (cipherAlgOfId i) := by
  cases i with
  | aes128Gcm => simp only [block, cipherAlgOfId, aes128Cipher_length, blocklen]
  | aes256Gcm => simp only [block, cipherAlgOfId, Impl.AES.cipher_length, blocklen]
  | chacha20Poly1305 => simp only [block, cipherAlgOfId, Chacha20.chacha20Block_length, blocklen]

/-- The input state of ChaCha20 is the one specified. -/
theorem chachaInput_eq (size : st.length = 32) :
    chachaInput st n counter = some (Chacha20.setup st (littleBytes 12 n.toNat) counter.toNat) := by
  have nonce : (littleBytes ivlen n.toNat).length = 12 := littleBytes_length 12 _
  have live : Mem.Live [st, littleBytes ivlen n.toNat] ⟨0, 0, 32⟩ := ⟨by simp, by simp [Mem.block, size]⟩
  have live' : Mem.Live [st, littleBytes ivlen n.toNat] ⟨1, 0, ivlen⟩ := ⟨by simp, by simp [Mem.block, ivlen]⟩
  have key : Mem.read [st, littleBytes ivlen n.toNat] ⟨0, 0, 32⟩ = st := by
    simp [Mem.read, Mem.block, ← size]
  have iv : Mem.read [st, littleBytes ivlen n.toNat] ⟨1, 0, ivlen⟩ = littleBytes 12 n.toNat :=
    List.take_of_length_le nonce.le
  simp only [chachaInput]
  rw [Impl.Chacha20.setup, Stack.bind_run (Impl.uint32sFromLeBytes_run live (by decide)),
    Stack.bind_run (Impl.uint32sFromLeBytes_run live' (by decide)), key, iv, List.take_of_length_le (by omega),
    List.take_of_length_le (by rw [littleBytes_length]), Stack.pure_run, Option.map_some, Chacha20.setup,
    UInt32.ofNat_toNat]
  rfl

/-- The block function computes a prefix of the block. -/
theorem compute_run (size : st.length = statelen (cipherAlgOfId i)) (short : len ≤ blocklen (cipherAlgOfId i)) :
    compute fl i st n counter len = some ((block fl i st n counter).take len) := by
  cases i with
  | aes128Gcm => simp only [compute, block, cipherAlgOfId, computeAes, aesInput_eq]
  | aes256Gcm => simp only [compute, block, cipherAlgOfId, computeAes, aesInput_eq]
  | chacha20Poly1305 =>
    simp only [compute, block, cipherAlgOfId]
    rw [chachaInput_eq size]
    simp only [Option.bind_eq_bind, Option.bind_some]
    have whole : chacha20Stream (Chacha20.setup st (littleBytes 12 n.toNat) counter.toNat) =
        Chacha20.chacha20Block st (littleBytes 12 n.toNat) counter.toNat := by
      rw [chacha20Stream, Impl.Chacha20.rounds_eq]
      rfl
    by_cases full : len = 64
    · rw [if_pos full, whole, full, List.take_of_length_le (by rw [Chacha20.chacha20Block_length])]
    · rw [if_neg full, chacha20StreamFinish, whole]

/-- The bytes of a nonce determine it. -/
theorem iv_injective {n n' : Iv} (same : littleBytes 12 n.toNat = littleBytes 12 n'.toNat) : n = n' :=
  BitVec.eq_of_toNat_eq (littleBytes_injective n.isLt n'.isLt same)

/-- The input block of AES determines the point. -/
theorem aesInput_injective {n n' : Iv} {counter counter' : UInt32}
    (same : aesInput n counter = aesInput n' counter') : n = n' ∧ counter = counter' := by
  rw [aesInput_eq, aesInput_eq] at same
  obtain ⟨vectors, counters⟩ := List.append_inj same (by rw [littleBytes_length, littleBytes_length])
  have value := congrArg bigEndian counters
  have bound : counter.toNat < 2 ^ (8 * 4) := counter.toNat_lt
  have bound' : counter'.toNat < 2 ^ (8 * 4) := counter'.toNat_lt
  rw [bigEndian_bigBytes, bigEndian_bigBytes, Nat.mod_eq_of_lt bound, Nat.mod_eq_of_lt bound'] at value
  exact ⟨iv_injective vectors, UInt32.toNat_inj.mp value⟩

/-- The input state of ChaCha20 determines the point. -/
theorem chachaInput_injective {n n' : Iv} {counter counter' : UInt32} (size : st.length = 32)
    (same : chachaInput st n counter = chachaInput st n' counter') : n = n' ∧ counter = counter' := by
  rw [chachaInput_eq size, chachaInput_eq size, Option.some_inj] at same
  -- The counter is a word of its own, and the words of the nonce follow it.
  simp only [Chacha20.setup, UInt32.ofNat_toNat] at same
  obtain ⟨before, nonces⟩ := Vector.append_inj same
  obtain ⟨-, counters⟩ := Vector.append_inj before
  have bytes := congrArg (uint32sToLe 3) nonces
  simp only [uint32sToLe, uint32sFromLe] at bytes
  rw [uint32Le.toBytes_fromBytes 3 _ (littleBytes_length 12 _), uint32Le.toBytes_fromBytes 3 _ (littleBytes_length 12 _)] at bytes
  refine ⟨iv_injective bytes, ?_⟩
  simpa using counters

end HaclStar.SecureApi.Cipher
