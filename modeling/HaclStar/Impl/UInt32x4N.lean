import HaclStar.Impl.Chacha20Vec128

/-! Registers of one or two groups of four 32-bit lanes, and the instructions on them. -/

namespace HaclStar.Impl.UInt32x4N

open Endianness Keystream Memory Words

/-- A register of `g` groups of four lanes: one group for SSE, two for AVX2. -/
abbrev Vec (g : Nat) := Vector Impl.Vec g

variable {g : Nat}

/-- A group of a register. -/
def group (v : Vec g) (b : Fin g) : Impl.Vec := v[b]

/-- A lane of a group. -/
def laneOf (v : Impl.Vec) (j : Fin 4) : UInt32 := getElem v j (Spec.withinRow j)

/-- The same word in every lane. -/
def load32 (x : UInt32) : Vec g := Vector.replicate g (Vector.replicate 4 x)

/-- The same four words in every group. -/
def load32x4 (x0 x1 x2 x3 : UInt32) : Vec g := Vector.replicate g (Impl.Vec.load32x4 x0 x1 x2 x3)

/-- Eight words in two groups. A register of one group takes the first four. -/
def load32x8 (x0 x1 x2 x3 x4 x5 x6 x7 : UInt32) : Vec g :=
  Vector.ofFn fun b : Fin g =>
    if b.val % 2 = 0 then Impl.Vec.load32x4 x0 x1 x2 x3 else Impl.Vec.load32x4 x4 x5 x6 x7

/-- One in the first lane of every group. -/
def oneLe : Vec g := load32x4 1 0 0 0

/-- Two in the first lane of every group. -/
def twoLe : Vec g := load32x4 2 0 0 0

/-- The lanes of each group moved `r` positions to the right, cyclically. -/
def shuffleRight (v : Vec g) (r : Nat) : Vec g := v.map fun x => x.shuffleRight r

/-- Rotate each lane. -/
def rotateLeft (v : Vec g) (r : UInt32) : Vec g := v.map fun x => x.rotateLeft r

/-- Add lane by lane. -/
def add (v w : Vec g) : Vec g := Vector.zipWith Impl.Vec.add v w

/-- Exclusive or lane by lane. -/
def xor (v w : Vec g) : Vec g := Vector.zipWith Impl.Vec.xor v w

/-- Alternate the first two lanes of each group. -/
def interleave32Low (v w : Vec g) : Vec g :=
  Vector.zipWith (fun x y => Impl.Vec.load32x4 (laneOf x 0) (laneOf y 0) (laneOf x 1) (laneOf y 1)) v w

/-- Alternate the last two lanes of each group. -/
def interleave32High (v w : Vec g) : Vec g :=
  Vector.zipWith (fun x y => Impl.Vec.load32x4 (laneOf x 2) (laneOf y 2) (laneOf x 3) (laneOf y 3)) v w

/-- The first halves of corresponding groups. -/
def interleave64Low (v w : Vec g) : Vec g :=
  Vector.zipWith (fun x y => Impl.Vec.load32x4 (laneOf x 0) (laneOf x 1) (laneOf y 0) (laneOf y 1)) v w

/-- The last halves of corresponding groups. -/
def interleave64High (v w : Vec g) : Vec g :=
  Vector.zipWith (fun x y => Impl.Vec.load32x4 (laneOf x 2) (laneOf x 3) (laneOf y 2) (laneOf y 3)) v w

/-- One of the four groups of two registers, by its number. -/
def pick (v w : Vec 2) (control : Nat) : Impl.Vec :=
  let x := if control < 2 then v else w
  if control % 2 = 0 then group x 0 else group x 1

/-- Two of the four groups of two registers. On registers of one group the first register is returned. -/
def choose128 {g : Nat} (v w : Vec g) (first second : Nat) : Vec g :=
  match g, v, w with
  | 2, v, w => Vector.ofFn fun b : Fin 2 => if b = 0 then pick v w first else pick v w second
  | _, v, _ => v

/-- A group of four words starts within the register. -/
theorem group_within (b : Fin g) : 4 * b.val + 4 ≤ g * 4 := by omega

/-- The register of the words of all groups, one group after another. -/
def groups (x : Vector UInt32 (g * 4)) : Vec g :=
  Vector.ofFn fun b : Fin g => WordCodec.slice x (4 * b.val) 4 (group_within b)

/-- Load a register from the bytes at a pointer. -/
def loadLe (b : Buffer) : Stack (Vec g) := do
  let x ← uint32sFromLeBytes (b.slice 0 (16 * g)) (g * 4)
  return groups x

/-- Load sixteen bytes into every group. -/
def load128Le (b : Buffer) : Stack (Vec g) := do
  let x ← Impl.Vec.loadLe b
  return Vector.replicate g x

/-- Store a register to the bytes at a pointer. As many bytes as the register has are written,
also behind the end of a shorter view of the same block. -/
def storeLe (b : Buffer) (v : Vec g) : Stack Unit := uint32sToLeBytes (b.slice 0 (16 * g)) v.flatten

/-! Each instruction works on the groups by themselves. -/

section Group

variable (v w : Vec g) (b : Fin g)

@[simp] theorem group_load32 (x : UInt32) : group (load32 x) b = Vector.replicate 4 x := by
  simp [group, load32]

@[simp] theorem group_load32x4 (x0 x1 x2 x3 : UInt32) :
    group (load32x4 x0 x1 x2 x3) b = Impl.Vec.load32x4 x0 x1 x2 x3 := by
  simp [group, load32x4]

@[simp] theorem group_shuffleRight (r : Nat) : group (shuffleRight v r) b = (group v b).shuffleRight r := by
  simp [group, shuffleRight]

@[simp] theorem group_rotateLeft (r : UInt32) : group (rotateLeft v r) b = (group v b).rotateLeft r := by
  simp [group, rotateLeft]

@[simp] theorem group_add : group (add v w) b = (group v b).add (group w b) := by
  simp [group, add]

@[simp] theorem group_xor : group (xor v w) b = (group v b).xor (group w b) := by
  simp [group, xor]

end Group

section Lane

variable (x y : Impl.Vec) (j : Fin 4)

@[simp] theorem laneOf_replicate (w : UInt32) : laneOf (Vector.replicate 4 w) j = w := by
  simp [laneOf]

@[simp] theorem laneOf_rotateLeft (r : UInt32) : laneOf (x.rotateLeft r) j = Spec.rotateLeft (laneOf x j) r := by
  simp [laneOf, Impl.Vec.rotateLeft]

@[simp] theorem laneOf_add : laneOf (x.add y) j = laneOf x j + laneOf y j := by
  simp [laneOf, Impl.Vec.add]

@[simp] theorem laneOf_xor : laneOf (x.xor y) j = laneOf x j ^^^ laneOf y j := by
  simp [laneOf, Impl.Vec.xor]

end Lane

/-! A register in memory is its lanes, one after another. -/

/-- The bytes of a register. -/
def bytes (v : Vec g) : Bytes := Spec.uint32sToLe (g * 4) v.flatten

@[simp] theorem bytes_length (v : Vec g) : (bytes v).length = 16 * g := by
  rw [bytes, Spec.uint32sToLe_length]
  omega

/-- The bytes of a register are those of its groups. -/
theorem bytes_groups (v : Vec g) : bytes v = v.toList.flatMap (Spec.uint32sToLe 4) := by
  have lanes : v.flatten.toList = v.toList.flatMap Vector.toList := by
    obtain ⟨⟨xs⟩, size⟩ := v
    simp [Vector.flatten, List.flatMap_def]
    rfl
  have encoded : (fun x : Impl.Vec => x.toList.flatMap Spec.uint32Le.encode) = Spec.uint32sToLe 4 :=
    funext fun x => Spec.uint32Le.storeAll_eq x
  -- Both sides encode the lanes in the same order.
  rw [bytes, Spec.uint32sToLe, ← Spec.uint32Le.storeAll_eq, WordCodec.storeAll, lanes, List.flatMap_assoc,
    encoded]

/-- A register is the register of its groups. -/
theorem toList_group (v : Vec g) : v.toList = List.ofFn (group v) := by
  have same : v = Vector.ofFn (group v) := by
    apply Vector.ext
    intro b inside
    simp [group]
  conv_lhs => rw [same, Vector.toList_ofFn]

/-- A register of one group. -/
theorem bytes_one (v : Vec 1) : bytes v = Spec.uint32sToLe 4 (group v 0) := by
  simp [bytes_groups, toList_group]

/-- A register of two groups. -/
theorem bytes_two (v : Vec 2) :
    bytes v = Spec.uint32sToLe 4 (group v 0) ++ Spec.uint32sToLe 4 (group v 1) := by
  simp [bytes_groups, toList_group]

/-- The first groups of two registers. -/
theorem bytes_choose_first (v w : Vec 2) :
    bytes (choose128 v w 0 2) = Spec.uint32sToLe 4 (group v 0) ++ Spec.uint32sToLe 4 (group w 0) := by
  rw [bytes_two]
  simp [choose128, pick, group]

/-- The second groups of two registers. -/
theorem bytes_choose_second (v w : Vec 2) :
    bytes (choose128 v w 1 3) = Spec.uint32sToLe 4 (group v 1) ++ Spec.uint32sToLe 4 (group w 1) := by
  rw [bytes_two]
  simp [choose128, pick, group]

/-- Combining lane by lane works on the lanes of all groups. -/
theorem flatten_xor (v w : Vec g) : (xor v w).flatten = Vector.zipWith (· ^^^ ·) v.flatten w.flatten := by
  apply Vector.ext
  intro i inside
  simp [xor, Impl.Vec.xor]

/-- Exclusive or of registers is exclusive or of their bytes. -/
theorem bytes_xor (v w : Vec g) : bytes (xor v w) = Keystream.xor (bytes v) (bytes w) := by
  rw [bytes, flatten_xor, Spec.uint32sToLe_xor, bytes, bytes]

/-- The words of all groups, one group after another, are the words they were taken from. -/
theorem flatten_groups (x : Vector UInt32 (g * 4)) : (groups x).flatten = x := by
  apply Vector.ext
  intro i inside
  rw [Vector.getElem_flatten]
  simp [groups, WordCodec.slice, Vector.get_eq_getElem, Nat.div_add_mod]

variable {h : Mem} {input output : Buffer}

/-- Loading from a part of a view decodes its bytes. -/
theorem loadLe_run (g start : Nat) (live : h.Live input) (within : start + 16 * g ≤ input.length) :
    ∃ v : Vec g, loadLe (input.slice start (16 * g)) h = some (v, h) ∧
      bytes v = h.read (input.slice start (16 * g)) := by
  have live' : h.Live ((input.slice start (16 * g)).slice 0 (16 * g)) := (live.slice within).slice (by simp)
  have covered : (h.read (input.slice start (16 * g))).length = 4 * (g * 4) := by
    rw [Mem.read_length (live.slice within), Buffer.slice_length]
    omega
  refine ⟨groups (Spec.uint32sFromLe (g * 4) (h.read (input.slice start (16 * g)))), ?_, ?_⟩
  · rw [loadLe, Stack.bind_run (uint32sFromLeBytes_run live' (by rw [Buffer.slice_length]; omega)),
      Buffer.slice_slice, Nat.add_zero, List.take_of_length_le covered.le, Stack.pure_run]
  · rw [bytes, flatten_groups]
    exact Spec.uint32Le.toBytes_fromBytes _ _ covered

/-- Storing to a part of a view writes the bytes of the register from its start on. -/
theorem storeLe_run (start room : Nat) (v : Vec g) (live : h.Live output)
    (within : start + 16 * g ≤ output.length) :
    storeLe (output.slice start room) v h = some ((), h.write (output.slice start room) (bytes v)) := by
  have live' : h.Live ((output.slice start room).slice 0 (16 * g)) := live.slice within
  -- The part's own length does not matter.
  exact uint32sToLeBytes_run _ live' (by rw [Buffer.slice_length]; omega)

/-- Loading sixteen bytes decodes them into every group. -/
theorem load128Le_run {start : Nat} (live : h.Live input) (within : start + 16 ≤ input.length) :
    load128Le (g := g) (input.slice start 16) h =
      some (Vector.replicate g (Spec.uint32sFromLe 4 (((h.read input).drop start).take 16)), h) := by
  rw [load128Le, Stack.bind_run (Chacha20Vec128.loadLe_run live within), Stack.pure_run]

/-- A register is stored right after what has been written. -/
theorem storeLe_next {first : Bytes} {start : Nat} (room : Nat) (v : Vec g) (live : h.Live output)
    (ends : first.length = start) (within : start + 16 * g ≤ output.length) :
    storeLe (output.slice start room) v (h.write output first) =
      some ((), h.write output (first ++ bytes v)) := by
  have joined := Mem.write_append live first (bytes v) (16 * g) (by rw [bytes_length]; omega)
    (by rw [bytes_length]) (by omega)
  rw [ends] at joined
  rw [storeLe_run start room v (live.write live (by omega)) within, ← joined]
  rfl

end HaclStar.Impl.UInt32x4N
