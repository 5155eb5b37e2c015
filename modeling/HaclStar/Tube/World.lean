import HaclStar.Lib.Memory
import HaclStar.Impl.Bignum

/-! The world of a PneuTube process: its padded file, its connection and the boxes of the NaCl library. -/

namespace HaclStar.Tube

open Endianness Memory

/-- The size of the fragments in which a file travels, also the scratch space behind a file. -/
def blocksize : UInt64 := 256 * 1024

/-- The base 2 logarithm of the block size. -/
def blocksizeBits : UInt64 := 18

/-- The length of a box around `x` bytes. -/
def cipherlen (x : UInt64) : UInt64 := x + 16

/-- The length of the header, which travels in the first box. -/
def headersize : UInt64 := 1024

/-- The result of a file operation. -/
inductive FResult where
  | FileOk
  | FileError
  deriving DecidableEq, Repr

/-- The result of a socket operation. -/
inductive SResult where
  | SocketOk
  | SocketError
  deriving DecidableEq, Repr

/-- What is known of a file before its content is read. -/
structure FileStat where
  name : Bytes
  mtime : UInt64
  size : UInt64
  deriving DecidableEq, Repr

/-- A file: its content with `blocksize` further bytes behind it, and the position in the content. -/
structure FileHandle where
  stat : FileStat
  buffer : Bytes
  current : Nat

/-- The file handle before a file is opened. -/
def initFileHandle : FileHandle := ⟨⟨[], 0, 0⟩, [], 0⟩

/-- The state of one process and of its environment. -/
structure World where
  /-- Whether the n-th operation of the environment succeeds. -/
  succeeds : Nat → Bool
  /-- How many operations of the environment there have been. -/
  clock : Nat
  /-- The content and the modification time of the files that can be read. -/
  disk : Bytes → Option (Bytes × UInt64)
  file : FileHandle
  /-- The bytes that arrive on the connection and are not yet read. -/
  incoming : Bytes
  /-- The bytes written to the connection. -/
  sent : Bytes
  /-- The nonce behind the ciphertext in the scratch buffer. -/
  nonce : Bytes
  /-- The nonce and the argument of every call of the box so far. -/
  boxes : List (Bytes × Bytes)
  /-- What was written into each window of the open file. -/
  written : List Bytes

namespace World

variable (w : World) (b : Bytes)

/-- The world after an operation of the environment. -/
def tick : World := { w with clock := w.clock + 1 }

/-- The world after bytes are written to the connection. -/
def wrote : World := { w with clock := w.clock + 1, sent := w.sent ++ b }

/-- The world after `n` bytes are read from the connection. -/
def received (n : Nat) : World := { w with clock := w.clock + 1, incoming := w.incoming.drop n }

/-- The world with the file at another position. -/
def moved (n : Nat) : World := { w with file := { w.file with current := n } }

/-- The world after bytes are written into a window of the file. -/
def filled (n : Nat) : World :=
  { w with
    file := { w.file with buffer := splice w.file.buffer n b }
    written := w.written ++ [b] }

/-- The world with another nonce in the scratch buffer. -/
def renonced : World := { w with nonce := b }

/-- The world after a call of the box. -/
def boxed : World := { w with boxes := w.boxes ++ [(w.nonce, b)] }

@[simp] theorem tick_succeeds : w.tick.succeeds = w.succeeds := rfl
@[simp] theorem tick_file : w.tick.file = w.file := rfl
@[simp] theorem tick_nonce : w.tick.nonce = w.nonce := rfl
@[simp] theorem tick_sent : w.tick.sent = w.sent := rfl
@[simp] theorem tick_incoming : w.tick.incoming = w.incoming := rfl
@[simp] theorem tick_boxes : w.tick.boxes = w.boxes := rfl
@[simp] theorem tick_disk : w.tick.disk = w.disk := rfl
@[simp] theorem tick_written : w.tick.written = w.written := rfl

@[simp] theorem wrote_succeeds : (w.wrote b).succeeds = w.succeeds := rfl
@[simp] theorem wrote_file : (w.wrote b).file = w.file := rfl
@[simp] theorem wrote_nonce : (w.wrote b).nonce = w.nonce := rfl
@[simp] theorem wrote_sent : (w.wrote b).sent = w.sent ++ b := rfl
@[simp] theorem wrote_boxes : (w.wrote b).boxes = w.boxes := rfl

@[simp] theorem received_succeeds (n : Nat) : (w.received n).succeeds = w.succeeds := rfl
@[simp] theorem received_file (n : Nat) : (w.received n).file = w.file := rfl
@[simp] theorem received_nonce (n : Nat) : (w.received n).nonce = w.nonce := rfl
@[simp] theorem received_incoming (n : Nat) : (w.received n).incoming = w.incoming.drop n := rfl
@[simp] theorem received_boxes (n : Nat) : (w.received n).boxes = w.boxes := rfl
@[simp] theorem received_written (n : Nat) : (w.received n).written = w.written := rfl

@[simp] theorem moved_succeeds (n : Nat) : (w.moved n).succeeds = w.succeeds := rfl
@[simp] theorem moved_clock (n : Nat) : (w.moved n).clock = w.clock := rfl
@[simp] theorem moved_file (n : Nat) : (w.moved n).file = { w.file with current := n } := rfl
@[simp] theorem moved_stat (n : Nat) : (w.moved n).file.stat = w.file.stat := rfl
@[simp] theorem moved_buffer (n : Nat) : (w.moved n).file.buffer = w.file.buffer := rfl
@[simp] theorem moved_nonce (n : Nat) : (w.moved n).nonce = w.nonce := rfl
@[simp] theorem moved_sent (n : Nat) : (w.moved n).sent = w.sent := rfl
@[simp] theorem moved_incoming (n : Nat) : (w.moved n).incoming = w.incoming := rfl
@[simp] theorem moved_boxes (n : Nat) : (w.moved n).boxes = w.boxes := rfl
@[simp] theorem moved_written (n : Nat) : (w.moved n).written = w.written := rfl

@[simp] theorem filled_succeeds (n : Nat) : (w.filled b n).succeeds = w.succeeds := rfl
@[simp] theorem filled_file (n : Nat) :
    (w.filled b n).file = { w.file with buffer := splice w.file.buffer n b } := rfl
@[simp] theorem filled_stat (n : Nat) : (w.filled b n).file.stat = w.file.stat := rfl
@[simp] theorem filled_buffer (n : Nat) : (w.filled b n).file.buffer = splice w.file.buffer n b := rfl
@[simp] theorem filled_nonce (n : Nat) : (w.filled b n).nonce = w.nonce := rfl
@[simp] theorem filled_incoming (n : Nat) : (w.filled b n).incoming = w.incoming := rfl
@[simp] theorem filled_boxes (n : Nat) : (w.filled b n).boxes = w.boxes := rfl
@[simp] theorem filled_written (n : Nat) : (w.filled b n).written = w.written ++ [b] := rfl

@[simp] theorem renonced_succeeds : (w.renonced b).succeeds = w.succeeds := rfl
@[simp] theorem renonced_file : (w.renonced b).file = w.file := rfl
@[simp] theorem renonced_nonce : (w.renonced b).nonce = b := rfl
@[simp] theorem renonced_sent : (w.renonced b).sent = w.sent := rfl
@[simp] theorem renonced_incoming : (w.renonced b).incoming = w.incoming := rfl
@[simp] theorem renonced_boxes : (w.renonced b).boxes = w.boxes := rfl
@[simp] theorem renonced_written : (w.renonced b).written = w.written := rfl

@[simp] theorem boxed_succeeds : (w.boxed b).succeeds = w.succeeds := rfl
@[simp] theorem boxed_file : (w.boxed b).file = w.file := rfl
@[simp] theorem boxed_nonce : (w.boxed b).nonce = w.nonce := rfl
@[simp] theorem boxed_sent : (w.boxed b).sent = w.sent := rfl
@[simp] theorem boxed_incoming : (w.boxed b).incoming = w.incoming := rfl
@[simp] theorem boxed_boxes : (w.boxed b).boxes = w.boxes ++ [(w.nonce, b)] := rfl
@[simp] theorem boxed_written : (w.boxed b).written = w.written := rfl

/-- The environment is ready for its next operation. -/
def ready : Bool := w.succeeds w.clock

/-- An environment in which every operation succeeds. -/
def Faithful : Prop := ∀ n, w.succeeds n = true

/-- In a faithful environment the next operation succeeds. -/
theorem Faithful.ready {w : World} (faithful : w.Faithful) : w.ready = true := faithful _

end World

/-- A computation of a process. -/
abbrev Io (α : Type) : Type := StateM World α

/-- The box and the key agreement of the NaCl library. -/
structure NaCl where
  /-- Box a message under a nonce and a key. -/
  boxEasyAfternm : Bytes → Bytes → Bytes → Bytes
  /-- Open a box under a nonce and a key. -/
  boxOpenEasyAfternm : Bytes → Bytes → Bytes → Option Bytes
  /-- The public key of a secret key. -/
  getPublicKey : Bytes → Bytes
  /-- The shared key of a public key and a secret key. -/
  boxBeforenm : Bytes → Bytes → Bytes

/-- Boxes are 16 bytes longer than what they hold, and two parties agree on a key by 32-byte public keys. -/
structure NaCl.Sized (nacl : NaCl) : Prop where
  box_length : ∀ m n k, (nacl.boxEasyAfternm m n k).length = m.length + 16
  open_length : ∀ c n k m, nacl.boxOpenEasyAfternm c n k = some m → c.length = m.length + 16
  publicKey_length : ∀ sk, (nacl.getPublicKey sk).length = 32
  agree : ∀ skA skB, nacl.boxBeforenm (nacl.getPublicKey skB) skA =
    nacl.boxBeforenm (nacl.getPublicKey skA) skB

/-- Opening what was boxed under the same nonce and key gives back the message. -/
structure NaCl.Perfect (nacl : NaCl) : Prop extends nacl.Sized where
  open_box : ∀ m n k, nacl.boxOpenEasyAfternm (nacl.boxEasyAfternm m n k) n k = some m

namespace Io

variable {α β : Type} {w : World}

/-- Running a sequence of computations passes the world along. -/
theorem bind_run (x : Io α) (f : α → Io β) (w : World) : (x >>= f) w = f (x w).1 (x w).2 := rfl

/-- A pure computation leaves the world alone. -/
@[simp] theorem pure_run (a : α) (w : World) : (pure a : Io α) w = (a, w) := rfl

/-- Mapping a computation maps its result. -/
@[simp] theorem map_run (f : α → β) (x : Io α) (w : World) : (f <$> x) w = (f (x w).1, (x w).2) := rfl

/-- Looking at the world. -/
@[simp] theorem get_run (w : World) : (get : Io World) w = (w, w) := rfl

/-- Replacing the world. -/
@[simp] theorem set_run (w w' : World) : (set w' : Io Unit) w = ((), w') := rfl

/-- Changing the world. -/
@[simp] theorem modify_run (f : World → World) (w : World) : (modify f : Io Unit) w = ((), f w) := rfl

/-- Running a sequence whose first part is known. -/
theorem bind_step {x : Io α} {a : α} {w' : World} (ran : x w = (a, w')) (f : α → Io β) :
    (x >>= f) w = f a w' := by
  rw [bind_run, ran]

end Io

/-- The eight bytes of a 64-bit number, least significant first. -/
def store64Le (z : UInt64) : Bytes := littleBytes 8 z.toNat

/-- The 64-bit number in eight bytes, least significant first. -/
def load64Le (b : Bytes) : UInt64 := UInt64.ofNat (littleEndian (b.take 8))

/-- Another operation of the environment, and whether it succeeds. -/
def attempt : Io Bool := fun w => (w.ready, w.tick)

/-- Put the session id in front of the nonce. -/
def blitSid (sid : Bytes) : Io Unit := fun w => ((), w.renonced (splice w.nonce 0 sid))

/-- Put the sequence number behind the session id of the nonce. -/
def storeSeqno (seqno : UInt64) : Io Unit :=
  fun w => ((), w.renonced (splice w.nonce 16 (store64Le seqno)))

/-- Box a message under the nonce in the scratch buffer. -/
def cryptoBoxEasyAfternm (nacl : NaCl) (m key : Bytes) : Io Bytes := fun w =>
  (nacl.boxEasyAfternm m w.nonce key, w.boxed m)

/-- Open a box under the nonce in the scratch buffer. -/
def cryptoBoxOpenEasyAfternm (nacl : NaCl) (c key : Bytes) : Io (Option Bytes) := fun w =>
  (nacl.boxOpenEasyAfternm c w.nonce key, w.boxed c)

/-- Open a file for reading, its position at the start. -/
def fileOpenReadSequential (name : Bytes) : Io FResult := do
  let opened ← attempt
  match opened, (← get).disk name with
  | true, some (content, mtime) =>
    modify fun w => { w with file :=
      { stat := ⟨name, mtime, UInt64.ofNat content.length⟩
        buffer := content ++ List.replicate blocksize.toNat 0
        current := 0 } }
    return .FileOk
  | _, _ => return .FileError

/-- Create a file for writing, its position at the start. -/
def fileOpenWriteSequential (stat : FileStat) : Io FResult := do
  if ← attempt then
    modify fun w => { w with
      file := { stat, buffer := List.replicate (stat.size.toNat + blocksize.toNat) 0, current := 0 }
      written := [] }
    return .FileOk
  else
    return .FileError

/-- The next window of `len` bytes starts at the position, which then moves on within the content. -/
def nextWindow (len : UInt64) : Io Nat := fun w =>
  (w.file.current, w.moved (min (w.file.current + len.toNat) w.file.stat.size.toNat))

/-- The next `len` bytes of the file. -/
def fileNextReadBuffer (len : UInt64) : Io Bytes := do
  let start ← nextWindow len
  return ((← get).file.buffer.drop start).take len.toNat

/-- Where the next `len` bytes of the file go. -/
def fileNextWriteBuffer (len : UInt64) : Io Nat := nextWindow len

/-- Write into a window of the file. -/
def writeWindow (start : Nat) (bytes : Bytes) : Io Unit := modify (World.filled · bytes start)

/-- Close the file, which is reported by `true`. -/
def fileClose : Io Bool := attempt

/-- A socket operation that moves no bytes. -/
def socketStep : Io SResult := do
  if ← attempt then
    return .SocketOk
  else
    return .SocketError

/-- Connect to the peer. -/
def tcpConnect : Io SResult := socketStep

/-- Close the connection. -/
def tcpClose : Io SResult := socketStep

/-- Write all the bytes to the connection. -/
def tcpWriteAll (b : Bytes) : Io SResult := do
  if ← attempt then
    modify fun w => { w with sent := w.sent ++ b }
    return .SocketOk
  else
    return .SocketError

/-- Read `len` bytes from the connection, nothing when there are fewer. -/
def tcpReadAll (len : UInt64) : Io (Option Bytes) := do
  if ← attempt then
    let w ← get
    if len.toNat ≤ w.incoming.length then
      set { w with incoming := w.incoming.drop len.toNat }
      return some (w.incoming.take len.toNat)
    else
      return none
  else
    return none

/-- The result of a socket operation that succeeds or not. -/
def sresult (ok : Bool) : SResult := if ok then .SocketOk else .SocketError

section Operations

variable (w : World)

/-- A socket operation that moves no bytes. -/
theorem socketStep_run : socketStep w = (sresult w.ready, w.tick) := by
  cases ready : w.ready <;> simp [socketStep, Io.bind_run, attempt, ready, sresult]

/-- A write to the connection arrives as a whole or not at all. -/
theorem tcpWriteAll_run (b : Bytes) :
    tcpWriteAll b w = (sresult w.ready, if w.ready then w.wrote b else w.tick) := by
  cases ready : w.ready
  · simp [tcpWriteAll, Io.bind_run, attempt, ready, sresult]
  · simp [tcpWriteAll, Io.bind_run, attempt, ready, sresult, World.tick, World.wrote]

/-- A read that the connection cannot serve. -/
theorem tcpReadAll_none (len : UInt64) (fails : w.ready = false ∨ w.incoming.length < len.toNat) :
    tcpReadAll len w = (none, w.tick) := by
  cases ready : w.ready
  · simp [tcpReadAll, Io.bind_run, attempt, ready]
  · have short : ¬ len.toNat ≤ w.incoming.length := by
      rcases fails with failed | short
      · simp [ready] at failed
      · omega
    simp [tcpReadAll, Io.bind_run, attempt, ready, short]

/-- A read that the connection serves. -/
theorem tcpReadAll_some (len : UInt64) (ready : w.ready = true) (enough : len.toNat ≤ w.incoming.length) :
    tcpReadAll len w = (some (w.incoming.take len.toNat), w.received len.toNat) := by
  simp [tcpReadAll, Io.bind_run, attempt, ready, enough, World.tick, World.received]

/-- Whatever is read was the beginning of what arrived. -/
theorem tcpReadAll_inv {len : UInt64} {bytes : Bytes} {w' : World} (ran : tcpReadAll len w = (some bytes, w')) :
    len.toNat ≤ w.incoming.length ∧ bytes = w.incoming.take len.toNat ∧
      w' = w.received len.toNat := by
  by_cases served : w.ready = true ∧ len.toNat ≤ w.incoming.length
  · rw [tcpReadAll_some w len served.1 served.2] at ran
    obtain ⟨read, after⟩ := Prod.mk.inj ran
    exact ⟨served.2, (Option.some.inj read).symm, after.symm⟩
  · have fails : w.ready = false ∨ w.incoming.length < len.toNat := by grind
    rw [tcpReadAll_none w len fails] at ran
    cases ran

/-- A window of the file, its position moved on. -/
theorem nextWindow_run (len : UInt64) : nextWindow len w =
    (w.file.current, w.moved (min (w.file.current + len.toNat) w.file.stat.size.toNat)) := rfl

/-- Opening a file that is there for reading. -/
theorem fileOpenReadSequential_run {name content : Bytes} {mtime : UInt64}
    (found : w.disk name = some (content, mtime)) (ready : w.ready = true) :
    fileOpenReadSequential name w = (.FileOk, { w.tick with file :=
      ⟨⟨name, mtime, UInt64.ofNat content.length⟩, content ++ List.replicate blocksize.toNat 0, 0⟩ }) := by
  simp [fileOpenReadSequential, Io.bind_run, attempt, ready, found]

/-- Opening a file for reading that is not there, or cannot be opened. -/
theorem fileOpenReadSequential_fails {name : Bytes} (fails : w.disk name = none ∨ w.ready = false) :
    fileOpenReadSequential name w = (.FileError, w.tick) := by
  cases ready : w.ready
  · simp [fileOpenReadSequential, Io.bind_run, attempt, ready]
  · have missing : w.disk name = none := by simpa [ready] using fails
    simp [fileOpenReadSequential, Io.bind_run, attempt, ready, missing]

/-- Creating a file. -/
theorem fileOpenWriteSequential_run (stat : FileStat) (ready : w.ready = true) :
    fileOpenWriteSequential stat w = (.FileOk, { w.tick with
      file := { stat, buffer := List.replicate (stat.size.toNat + blocksize.toNat) 0, current := 0 }
      written := [] }) := by
  simp [fileOpenWriteSequential, Io.bind_run, attempt, ready]

/-- A file that cannot be created. -/
theorem fileOpenWriteSequential_fails (stat : FileStat) (ready : w.ready = false) :
    fileOpenWriteSequential stat w = (.FileError, w.tick) := by
  simp [fileOpenWriteSequential, Io.bind_run, attempt, ready]

end Operations

end HaclStar.Tube
