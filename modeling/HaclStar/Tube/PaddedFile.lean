import HaclStar.Tube.Session

/-! The mapped files behind the padded file windows, with the conversions of their C implementation. -/

namespace HaclStar.Tube.PaddedFile

open Endianness Memory

/-- The size of the scratch buffer, and of the space behind a file that is written. -/
def maxBlockSize : UInt64 := 256 * 1024

theorem maxBlockSize_toNat : maxBlockSize.toNat = 262144 := by decide

/-- An open file: its size, the bytes that are mapped, and the position. -/
structure Handle where
  size : UInt64
  mmap : Bytes
  current : UInt64

/-- A pointer into the mapped bytes, or the scratch buffer with its content. -/
inductive Window where
  | mapped (offset : Int)
  | last (content : Bytes)

/-- The `int` that a 64-bit number is converted to: its low 32 bits with a sign. -/
def toInt (x : UInt64) : Int :=
  let low : Nat := x.toNat % 2 ^ 32
  if low < 2 ^ 31 then (low : Int) else (low : Int) - 2 ^ 32

/-- The 64-bit number that an `int` is converted to. -/
def toUInt64 (x : Int) : UInt64 := UInt64.ofInt x

/-- Some of the mapped bytes; there is nothing to read outside them. -/
def readMapped (fh : Handle) (offset : Int) (len : Nat) : Option Bytes :=
  if 0 ≤ offset ∧ offset + len ≤ fh.mmap.length then some ((fh.mmap.drop offset.toNat).take len) else none

/-- The handle of a file mapped for reading. -/
def fileOpenReadSequential (content : Bytes) : Handle := ⟨UInt64.ofNat content.length, content, 0⟩

/-- The handle of a file mapped for writing, with a block of space behind it. -/
def fileOpenWriteSequential (size : UInt64) : Handle :=
  ⟨size, List.replicate (size.toNat + maxBlockSize.toNat) 0, 0⟩

/-- The window of the next `len` bytes of a file that is read. -/
def fileNextReadBuffer (fh : Handle) (len : UInt64) : Option (Window × Handle) :=
  if len > maxBlockSize then none
  else
    let curr := toInt fh.current
    let after := { fh with current := fh.current + len }
    if toUInt64 curr + len ≤ fh.size then some (.mapped curr, after)
    else
      let last := List.replicate maxBlockSize.toNat 0
      if toUInt64 curr ≤ fh.size ∧ toUInt64 curr + len > fh.size then do
        let content ← readMapped fh curr (fh.size - toUInt64 curr).toNat
        return (.last (splice last 0 content), after)
      else some (.last last, after)

/-- The window of the next `len` bytes of a file that is written. -/
def fileNextWriteBuffer (fh : Handle) (len : UInt64) : Option (Window × Handle) :=
  let curr := toInt fh.current
  if len > maxBlockSize then none
  else if toUInt64 curr + len ≤ fh.size + maxBlockSize then
    some (.mapped curr, { fh with current := fh.current + len })
  else some (.last (List.replicate maxBlockSize.toNat 0), fh)

/-- Read `len` bytes from a window. -/
def readWindow (fh : Handle) (w : Window) (len : Nat) : Option Bytes :=
  match w with
  | .mapped offset => readMapped fh offset len
  | .last content => some (content.take len)

/-- Read window after window, each before the next one is asked for. -/
def readAll (fh : Handle) : List UInt64 → Option (List Bytes)
  | [] => some []
  | len :: lens => do
    let (w, fh) ← fileNextReadBuffer fh len
    let bytes ← readWindow fh w len.toNat
    let rest ← readAll fh lens
    return bytes :: rest

/-- Ask for one window after another to write to. -/
def writeAll (fh : Handle) : List UInt64 → Option (List (UInt64 × Window))
  | [] => some []
  | len :: lens => do
    let (w, fh) ← fileNextWriteBuffer fh len
    let rest ← writeAll fh lens
    return (len, w) :: rest

/-- The position as the code uses it: it is lost above 32 bits, and negative from 2^31 on. -/
theorem toInt_ofNat (pos : Nat) : toInt (UInt64.ofNat pos) =
    if pos % 2 ^ 32 < 2 ^ 31 then ((pos % 2 ^ 32 : Nat) : Int) else (pos % 2 ^ 32 : Nat) - 2 ^ 32 := by
  have low : (UInt64.ofNat pos).toNat % 2 ^ 32 = pos % 2 ^ 32 := by
    rw [UInt64.toNat_ofNat']
    omega
  rw [toInt, low]

/-- The conversion as a number. -/
theorem toUInt64_toNat (x : Int) : (toUInt64 x).toNat = (x % 2 ^ 64).toNat := by
  rw [toUInt64, UInt64.ofInt, UInt64.toNat_ofNat']
  omega

/-- A position that is not negative is kept by the conversions. -/
theorem toUInt64_nonneg {low : Nat} (below : low < 2 ^ 31) : (toUInt64 (low : Int)).toNat = low := by
  rw [toUInt64_toNat]
  omega

/-- A negative position becomes one close to 2^64. -/
theorem toUInt64_neg {low : Nat} (above : 2 ^ 31 ≤ low) (below : low < 2 ^ 32) :
    (toUInt64 ((low : Int) - 2 ^ 32)).toNat = 2 ^ 64 - 2 ^ 32 + low := by
  rw [toUInt64_toNat]
  omega

end HaclStar.Tube.PaddedFile
