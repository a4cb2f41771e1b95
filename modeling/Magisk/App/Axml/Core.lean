import Magisk.Bytes.Utf16
import Magisk.Bytes.Window
import Magisk.Result.Core

/-!
# Patching the strings of a binary manifest

`AXML.patchStrings` finds the string pool of a binary XML file, maps every string
of it and writes a new file into a growing buffer.  Sizes and the index table are
patched into that buffer before the chunks behind the pool are copied.

Numbers are 32-bit integers of the virtual machine, which wrap around.  A string
is the list of its 16-bit characters.
-/

namespace Magisk.App.Axml

open Bytes Bytes.Utf16 Result

variable {bytes result : List UInt8} {value pos : Int}

/-- What the virtual machine throws, and a loop that does not end. -/
inductive Exn where
  | outOfBounds
  | illegalArgument
  | outOfMemory
  | endless
  deriving DecidableEq, Repr

/-- The 32-bit integer of a number. -/
def i32 (value : Int) : Int :=
  value.bmod (2 ^ 32)

theorem i32_eq (low : -2 ^ 31 ≤ value) (high : value < 2 ^ 31) : i32 value = value := by
  rw [i32, Int.bmod_eq_of_le (by omega) (by omega)]

theorem i32_natCast {value : Nat} (high : value < 2 ^ 31) : i32 value = value :=
  i32_eq (by omega) (by omega)

/-! ## Byte buffers -/

/-- `ByteBuffer.getInt`, little-endian. -/
def getInt (bytes : List UInt8) (pos : Int) : Except Exn Int :=
  if 0 ≤ pos ∧ pos + 4 ≤ bytes.length then
    .ok (i32 (ofLe (window bytes pos.toNat 4)))
  else
    .error .outOfBounds

/-- `ByteBuffer.getShort`, little-endian. -/
def getShort (bytes : List UInt8) (pos : Int) : Except Exn Int :=
  if 0 ≤ pos ∧ pos + 2 ≤ bytes.length then
    .ok ((ofLe (window bytes pos.toNat 2) : Int).bmod (2 ^ 16))
  else
    .error .outOfBounds

/-- The bytes of an integer. -/
def intBytes (value : Int) : List UInt8 :=
  leBytes 4 (value % 2 ^ 32).toNat

/-- `ByteBuffer.putInt`, little-endian. -/
def putInt (bytes : List UInt8) (pos value : Int) : Except Exn (List UInt8) :=
  if 0 ≤ pos ∧ pos + 4 ≤ bytes.length then
    .ok (poke bytes pos.toNat (intBytes value))
  else
    .error .outOfBounds

/-- `IntBuffer.put`, one integer after another. -/
def putInts (bytes : List UInt8) (pos : Int) : List Int → Except Exn (List UInt8)
  | [] => .ok bytes
  | value :: rest => do
      let bytes ← putInt bytes pos value
      putInts bytes (pos + 4) rest

/-- `String(bytes, offset, length, UTF_16LE)`. -/
def newString (bytes : List UInt8) (offset length : Int) : Except Exn (List UInt16) :=
  if 0 ≤ offset ∧ 0 ≤ length ∧ offset + length ≤ bytes.length then
    .ok (decode (window bytes offset.toNat length.toNat))
  else
    .error .outOfBounds

/-! ## The output stream -/

/-- `RawByteStream`: a buffer of which the first `count` bytes were written. -/
structure RawByteStream where
  buf : List UInt8
  count : Nat
  inside : count ≤ buf.length

namespace RawByteStream

/-- `SOFT_MAX_ARRAY_LENGTH`. -/
def softMax : Nat :=
  2 ^ 31 - 1 - 8

/-- The capacity after growing from `old` to at least `needed`. -/
def newCapacity (old needed : Nat) : Nat :=
  let preferred := max needed (2 * old)
  if preferred ≤ softMax then preferred else max needed softMax

theorem le_newCapacity (old needed : Nat) : needed ≤ newCapacity old needed := by
  rw [newCapacity]
  split <;> omega

/-- The buffer with room for `needed` bytes. -/
def grown (buf : List UInt8) (needed : Nat) : List UInt8 :=
  if needed ≤ buf.length then
    buf
  else
    buf ++ zeros (newCapacity buf.length needed - buf.length)

theorem le_length_grown (buf : List UInt8) (needed : Nat) : needed ≤ (grown buf needed).length := by
  rw [grown]
  split
  · assumption
  · have := le_newCapacity buf.length needed
    rw [List.length_append, length_zeros]
    omega

/-- A new stream has a buffer of 32 bytes. -/
def new : RawByteStream :=
  ⟨zeros 32, 0, Nat.zero_le _⟩

/-- `write`.  No array is longer than the largest integer. -/
def write (stream : RawByteStream) (bytes : List UInt8) : Except Exn RawByteStream :=
  if stream.count + bytes.length < 2 ^ 31 then
    .ok
      { buf := poke (grown stream.buf (stream.count + bytes.length)) stream.count bytes
        count := stream.count + bytes.length
        inside := by
          rw [length_poke]
          exact le_length_grown _ _ }
  else
    .error .outOfMemory

/-- `write(bytes, off, len)`. -/
def writeRange (stream : RawByteStream) (bytes : List UInt8) (off len : Int) :
    Except Exn RawByteStream :=
  if 0 ≤ off ∧ 0 ≤ len ∧ off + len ≤ bytes.length then
    stream.write (window bytes off.toNat len.toNat)
  else
    .error .outOfBounds

/-- So many single zeros. -/
def writeZeros : Nat → RawByteStream → Except Exn RawByteStream
  | 0, stream => .ok stream
  | zeros + 1, stream => do writeZeros zeros (← stream.write [0])

/-- `align`, to four bytes. -/
def align (stream : RawByteStream) : Except Exn RawByteStream :=
  let newCount := (i32 (stream.count + 4 - 1)).tdiv 4 * 4
  writeZeros (i32 (newCount - stream.count)).toNat stream

/-- `toByteArray`. -/
def toByteArray (stream : RawByteStream) : List UInt8 :=
  stream.buf.take stream.count

end RawByteStream

/-! ## The patch -/

/-- `CHUNK_SIZE_OFF`. -/
def chunkSizeOff : Int :=
  4

/-- `STRING_INDICES_OFF`. -/
def stringIndicesOff : Int :=
  7 * 4

/-- `findStringPool` from `offset` on, for so many rounds.  A run that visits more
offsets than there are bytes visits one twice and never ends. -/
def findStringPool (bytes : List UInt8) : Nat → Int → Except Exn Int
  | 0, _ => .error .endless
  | rounds + 1, offset =>
    if offset < bytes.length then do
      if (← getInt bytes offset) = 0x1C0001 then
        return offset
      else
        let size ← getInt bytes (offset + chunkSizeOff)
        findStringPool bytes rounds (i32 (offset + size))
    else
      return -1

/-- What is read of the pool's header. -/
structure Header where
  size : Int
  count : Int
  dataOff : Int

/-- Read the six integers behind the type of the pool. -/
def readHeader (bytes : List UInt8) (start : Int) : Except Exn Header := do
  let size ← getInt bytes (start + 4)
  let count ← getInt bytes (start + 8)
  let _ ← getInt bytes (start + 12)
  let _ ← getInt bytes (start + 16)
  let stringsStart ← getInt bytes (start + 20)
  let _ ← getInt bytes (start + 24)
  return ⟨size, count, i32 (start + stringsStart)⟩

/-- Read the string whose index is at `pos`. -/
def readString (bytes : List UInt8) (dataOff pos : Int) : Except Exn (List UInt16) := do
  let off := i32 (dataOff + (← getInt bytes pos))
  let len ← getShort bytes off
  newString bytes (i32 (off + 2)) (len * 2)

/-- Read so many strings, whose indices start at `pos`. -/
def readStrings (bytes : List UInt8) (dataOff : Int) :
    Nat → Int → Except Exn (List (List UInt16))
  | 0, _ => .ok []
  | count + 1, pos => do
      let str ← readString bytes dataOff pos
      let rest ← readStrings bytes dataOff count (pos + 4)
      return str :: rest

/-- Write one string with its length in front and a terminator behind. -/
def writeString (stream : RawByteStream) (str : List UInt16) : Except Exn RawByteStream := do
  let stream ← stream.write (leBytes 2 str.length)
  let stream ← stream.write (encode str)
  let stream ← stream.write [0]
  stream.write [0]

/-- Write the strings, noting where each starts. -/
def writeStrings (dataOff : Int) :
    List (List UInt16) → RawByteStream → Except Exn (List Int × RawByteStream)
  | [], stream => .ok ([], stream)
  | str :: rest, stream => do
      let off := i32 (stream.count - dataOff)
      let stream ← writeString stream str
      let (offList, stream) ← writeStrings dataOff rest stream
      return (off :: offList, stream)

/-- `sizeDiff`: by how much the pool grows. -/
def sizeDiff (stream : RawByteStream) (start : Int) (header : Header) : Int :=
  i32 (i32 (stream.count - start) - header.size)

/-- Patch the two sizes and the index table into the buffer. -/
def patchSizes (bytes : List UInt8) (start : Int) (header : Header) (offList : List Int)
    (stream : RawByteStream) : Except Exn (List UInt8) := do
  let total ← getInt bytes chunkSizeOff
  let buf ← putInt stream.buf chunkSizeOff (i32 (total + sizeDiff stream start header))
  let buf ← putInt buf (start + chunkSizeOff)
    (i32 (header.size + sizeDiff stream start header))
  if start + stringIndicesOff ≤ buf.length then
    putInts buf (start + stringIndicesOff) offList
  else
    throw .illegalArgument

theorem length_putInt (put : putInt bytes pos value = .ok result) :
    result.length = bytes.length := by
  rw [putInt] at put
  split at put
  · cases put
    exact length_poke _ _ _
  · cases put

theorem length_putInts {values : List Int} (put : putInts bytes pos values = .ok result) :
    result.length = bytes.length := by
  induction values generalizing bytes pos with
  | nil =>
    cases put
    rfl
  | cons value values ih =>
    obtain ⟨next, first, rest⟩ := bind_eq_ok put
    exact (ih rest).trans (length_putInt first)

theorem length_patchSizes {start : Int} {header : Header} {offList : List Int}
    {stream : RawByteStream} (patched : patchSizes bytes start header offList stream = .ok result) :
    result.length = stream.buf.length := by
  obtain ⟨total, _, patched⟩ := bind_eq_ok patched
  obtain ⟨first, putTotal, patched⟩ := bind_eq_ok patched
  obtain ⟨second, putSize, patched⟩ := bind_eq_ok patched
  split at patched
  · rw [length_putInts patched, length_putInt putSize, length_putInt putTotal]
  · cases patched

/-- The stream once its buffer was patched in place. -/
def patchStream (bytes : List UInt8) (start : Int) (header : Header) (offList : List Int)
    (stream : RawByteStream) : Except Exn RawByteStream :=
  match patched : patchSizes bytes start header offList stream with
  | .ok buf => .ok ⟨buf, stream.count, length_patchSizes patched ▸ stream.inside⟩
  | .error exn => .error exn

/-- Write the new file with the strings in place of those of the pool. -/
def writePatched (bytes : List UInt8) (start : Int) (header : Header)
    (strArr : List (List UInt16)) : Except Exn (List UInt8) := do
  let stream ← RawByteStream.new.writeRange bytes 0 header.dataOff
  let (offList, stream) ← writeStrings header.dataOff strArr stream
  let stream ← stream.align
  let stream ← patchStream bytes start header offList stream
  let nextOff := i32 (start + header.size)
  let stream ← stream.writeRange bytes nextOff (i32 (bytes.length - nextOff))
  return stream.toByteArray

/-- The new file, once the pool was found at `start`. -/
def patchPool (mapFn : List UInt16 → List UInt16) (bytes : List UInt8) (start : Int) :
    Except Exn (List UInt8) := do
  let header ← readHeader bytes start
  if header.count < 0 then
    throw .illegalArgument
  else
    let strList ← readStrings bytes header.dataOff header.count.toNat (start + stringIndicesOff)
    writePatched bytes start header (strList.map mapFn)

/-- `patchStrings`: its result, and the bytes it leaves. -/
def patchStrings (mapFn : List UInt16 → List UInt16) (bytes : List UInt8) :
    Except Exn (Bool × List UInt8) := do
  let start ← findStringPool bytes (bytes.length + 1) 8
  if start < 0 then
    return (false, bytes)
  else
    let patched ← patchPool mapFn bytes start
    return (true, patched)

end Magisk.App.Axml
