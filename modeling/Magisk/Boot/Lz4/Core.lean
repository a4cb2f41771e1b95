import Magisk.Base.Chunker
import Magisk.Base.Reader
import Magisk.Bytes.Endian

/-!
# The LZ4 legacy archive

An archive is a magic word followed by blocks, each with its compressed size in
front; the LG variant ends with the total uncompressed size.  The encoder cuts
its input into blocks of eight megabytes.  The decoder skips a magic in front of
any block, so that archives can be concatenated, and takes a size that no block
can have for the LG trailer.

The block coder is a parameter: what it does inside a block is the library's
business.
-/

namespace Magisk.Boot

open Base Bytes

/-- `lz4::block::compress_to_buffer` and `decompress_to_buffer`. -/
structure Lz4Block where
  compress : List UInt8 → Option (List UInt8)
  decompress : List UInt8 → Option (List UInt8)

namespace Lz4

/-- `LZ4_BLOCK_SIZE`. -/
def blockSize : Nat :=
  0x800000

/-- `LZ4_MAGIC`. -/
def magic : Nat :=
  0x184c2102

/-- `lz4::block::compress_bound(LZ4_BLOCK_SIZE)`, the size of the buffers for
compressed data. -/
def compressBound : Nat :=
  blockSize + blockSize / 255 + 16

/-! ## Encoding -/

/-- `LZ4BlockEncoder` over a byte vector. -/
structure Encoder where
  write : List UInt8
  chunker : Chunker
  total : UInt32
  isLg : Bool

namespace Encoder

/-- `LZ4BlockEncoder::new`. -/
def new (isLg : Bool) : Encoder :=
  { write := []
    chunker := Chunker.new blockSize (by decide)
    total := 0
    isLg }

/-- `write_pod` of a 32-bit word. -/
def writePod (encoder : Encoder) (value : Nat) : Encoder :=
  { encoder with write := encoder.write ++ leBytes 4 value }

/-- `encode_block`. -/
def encodeBlock (codec : Lz4Block) (encoder : Encoder) (chunk : List UInt8) : Option Encoder :=
  (codec.compress chunk).map fun packed =>
    let encoder := encoder.writePod packed.length
    { encoder with write := encoder.write ++ packed }

/-- Encode the chunk that became full, if there is one. -/
def encodeFull (codec : Lz4Block) (encoder : Encoder) : Option (List UInt8) → Option Encoder
  | none => some encoder
  | some chunk => encoder.encodeBlock codec chunk

/-- The loop of `write_all`. -/
def writeLoop (codec : Lz4Block) (encoder : Encoder) (buf : List UInt8) : Option Encoder :=
  if _nonempty : buf = [] then
    some encoder
  else
    match ({ encoder with chunker := (encoder.chunker.addData buf).2.2 }).encodeFull codec
        (encoder.chunker.addData buf).2.1 with
    | none => none
    | some encoder' => encoder'.writeLoop codec (encoder.chunker.addData buf).1
termination_by buf.length
decreasing_by exact (encoder.chunker.added_addData buf).consumed _nonempty

/-- `write_all`; the magic goes in front of the first data. -/
def writeAll (codec : Lz4Block) (encoder : Encoder) (buf : List UInt8) : Option Encoder :=
  let encoder := if encoder.total = 0 then encoder.writePod magic else encoder
  let encoder := { encoder with total := encoder.total + UInt32.ofNat buf.length }
  encoder.writeLoop codec buf

/-- `finish`. -/
def finish (codec : Lz4Block) (encoder : Encoder) : Option (List UInt8) :=
  let chunk := encoder.chunker.getAvailable.1
  let encoder := { encoder with chunker := encoder.chunker.getAvailable.2 }
  let encoded := if chunk = [] then some encoder else encoder.encodeBlock codec chunk
  encoded.map fun encoder =>
    if encoder.isLg then (encoder.writePod encoder.total.toNat).write else encoder.write

/-- All of a sequence of writes, and `finish`. -/
def encode (codec : Lz4Block) (isLg : Bool) (writes : List (List UInt8)) : Option (List UInt8) :=
  (writes.foldlM (writeAll codec) (Encoder.new isLg)).bind (finish codec)

end Encoder

/-! ## Decoding -/

/-- `LZ4BlockDecoder`. -/
structure Decoder where
  read : Reader
  /-- The bytes of the input buffer, as far as they were ever written. -/
  inBuf : List UInt8
  /-- The decompressed bytes not handed out yet. -/
  out : List UInt8

namespace Decoder

/-- `LZ4BlockDecoder::new`. -/
def new (read : Reader) : Decoder :=
  ⟨read, [], []⟩

/-- Overwrite the front of the input buffer. -/
def fill (decoder : Decoder) (bytes : List UInt8) : Decoder :=
  { decoder with inBuf := bytes ++ decoder.inBuf.drop bytes.length }

/-- `decompress_to_buffer` on the first `size` bytes of the input buffer. -/
def decompress (codec : Lz4Block) (decoder : Decoder) (size : Nat) :
    Except IoError Bool × Decoder :=
  match codec.decompress (decoder.inBuf.take size) with
  | some out => (.ok true, { decoder with out })
  | none => (.error .other, decoder)

/-- Read and decompress a block of `size` compressed bytes.  A failing first
read is not looked at. -/
def readBlock (codec : Lz4Block) (decoder : Decoder) (size : Nat) :
    Except IoError Bool × Decoder :=
  if size > compressBound then
    (.ok false, decoder)
  else
    match decoder.read.read size with
    | (.ok bytes, read) =>
      let decoder := ({ decoder with read }).fill bytes
      if bytes.length = 0 then
        (.ok false, decoder)
      else if bytes.length ≠ size then
        match read.readExact (size - bytes.length) with
        | (rest, none, read) =>
          (({ decoder with read }).fill (bytes ++ rest)).decompress codec size
        | (rest, some error, read) =>
          (.error error, ({ decoder with read }).fill (bytes ++ rest))
      else
        decoder.decompress codec size
    | (.error _, read) => ({ decoder with read }).decompress codec size

/-- Make decompressed bytes available; false is the end of the stream. -/
def refill (codec : Lz4Block) (decoder : Decoder) : Except IoError Bool × Decoder :=
  match decoder.read.readExact 4 with
  | (_, some .unexpectedEof, read) => (.ok false, { decoder with read })
  | (_, some error, read) => (.error error, { decoder with read })
  | (word, none, read) =>
    if ofLe word = magic then
      match read.readExact 4 with
      | (_, some error, read) => (.error error, { decoder with read })
      | (word, none, read) => ({ decoder with read }).readBlock codec (ofLe word)
    else
      ({ decoder with read }).readBlock codec (ofLe word)

/-- Hand out at most `size` available bytes. -/
def take (decoder : Decoder) (size : Nat) : List UInt8 × Decoder :=
  (decoder.out.take size, { decoder with out := decoder.out.drop size })

/-- `LZ4BlockDecoder::read` into a buffer of `size` bytes. -/
def readInto (codec : Lz4Block) (decoder : Decoder) (size : Nat) :
    Except IoError (List UInt8) × Decoder :=
  if decoder.out = [] then
    match decoder.refill codec with
    | (.ok true, decoder) => (.ok (decoder.take size).1, (decoder.take size).2)
    | (.ok false, decoder) => (.ok [], decoder)
    | (.error error, decoder) => (.error error, decoder)
  else
    (.ok (decoder.take size).1, (decoder.take size).2)

/-- Read with buffers of the given sizes until a call returns no bytes; `none` if
`fuel` calls were not enough or a call failed. -/
def readToEnd (codec : Lz4Block) (sizes : Nat → Nat) : Nat → Decoder → Option (List UInt8)
  | 0, _ => none
  | fuel + 1, decoder =>
    match decoder.readInto codec (sizes 0) with
    | (.ok [], _) => some []
    | (.ok bytes, decoder) =>
      (readToEnd codec (fun call => sizes (call + 1)) fuel decoder).map (bytes ++ ·)
    | (.error _, _) => none

end Decoder

end Lz4

end Magisk.Boot
