import Magisk.Boot.Image.Format
import Magisk.Bytes.Sparse
import Magisk.Result.Core
import Magisk.Sort.Core

/-!
# Extracting a partition from an update payload

`extract_boot_from_payload` reads the header and the manifest of an update
file, picks a partition and replays its install operations into an image.  The
operations are sorted by the offset of their data, so that an input that cannot
seek is only ever read forward.

Numbers of the manifest are `u64`, and `usize` has 64 bits; subtraction and
multiplication wrap as they do in a release build.  The protobuf reader and the
decompressors are parameters.  The input is an open file: a regular one, or a
pipe, on which every seek fails.  Opening the two files and the space on the
disk are left out.
-/

namespace Magisk.Boot.Payload

open Boot.Image (FileFormat checkFmt)
open Result List Bytes

variable {α : Type} {len : Nat}

/-! ## The manifest -/

/-- `InstallOperation.Type`. -/
inductive OperationType where
  | replace
  | replaceBz
  | move
  | bsdiff
  | sourceCopy
  | sourceBsdiff
  | zero
  | discard
  | replaceXz
  | puffdiff
  | brotliBsdiff
  | zucchini
  | lz4diffBsdiff
  | lz4diffPuffdiff
  deriving DecidableEq, Repr

/-- `Extent`. -/
structure Extent where
  startBlock : Option Nat
  numBlocks : Option Nat
  deriving DecidableEq, Repr

/-- `InstallOperation`. -/
structure InstallOperation where
  type : OperationType
  dataOffset : Option Nat
  dataLength : Option Nat
  dstExtents : List Extent
  deriving DecidableEq, Repr

/-- `PartitionUpdate`. -/
structure PartitionUpdate where
  partitionName : String
  operations : List InstallOperation
  deriving DecidableEq, Repr

/-- `DeltaArchiveManifest`. -/
structure DeltaArchiveManifest where
  blockSize : Option Nat
  minorVersion : Option Nat
  partitions : List PartitionUpdate
  deriving DecidableEq, Repr

/-- `get_block_size`. -/
def DeltaArchiveManifest.getBlockSize (manifest : DeltaArchiveManifest) : Nat :=
  manifest.blockSize.getD 4096

/-- `get_minor_version`. -/
def DeltaArchiveManifest.getMinorVersion (manifest : DeltaArchiveManifest) : Nat :=
  manifest.minorVersion.getD 0

/-- The protobuf reader, and what a decoder for a format makes of a stream. -/
structure Codec where
  manifest : List UInt8 → Option DeltaArchiveManifest
  decode : FileFormat → List UInt8 → Option (List UInt8)

/-! ## Failures -/

/-- Why an extraction ends without an image. -/
inductive Failure where
  /-- `bad_payload!`, with what is logged behind `Invalid payload: `. -/
  | badPayload (message : String)
  /-- `read_exact` has come to the end of the input. -/
  | unexpectedEof
  /-- A seek to an offset that is none. -/
  | invalidSeek
  /-- The manifest is not a protobuf message. -/
  | protobuf
  /-- `unreachable!()`. -/
  | abort
  deriving DecidableEq, Repr

/-- `ok_or_else(|| bad_payload!(message))`. -/
def okOr {α : Type} (value : Option α) (message : String) : Except Failure α :=
  match value with
  | some value => .ok value
  | none => .error (.badPayload message)

@[simp]
theorem okOr_some (value : α) (message : String) : okOr (some value) message = .ok value :=
  rfl

theorem okOr_eq_ok_iff {value : Option α} {message : String} {result : α} :
    okOr value message = .ok result ↔ value = some result := by
  cases value with
  | none => simp [okOr]
  | some value => simp [okOr]

/-- Go on only if a check holds. -/
def ensure (holds : Bool) (failure : Failure) : Except Failure Unit :=
  if holds then .ok () else .error failure

/-! ## The input -/

/-- The input file and the position of the reader. -/
structure Input where
  file : List UInt8
  seekable : Bool
  position : Nat
  deriving DecidableEq, Repr

/-- `read_exact`. -/
def Input.readExact (input : Input) (count : Nat) : Except Failure (List UInt8 × Input) :=
  if count = 0 ∨ input.position + count ≤ input.file.length then
    .ok (window input.file input.position count,
      { input with position := input.position + count })
  else .error .unexpectedEof

/-- `len as i64`. -/
def asI64 (len : Nat) : Int :=
  if len < 2 ^ 63 then len else len - 2 ^ 64

/-- `seek(SeekFrom::Current(offset))`. -/
def Input.seekCurrent (input : Input) (offset : Int) : Option Input :=
  let target := (input.position : Int) + offset
  if input.seekable = true ∧ 0 ≤ target ∧ target < 2 ^ 63 then
    some { input with position := target.toNat }
  else none

/-- `ReadSeekExt::skip`. -/
def Input.skip (input : Input) (len : Nat) : Except Failure Input :=
  match input.seekCurrent (asI64 len) with
  | some input => .ok input
  | none => (input.readExact len).map Prod.snd

/-- `read_u64::<BigEndian>` and `read_u32::<BigEndian>`. -/
def Input.readBe (input : Input) (width : Nat) : Except Failure (Nat × Input) := do
  let (bytes, input) ← input.readExact width
  .ok (ofBe bytes, input)

/-! ## One operation -/

/-- `seek(SeekFrom::Start(offset))` and `write_all(data)`. -/
def seekWrite (outFile : List UInt8) (offset : Nat) (data : List UInt8) :
    Except Failure (List UInt8) :=
  if offset < 2 ^ 63 then .ok (writeAt outFile offset data) else .error .invalidSeek

/-- `get_decoder` for the format that `check_fmt` finds, and `io::copy`. -/
def decompress (codec : Codec) (data : List UInt8) : Except Failure (List UInt8) :=
  let fmt := checkFmt data data.length
  if fmt.isCompressed then okOr (codec.decode fmt data) "decompression failed"
  else .error .abort

/-- One extent of a `ZERO` operation: `write_zeros(num_blocks)`. -/
def zeroExtent (blockSize : Nat) (outFile : List UInt8) (ext : Extent) :
    Except Failure (List UInt8) := do
  let start ← okOr ext.startBlock "start block not found"
  let numBlocks ← okOr ext.numBlocks "num blocks not found"
  seekWrite outFile (start * blockSize % 2 ^ 64) (zeros numBlocks)

/-- The `match data_type`. -/
def install (codec : Codec) (blockSize : Nat) (operation : InstallOperation)
    (data : List UInt8) (outOffset : Nat) (outFile : List UInt8) :
    Except Failure (List UInt8) :=
  match operation.type with
  | .replace => seekWrite outFile outOffset data
  | .zero => operation.dstExtents.foldlM (zeroExtent blockSize) outFile
  | .replaceBz | .replaceXz => do
      ensure (outOffset < 2 ^ 63) .invalidSeek
      let data ← decompress codec data
      seekWrite outFile outOffset data
  | _ => .error (.badPayload "unsupported operation type")

/-- The variables of the loop over the operations. -/
structure Progress where
  input : Input
  currDataOffset : Nat
  outFile : List UInt8
  deriving DecidableEq, Repr

/-- One turn of the loop. -/
def perform (codec : Codec) (blockSize : Nat) (progress : Progress)
    (operation : InstallOperation) : Except Failure Progress := do
  let dataLen ← okOr operation.dataLength "data length not found"
  let dataOffset ← okOr operation.dataOffset "data offset not found"
  let input ← progress.input.skip ((dataOffset + 2 ^ 64 - progress.currDataOffset) % 2 ^ 64)
  let (data, input) ← input.readExact dataLen
  let first ← okOr operation.dstExtents.head? "dst extents not found"
  let start ← okOr first.startBlock "start block not found"
  let outFile ← install codec blockSize operation data (start * blockSize % 2 ^ 64)
    progress.outFile
  .ok ⟨input, (dataOffset + dataLen) % 2 ^ 64, outFile⟩

/-! ## The whole file -/

def payloadMagic : List UInt8 := utf8 "CrAU"

/-- The partition that was asked for, or else `init_boot`, or else `boot`. -/
def selectPartition (manifest : DeltaArchiveManifest) :
    Option String → Except Failure PartitionUpdate
  | none =>
    okOr ((manifest.partitions.find? fun p => p.partitionName == "init_boot").or
      (manifest.partitions.find? fun p => p.partitionName == "boot"))
      "boot partition not found"
  | some name =>
    okOr (manifest.partitions.find? fun p => p.partitionName == name)
      s!"partition '{name}' not found"

/-- The key of `sort_by_key`. -/
def InstallOperation.sortKey (operation : InstallOperation) : Nat :=
  operation.dataOffset.getD 0

/-- The order of `sort_by_key`. -/
def SortsBefore (first second : InstallOperation) : Prop :=
  first.sortKey ≤ second.sortKey

instance : DecidableRel SortsBefore :=
  fun _ _ => inferInstanceAs (Decidable (_ ≤ _))

instance : IsTrans InstallOperation SortsBefore where
  trans _ _ _ first second := Nat.le_trans first second

instance : Std.Total SortsBefore where
  total first second := Nat.le_total first.sortKey second.sortKey

/-- `out_path`, or the name of the partition with `.img` behind it. -/
def outName (partition : PartitionUpdate) (outPath : Option String) : String :=
  outPath.getD (partition.partitionName ++ ".img")

/-- `extract_boot_from_payload`: the name of the image and what is in it. -/
def extractBootFromPayload (codec : Codec) (input : Input) (partitionName outPath : Option String) :
    Except Failure (String × List UInt8) := do
  let (magic, input) ← input.readExact 4
  ensure (magic = payloadMagic) (.badPayload "invalid magic")
  let (version, input) ← input.readBe 8
  ensure (version = 2) (.badPayload s!"unsupported version: {version}")
  let (manifestLen, input) ← input.readBe 8
  ensure (manifestLen ≠ 0) (.badPayload "manifest length is zero")
  let (manifestSigLen, input) ← input.readBe 4
  ensure (manifestSigLen ≠ 0) (.badPayload "manifest signature length is zero")
  let (bytes, input) ← input.readExact manifestLen
  let manifest ← (codec.manifest bytes).elim (.error .protobuf) .ok
  ensure (manifest.getMinorVersion = 0)
    (.badPayload "delta payloads are not supported, please use a full payload file")
  let partition ← selectPartition manifest partitionName
  let input ← input.skip manifestSigLen
  let operations := partition.operations.insertionSort SortsBefore
  let progress ← operations.foldlM (perform codec manifest.getBlockSize) ⟨input, 0, []⟩
  .ok (outName partition outPath, progress.outFile)

/-! ## Reading forward -/

/-- The reader after `count` more bytes. -/
def Input.advance (input : Input) (count : Nat) : Input :=
  { input with position := input.position + count }

variable {input : Input}

theorem Input.readExact_of_le {count : Nat} (inside : input.position + count ≤ input.file.length) :
    input.readExact count = .ok (window input.file input.position count, input.advance count) :=
  if_pos (Or.inr inside)

/-- Skipping forward works on every input, by a seek or by reading. -/
theorem Input.skip_of_le (small : len < 2 ^ 63)
    (inside : input.position + len ≤ input.file.length) :
    input.skip len = .ok (input.advance len) := by
  rw [Input.skip, Input.seekCurrent, asI64, if_pos small]
  split
  · rename_i next found
    split at found
    · cases found
      congr 1
    · cases found
  · rw [Input.readExact_of_le inside]
    rfl

/-- A pipe can only be skipped forward. -/
theorem Input.skip_pipe {next : Input} (pipe : input.seekable = false)
    (skipped : input.skip len = .ok next) : len = 0 ∨ input.position + len ≤ input.file.length := by
  have noSeek : input.seekCurrent (asI64 len) = none := by
    rw [Input.seekCurrent, if_neg (by rw [pipe]; simp)]
  rw [Input.skip, noSeek] at skipped
  by_cases inside : len = 0 ∨ input.position + len ≤ input.file.length
  · exact inside
  · rw [Input.readExact, if_neg inside] at skipped
    cases skipped

/-- The variables of the loop when it has read the blobs up to `curr`. -/
def progressAt (header blobs : List UInt8) (seekable : Bool) (curr : Nat) (outFile : List UInt8) :
    Progress :=
  ⟨⟨header ++ blobs, seekable, header.length + curr⟩, curr, outFile⟩

section Perform

variable {codec : Codec} {blockSize : Nat} {header blobs outFile : List UInt8} {seekable : Bool}
  {curr offset length start : Nat} {operation : InstallOperation} {extent : Extent}

/-- An operation whose data is still ahead of the reader is installed with its
data. -/
theorem perform_of_ahead (hasOffset : operation.dataOffset = some offset)
    (hasLength : operation.dataLength = some length) (ahead : curr ≤ offset)
    (inside : offset + length ≤ blobs.length) (fits : (header ++ blobs).length < 2 ^ 63)
    (hasExtent : operation.dstExtents.head? = some extent)
    (hasStart : extent.startBlock = some start) :
    perform codec blockSize (progressAt header blobs seekable curr outFile) operation =
      (install codec blockSize operation (window blobs offset length)
        (start * blockSize % 2 ^ 64) outFile).map
        (progressAt header blobs seekable (offset + length)) := by
  rw [length_append] at fits
  have gap : (offset + 2 ^ 64 - curr) % 2 ^ 64 = offset - curr := by omega
  have position : header.length + curr + (offset - curr) = header.length + offset := by omega
  have skips : Input.skip ⟨header ++ blobs, seekable, header.length + curr⟩ (offset - curr) =
      .ok ⟨header ++ blobs, seekable, header.length + offset⟩ := by
    rw [Input.skip_of_le (by omega) (by rw [length_append]; dsimp only; omega),
      Input.advance, position]
  have reads : Input.readExact ⟨header ++ blobs, seekable, header.length + offset⟩ length =
      .ok (window blobs offset length,
        ⟨header ++ blobs, seekable, header.length + (offset + length)⟩) := by
    rw [Input.readExact_of_le (by rw [length_append]; dsimp only; omega), Input.advance,
      window_append_right (Nat.le_add_right _ _), Nat.add_sub_cancel_left, Nat.add_assoc]
  have noWrap : (offset + length) % 2 ^ 64 = offset + length := Nat.mod_eq_of_lt (by omega)
  simp only [perform, progressAt, hasLength, hasOffset, okOr_some, ok_bind, gap,
    skips, reads, hasExtent, hasStart, noWrap]
  cases install codec blockSize operation (window blobs offset length)
      (start * blockSize % 2 ^ 64) outFile with
  | error failure => rfl
  | ok image => rfl

/-- On a pipe an operation is only performed if its data is ahead. -/
theorem ahead_of_perform_pipe {next : Progress}
    (performed : perform codec blockSize (progressAt header blobs false curr outFile) operation =
      .ok next)
    (inside : ∀ offset length, operation.dataOffset = some offset →
      operation.dataLength = some length → offset + length ≤ blobs.length)
    (read : curr ≤ blobs.length) (fits : (header ++ blobs).length < 2 ^ 63) :
    ∃ offset length extent start, operation.dataOffset = some offset ∧
      operation.dataLength = some length ∧ curr ≤ offset ∧
      operation.dstExtents.head? = some extent ∧ extent.startBlock = some start := by
  rcases bind_eq_ok_iff.mp performed with ⟨length, hasLength, performed⟩
  rcases bind_eq_ok_iff.mp performed with ⟨offset, hasOffset, performed⟩
  rcases bind_eq_ok_iff.mp performed with ⟨input, skipped, performed⟩
  rcases bind_eq_ok_iff.mp performed with ⟨⟨data, last⟩, _, performed⟩
  rcases bind_eq_ok_iff.mp performed with ⟨extent, hasExtent, performed⟩
  rcases bind_eq_ok_iff.mp performed with ⟨start, hasStart, _⟩
  rw [okOr_eq_ok_iff] at hasLength hasOffset hasExtent hasStart
  have forward := Input.skip_pipe rfl skipped
  simp only [progressAt] at forward
  refine ⟨offset, length, extent, start, hasOffset, hasLength, ?_, hasExtent, hasStart⟩
  rw [length_append] at fits forward
  omega

end Perform

end Magisk.Boot.Payload
