import Magisk.Boot.Payload.Extract
import Magisk.Extent.Core

/-!
# What an update file describes

The meaning of a full update as its format defines it: the layout of the file,
the data attached to an install operation, and the image that the operations of
a partition call for.  A replace operation lays its data over the destination
extents in order and pads it with zeros; a `ZERO` operation clears every block
of its extents.
-/

namespace Magisk.Boot.Payload

open Magisk.Bytes Magisk.Extent
open Magisk.Boot.Image (FileFormat bzipMagic xzMagic)

variable {codec : Codec} {blobs data : List UInt8} {blockSize : Nat}

/-! ## The file -/

/-- The variable parts of an update file. -/
structure UpdateFile where
  manifest : List UInt8
  signature : List UInt8
  blobs : List UInt8
  deriving DecidableEq, Repr

/-- The fixed fields in front of the manifest. -/
def UpdateFile.preamble (update : UpdateFile) : List UInt8 :=
  payloadMagic ++ (beBytes 8 2 ++
    (beBytes 8 update.manifest.length ++ beBytes 4 update.signature.length))

/-- All that stands in front of the data blobs. -/
def UpdateFile.header (update : UpdateFile) : List UInt8 :=
  update.preamble ++ (update.manifest ++ update.signature)

/-- The file: header and data blobs. -/
def UpdateFile.bytes (update : UpdateFile) : List UInt8 :=
  update.header ++ update.blobs

/-! ## Operations -/

/-- The destination of an operation. -/
def InstallOperation.spans (operation : InstallOperation) : List Span :=
  operation.dstExtents.map fun extent => ⟨extent.startBlock.getD 0, extent.numBlocks.getD 0⟩

/-- The data in a compressed stream of a given format. -/
def unpack (codec : Codec) (format : FileFormat) (magic stream : List UInt8) :
    Option (List UInt8) :=
  if magic <+: stream then codec.decode format stream else none

/-- The data that an operation installs. -/
def attached (codec : Codec) (blobs : List UInt8) (operation : InstallOperation) :
    Option (List UInt8) :=
  match operation.dataOffset, operation.dataLength with
  | some offset, some length =>
    if offset + length ≤ blobs.length then
      match operation.type with
      | .replace => some (window blobs offset length)
      | .replaceBz => unpack codec .bzip2 bzipMagic (window blobs offset length)
      | .replaceXz => unpack codec .xz xzMagic (window blobs offset length)
      | _ => none
    else none
  | _, _ => none

/-- Data laid over the destination in order, with zeros behind it. -/
def Laid (blockSize : Nat) (spans : List Span) (data image : List UInt8) : Prop :=
  ∀ index place, position blockSize spans index = some place →
    image.getD place 0 = data.getD index 0 ∧ (index < data.length → place < image.length)

/-- Every byte of every block of the destination is zero. -/
def Zeroed (blockSize : Nat) (spans : List Span) (image : List UInt8) : Prop :=
  ∀ index place, position blockSize spans index = some place → image[place]? = some 0

/-- The image holds what an operation calls for. -/
def Installed (codec : Codec) (blobs : List UInt8) (blockSize : Nat) (image : List UInt8)
    (operation : InstallOperation) : Prop :=
  match operation.type with
  | .zero => Zeroed blockSize operation.spans image
  | _ => ∀ data, attached codec blobs operation = some data →
      Laid blockSize operation.spans data image

/-! ## Full updates -/

/-- The operations of a full update: data is replaced or cleared, a `ZERO`
operation has no data range, and every destination block belongs to one extent
only and lies where a file offset can point. -/
structure Installable (blockSize : Nat) (operations : List InstallOperation) : Prop where
  kinds : ∀ operation ∈ operations,
    operation.type ∈ [.replace, .replaceBz, .replaceXz, OperationType.zero]
  noRange : ∀ operation ∈ operations, operation.type = .zero →
    operation.dataOffset = none ∧ operation.dataLength = none
  extents : ∀ operation ∈ operations, ∀ extent ∈ operation.dstExtents, ∃ start count,
    extent = ⟨some start, some count⟩ ∧ (start + count) * blockSize < 2 ^ 63
  disjoint : (operations.flatMap InstallOperation.spans).Pairwise Span.Apart

/-- A manifest of a full update, and the partition that is asked for. -/
structure FullUpdate (manifest : DeltaArchiveManifest) (partitionName : Option String)
    (partition : PartitionUpdate) : Prop where
  full : manifest.getMinorVersion = 0
  selected : selectPartition manifest partitionName = .ok partition
  installable : Installable manifest.getBlockSize partition.operations

/-- The length of the magic of the stream that an operation carries. -/
def InstallOperation.magicLength (operation : InstallOperation) : Nat :=
  match operation.type with
  | .replaceBz => bzipMagic.length
  | .replaceXz => xzMagic.length
  | _ => 0

/-- A file with the given manifest.  Each replace operation has data, which fits
into its destination; a compressed stream goes on behind its magic. -/
structure Carries (codec : Codec) (update : UpdateFile) (manifest : DeltaArchiveManifest)
    (partition : PartitionUpdate) : Prop where
  decoded : codec.manifest update.manifest = some manifest
  described : update.manifest ≠ []
  signed : update.signature ≠ []
  signatureFits : update.signature.length < 2 ^ 32
  fileFits : update.bytes.length < 2 ^ 63
  data : ∀ operation ∈ partition.operations, operation.type ≠ .zero →
    ∃ data, attached codec update.blobs operation = some data ∧
      data.length ≤ capacity manifest.getBlockSize operation.spans
  streams : ∀ operation ∈ partition.operations, operation.magicLength ≠ 0 →
    operation.magicLength < operation.dataLength.getD 0

/-- Every file with this manifest is extracted, from a regular file and from a
pipe, and the image is the one that the operations call for. -/
def Faithful (manifest : DeltaArchiveManifest) (partition : PartitionUpdate)
    (partitionName outPath : Option String) : Prop :=
  ∀ codec update, Carries codec update manifest partition → ∀ seekable, ∃ image,
    extractBootFromPayload codec ⟨update.bytes, seekable, 0⟩ partitionName outPath =
        .ok (outName partition outPath, image) ∧
      ∀ operation ∈ partition.operations,
        Installed codec update.blobs manifest.getBlockSize image operation

/-! ## Operations that can be written as the source writes them -/

/-- The end of the data of an operation. -/
def InstallOperation.dataEnd (operation : InstallOperation) : Nat :=
  operation.sortKey + operation.dataLength.getD 0

/-- The data of the first operation lies before the data of the second. -/
def ReadsBefore (first second : InstallOperation) : Prop :=
  first.dataEnd ≤ second.sortKey

/-- The block at which the source starts to write. -/
def InstallOperation.firstBlock (operation : InstallOperation) : Nat :=
  (operation.spans.head?.map Span.start).getD 0

/-- The number of bytes that an operation may write. -/
def InstallOperation.amount (blockSize : Nat) (operation : InstallOperation) : Nat :=
  match operation.type with
  | .replace => operation.dataLength.getD 0
  | _ => capacity blockSize operation.spans

/-- No operation clears blocks, each has a destination whose extents follow one
another as far as it has data, and the data of the operations can be read in one
pass. -/
structure Writable (blockSize : Nat) (operations : List InstallOperation) : Prop where
  noZero : ∀ operation ∈ operations, operation.type ≠ .zero
  someExtent : ∀ operation ∈ operations, operation.dstExtents ≠ []
  oneRun : ∀ operation ∈ operations,
    InOneRun blockSize operation.firstBlock operation.spans (operation.amount blockSize)
  onePass : operations.Pairwise (Magisk.Sort.InSortedOrder SortsBefore ReadsBefore)

/-! ## Attached data -/

variable {operation : InstallOperation}

/-- An operation has data only if it names a range of the blobs. -/
theorem exists_range_of_attached (carries : attached codec blobs operation = some data) :
    operation.dataOffset = some operation.sortKey ∧
      operation.dataLength = some (operation.dataLength.getD 0) ∧
      operation.dataEnd ≤ blobs.length := by
  rw [attached] at carries
  split at carries
  · rename_i offset length hasOffset hasLength
    split at carries
    · rename_i inside
      rw [InstallOperation.dataEnd, InstallOperation.sortKey, hasOffset, hasLength]
      exact ⟨rfl, rfl, inside⟩
    · cases carries
  · cases carries

/-- What the range of an operation with data holds. -/
theorem attached_eq (hasOffset : operation.dataOffset = some operation.sortKey)
    (hasLength : operation.dataLength = some (operation.dataLength.getD 0))
    (inside : operation.dataEnd ≤ blobs.length) :
    attached codec blobs operation =
      match operation.type with
      | .replace => some (window blobs operation.sortKey (operation.dataLength.getD 0))
      | .replaceBz =>
        unpack codec .bzip2 bzipMagic (window blobs operation.sortKey (operation.dataLength.getD 0))
      | .replaceXz =>
        unpack codec .xz xzMagic (window blobs operation.sortKey (operation.dataLength.getD 0))
      | _ => none := by
  rw [attached, hasOffset, hasLength]
  exact if_pos inside

section

variable (carries : attached codec blobs operation = some data)
include carries

/-- The source recognises the format of a stream, so that it installs the data of
an operation. -/
theorem install_attached {outFile : List UInt8} {offset : Nat} (addressable : offset < 2 ^ 63) :
    install codec blockSize operation
        (window blobs operation.sortKey (operation.dataLength.getD 0)) offset outFile =
      .ok (writeAt outFile offset data) := by
  rcases exists_range_of_attached carries with ⟨hasOffset, hasLength, inside⟩
  rw [attached_eq hasOffset hasLength inside] at carries
  have unpacks : ∀ {format magic stream}, unpack codec format magic stream = some data →
      (magic <+: stream → Image.checkFmt stream stream.length = format) →
      format.isCompressed = true → decompress codec stream = .ok data := by
    intro format magic stream unpacked recognised compressed
    rw [unpack] at unpacked
    split at unpacked
    · rename_i found
      rw [decompress, recognised found, if_pos compressed, unpacked]
      rfl
    · cases unpacked
  rw [install]
  cases kind : operation.type with
  | replace =>
    rw [kind] at carries
    cases carries
    exact if_pos addressable
  | replaceBz =>
    rw [kind] at carries
    simp only [addressable, unpacks carries Image.checkFmt_of_bzipMagic rfl]
    exact if_pos addressable
  | replaceXz =>
    rw [kind] at carries
    simp only [addressable, unpacks carries Image.checkFmt_of_xzMagic rfl]
    exact if_pos addressable
  | _ =>
    rw [kind] at carries
    cases carries

/-- The blob of a `REPLACE` operation is its data. -/
theorem length_attached_of_replace (replaces : operation.type = .replace) :
    data.length = operation.dataLength.getD 0 := by
  rcases exists_range_of_attached carries with ⟨hasOffset, hasLength, inside⟩
  rw [attached_eq hasOffset hasLength inside, replaces] at carries
  cases carries
  exact length_window inside

/-- An operation carries no more data than it may write. -/
theorem length_attached_le (fits : data.length ≤ capacity blockSize operation.spans) :
    data.length ≤ operation.amount blockSize := by
  rw [InstallOperation.amount]
  cases kind : operation.type with
  | replace => exact (length_attached_of_replace carries kind).le
  | _ => exact fits

end

theorem installed_iff_of_ne_zero {image : List UInt8} (notZero : operation.type ≠ .zero) :
    Installed codec blobs blockSize image operation ↔
      ∀ data, attached codec blobs operation = some data →
        Laid blockSize operation.spans data image := by
  rw [Installed]
  split
  · rename_i zero
    exact absurd zero notZero
  · rfl

end Magisk.Boot.Payload
