import Magisk.Boot.Payload.Replay

/-!
# Which updates are extracted as their format defines

The extraction writes the data of an operation in one run from the first block
of its destination.  That is what the format calls for exactly when the extents
follow one another as far as the data reaches.
-/

namespace Magisk.Boot.Payload

open List Magisk.Bytes Magisk.Extent

variable {update : UpdateFile}

/-! ## Writable updates -/

section Writable

variable {codec : Codec} {blobs : List UInt8} {blockSize : Nat} {data : List UInt8}

  {operation : InstallOperation} {operations : List InstallOperation}

/-- The destinations of two operations do not meet. -/
def DestinationsApart (first second : InstallOperation) : Prop :=
  ∀ span ∈ first.spans, ∀ another ∈ second.spans, span.Apart another

instance : Std.Symm DestinationsApart where
  symm _ _ apart another memOther span mem := Std.Symm.symm _ _ (apart span mem another memOther)

theorem Installable.apart (installable : Installable blockSize operations) :
    (∀ operation ∈ operations, operation.spans.Pairwise Span.Apart) ∧
      operations.Pairwise DestinationsApart :=
  pairwise_flatMap.mp installable.disjoint

/-- The write of an operation whose extents follow one another stays in its
destination. -/
theorem exists_index_of_covers
    (oneRun : InOneRun blockSize operation.firstBlock operation.spans (operation.amount blockSize))
    (carries : attached codec blobs operation = some data)
    (fits : data.length ≤ capacity blockSize operation.spans) {place : Nat}
    (covers : (writeOf codec blobs blockSize operation).Covers place) :
    ∃ index, index < data.length ∧ position blockSize operation.spans index = some place := by
  rw [writeOf, carries] at covers
  rcases covers with ⟨above, below⟩
  simp only [Option.getD_some] at above below
  have inRange : place - operation.firstBlock * blockSize < capacity blockSize operation.spans := by
    omega
  rcases exists_position inRange with ⟨found, foundAt⟩
  have within := length_attached_le carries fits
  have placed := inOneRun_iff.mp oneRun _ found (by omega) foundAt
  exact ⟨place - operation.firstBlock * blockSize, by omega,
    foundAt.trans (congrArg some (by omega))⟩

/-- The writes of operations with one run each do not meet. -/
theorem pairwise_apart_writeOf
    (ready : ∀ operation ∈ operations, Ready codec blobs blockSize operation)
    (notZero : ∀ operation ∈ operations, operation.type ≠ .zero)
    (oneRun : ∀ operation ∈ operations,
      InOneRun blockSize operation.firstBlock operation.spans (operation.amount blockSize))
    (apart : operations.Pairwise DestinationsApart) :
    (operations.map (writeOf codec blobs blockSize)).Pairwise Write.Apart := by
  rw [pairwise_map]
  refine apart.imp_of_mem ?_
  rintro first second mem memOther destinations place ⟨covers, coversToo⟩
  rcases (ready first mem).data (notZero first mem) with ⟨data, carries, fits⟩
  rcases (ready second memOther).data (notZero second memOther) with ⟨dataToo, carriesToo, fitsToo⟩
  rcases exists_index_of_covers (oneRun first mem) carries fits covers with ⟨index, _, found⟩
  rcases exists_index_of_covers (oneRun second memOther) carriesToo fitsToo coversToo with
    ⟨other, _, foundToo⟩
  exact position_ne_of_apart destinations found foundToo

/-- Operations with one run each, applied in any order, lay their data over their
destinations. -/
theorem laid_writeAll (ready : ∀ operation ∈ operations, Ready codec blobs blockSize operation)
    (notZero : ∀ operation ∈ operations, operation.type ≠ .zero) (oneRun : ∀ operation ∈ operations,
      InOneRun blockSize operation.firstBlock operation.spans (operation.amount blockSize))
    (spansApart : ∀ operation ∈ operations, operation.spans.Pairwise Span.Apart)
    (apart : operations.Pairwise DestinationsApart) (mem : operation ∈ operations)
    (carries : attached codec blobs operation = some data) :
    Laid blockSize operation.spans data
      (writeAll [] (operations.map (writeOf codec blobs blockSize))) := by
  rcases (ready operation mem).data (notZero operation mem) with ⟨dataToo, carriesToo, fits⟩
  cases carries.symm.trans carriesToo
  intro index place found
  have memWrite := mem_map_of_mem (f := writeOf codec blobs blockSize) mem
  by_cases received : index < data.length
  · have within := length_attached_le carries fits
    have placed := inOneRun_iff.mp (oneRun operation mem) index place (by omega) found
    have covers : (writeOf codec blobs blockSize operation).Covers place := by
      rw [writeOf, carries]
      exact ⟨by dsimp only; omega, by simp only [Option.getD_some]; omega⟩
    constructor
    · rw [getD_writeAll_of_covers (pairwise_apart_writeOf ready notZero oneRun apart) memWrite
        covers, writeOf, carries]
      simp only [Option.getD_some]
      congr 1
      omega
    · intro _
      exact lt_length_writeAll (Or.inr ⟨_, memWrite, covers⟩)
  · refine ⟨?_, fun inside => absurd inside received⟩
    have uncovered : ∀ write ∈ operations.map (writeOf codec blobs blockSize),
        ¬ write.Covers place := by
      intro write memWriteToo covers
      rcases mem_map.mp memWriteToo with ⟨other, memOther, rfl⟩
      rcases (ready other memOther).data (notZero other memOther) with
        ⟨otherData, otherCarries, otherFits⟩
      rcases exists_index_of_covers (oneRun other memOther) otherCarries otherFits covers with
        ⟨otherIndex, inside, foundToo⟩
      by_cases same : operation = other
      · subst same
        cases carries.symm.trans otherCarries
        have equal := position_injective (spansApart operation mem) found foundToo
        omega
      · exact position_ne_of_apart (apart.forall mem memOther same) found foundToo
    rw [getD_writeAll_of_uncovered uncovered, getD_nil, getD_eq_default _ _ (by omega)]

end Writable

section Faithful

variable {manifest : DeltaArchiveManifest} {partition : PartitionUpdate}
  {partitionName outPath : Option String}

section

variable (full : FullUpdate manifest partitionName partition)
include full

/-- The image of a file whose data can be read in one pass. -/
theorem extractBootFromPayload_of_onePass {codec : Codec}
    (carries : Carries codec update manifest partition)
    (notZero : ∀ operation ∈ partition.operations, operation.type ≠ .zero)
    (someExtent : ∀ operation ∈ partition.operations, operation.dstExtents ≠ [])
    (onePass : partition.operations.Pairwise (Magisk.Sort.InSortedOrder SortsBefore ReadsBefore))
    (seekable : Bool) :
    extractBootFromPayload codec ⟨update.bytes, seekable, 0⟩ partitionName outPath =
      .ok (outName partition outPath, writeAll []
        ((partition.operations.insertionSort SortsBefore).map
          (writeOf codec update.blobs manifest.getBlockSize))) := by
  have ready := ready_of_carries full.installable carries
  have sortedMem : ∀ operation, operation ∈ partition.operations.insertionSort SortsBefore →
      operation ∈ partition.operations := fun operation => mem_insertionSort _ |>.mp
  rw [extractBootFromPayload_eq full carries]
  rcases foldlM_perform_of_onePass (fun operation mem => ready operation (sortedMem operation mem))
      (fun operation mem => notZero operation (sortedMem operation mem))
      (fun operation mem => someExtent operation (sortedMem operation mem))
      (fun operation _ => Nat.zero_le operation.sortKey)
      ((Magisk.Sort.pairwise_insertionSort_iff _).mpr onePass) carries.fileFits seekable with
    ⟨last, performed⟩
  rw [performed]
  rfl

theorem faithful_of_writable (writable : Writable manifest.getBlockSize partition.operations) :
    Faithful manifest partition partitionName outPath := by
  intro codec update carries seekable
  have ready := ready_of_carries full.installable carries
  have sorted := perm_insertionSort SortsBefore partition.operations
  have apart := full.installable.apart
  refine ⟨_, extractBootFromPayload_of_onePass full carries writable.noZero writable.someExtent
    writable.onePass seekable, fun operation mem => ?_⟩
  have laid : ∀ data, attached codec update.blobs operation = some data →
      Laid manifest.getBlockSize operation.spans data (writeAll []
        ((partition.operations.insertionSort SortsBefore).map
          (writeOf codec update.blobs manifest.getBlockSize))) := by
    intro data carried
    exact laid_writeAll (fun other memOther => ready other (sorted.mem_iff.mp memOther))
      (fun other memOther => writable.noZero other (sorted.mem_iff.mp memOther))
      (fun other memOther => writable.oneRun other (sorted.mem_iff.mp memOther))
      (fun other memOther => apart.1 other (sorted.mem_iff.mp memOther))
      ((sorted.pairwise_iff fun {_ _} => Std.Symm.symm _ _).mpr apart.2) (sorted.mem_iff.mpr mem) carried
  exact (installed_iff_of_ne_zero (writable.noZero operation mem)).mpr laid

/-- A file that is extracted from a pipe has operations that are read in one
pass. -/
theorem onePass_of_faithful {codec : Codec} (carries : Carries codec update manifest partition)
    (faithful : Faithful manifest partition partitionName outPath) :
    (∀ operation ∈ partition.operations, operation.type ≠ .zero ∧ operation.dstExtents ≠ []) ∧
      partition.operations.Pairwise (Magisk.Sort.InSortedOrder SortsBefore ReadsBefore) := by
  have ready := ready_of_carries full.installable carries
  have sorted := perm_insertionSort SortsBefore partition.operations
  rcases faithful codec update carries false with ⟨image, extracted, _⟩
  rw [extractBootFromPayload_eq full carries] at extracted
  cases performed : (partition.operations.insertionSort SortsBefore).foldlM
      (perform codec manifest.getBlockSize)
      (progressAt update.header update.blobs false 0 []) with
  | error failure =>
    rw [performed] at extracted
    cases extracted
  | ok progress =>
    rcases onePass_of_foldlM_perform
        (fun operation mem => ready operation (sorted.mem_iff.mp mem)) carries.fileFits
        (Nat.zero_le _) performed with ⟨facts, onePass⟩
    constructor
    · intro operation mem
      rcases facts operation (sorted.mem_iff.mpr mem) with ⟨notZero, someExtent, _⟩
      exact ⟨notZero, someExtent⟩
    · exact (Magisk.Sort.pairwise_insertionSort_iff _).mp onePass

end

end Faithful

/-! ## A file that marks one byte -/

section Marked

variable {target : InstallOperation} {index length other : Nat} {magic : List UInt8} {byte : UInt8}

/-- Zeros with a one at `index`. -/
def mark (index length : Nat) : List UInt8 :=
  zeros index ++ 1 :: zeros (length - index - 1)

theorem length_mark (inside : index < length) : (mark index length).length = length := by
  rw [mark, length_append, length_cons, length_zeros, length_zeros]
  omega

theorem getD_mark (index length : Nat) : (mark index length).getD index 0 = 1 := by
  rw [mark, getD_append_right _ _ _ _ (length_zeros index).le, length_zeros, Nat.sub_self,
    getD_cons_zero]

theorem eq_of_getD_mark_ne_zero (marked : (mark index length).getD other 0 ≠ 0) :
    other = index := by
  by_contra different
  apply marked
  by_cases before : other < index
  · rw [mark, getD_append _ _ _ _ (by rwa [length_zeros]), getD_zeros]
  · rw [mark, getD_append_right _ _ _ _ (by rw [length_zeros]; omega), length_zeros]
    cases behind : other - index with
    | zero => omega
    | succ count => rw [getD_cons_succ, getD_zeros]

/-- A compressed stream: magic, and nothing but one byte behind it. -/
def streamWith (magic : List UInt8) (byte : UInt8) (length : Nat) : List UInt8 :=
  magic ++ replicate (length - magic.length) byte

/-- The blob of an operation; the one of `target` is told apart by its last byte
if it is compressed, and holds the mark if it is not. -/
def markedBlob (target : InstallOperation) (index : Nat) (operation : InstallOperation) :
    List UInt8 :=
  let length := operation.dataLength.getD 0
  let byte := if operation = target then 1 else 0
  match operation.type with
  | .replaceBz => streamWith Image.bzipMagic byte length
  | .replaceXz => streamWith Image.xzMagic byte length
  | _ => if operation = target then mark index length else zeros length

/-- A decoder that finds the mark in the stream of `target` and nothing in the
other ones. -/
def markedCodec (manifest : DeltaArchiveManifest) (index : Nat) : Codec where
  manifest _ := some manifest
  decode _ stream := some (if stream.getLast? = some 1 then mark index (index + 1) else [])

/-- The data that an operation then installs. -/
def markedData (target : InstallOperation) (index : Nat) (operation : InstallOperation) :
    List UInt8 :=
  match operation.type with
  | .replace =>
    if operation = target then mark index (operation.dataLength.getD 0)
    else zeros (operation.dataLength.getD 0)
  | _ => if operation = target then mark index (index + 1) else []

/-- The blobs of the operations, in a file of the given size. -/
def markedBlobs (target : InstallOperation) (index : Nat) (operations : List InstallOperation)
    (size : Nat) : List UInt8 :=
  writeAll (zeros size)
    (operations.map fun operation => ⟨operation.sortKey, markedBlob target index operation⟩)

theorem length_streamWith (goesOn : magic.length < length) :
    (streamWith magic byte length).length = length := by
  rw [streamWith, length_append, length_replicate]
  omega

theorem getLast?_streamWith (goesOn : magic.length < length) :
    (streamWith magic byte length).getLast? = some byte := by
  rw [streamWith, getLast?_append, getLast?_replicate, if_neg (by omega)]
  rfl

/-- Only the target installs a byte that is not zero, and only at `index`. -/
theorem eq_of_getD_markedData_ne_zero {operation : InstallOperation}
    (marked : (markedData target index operation).getD other 0 ≠ 0) :
    operation = target ∧ other = index := by
  rw [markedData] at marked
  split at marked
  · split at marked
    · rename_i same
      exact ⟨same, eq_of_getD_mark_ne_zero marked⟩
    · exact absurd (getD_zeros _ _) marked
  · split at marked
    · rename_i same
      exact ⟨same, eq_of_getD_mark_ne_zero marked⟩
    · exact absurd getD_nil marked

theorem getD_markedData (target : InstallOperation) (index : Nat) :
    (markedData target index target).getD index 0 = 1 := by
  rw [markedData]
  split
  · rw [if_pos rfl, getD_mark]
  · rw [if_pos rfl, getD_mark]

variable {operation : InstallOperation}

theorem length_markedData_le {blockSize : Nat} (plain : operation.type = .replace →
      operation.dataLength.getD 0 ≤ capacity blockSize operation.spans)
    (inside : operation = target → index < operation.amount blockSize) :
    (markedData target index operation).length ≤ capacity blockSize operation.spans := by
  rw [InstallOperation.amount] at inside
  rw [markedData]
  cases kind : operation.type with
  | replace =>
    simp only [kind] at inside ⊢
    split
    · rename_i same
      rw [length_mark (inside same)]
      exact plain kind
    · rw [length_zeros]
      exact plain kind
  | _ =>
    simp only [kind] at inside ⊢
    split
    · rename_i same
      rw [length_mark (Nat.lt_succ_self index)]
      exact inside same
    · exact Nat.zero_le _

theorem length_markedBlob (inside : operation = target → operation.type = .replace →
      index < operation.dataLength.getD 0)
    (kind : operation.type ∈ [.replace, .replaceBz, .replaceXz])
    (goesOn : operation.magicLength ≠ 0 → operation.magicLength < operation.dataLength.getD 0) :
    (markedBlob target index operation).length = operation.dataLength.getD 0 := by
  simp only [mem_cons, not_mem_nil, or_false] at kind
  rw [InstallOperation.magicLength] at goesOn
  rw [markedBlob]
  rcases kind with kind | kind | kind
  · simp only [kind]
    split
    · rename_i same
      exact length_mark (inside same kind)
    · exact length_zeros _
  · simp only [kind] at goesOn ⊢
    exact length_streamWith (goesOn (by decide))
  · simp only [kind] at goesOn ⊢
    exact length_streamWith (goesOn (by decide))

theorem unpack_streamWith (manifest : DeltaArchiveManifest) (format : Image.FileFormat)
    (goesOn : magic.length < length) :
    unpack (markedCodec manifest index) format magic
        (streamWith magic (if operation = target then 1 else 0) length) =
      some (if operation = target then mark index (index + 1) else []) := by
  have found : magic <+: streamWith magic (if operation = target then 1 else 0) length :=
    prefix_append _ _
  rw [unpack, if_pos found, markedCodec]
  simp only [getLast?_streamWith goesOn]
  by_cases same : operation = target
  · rw [if_pos same, if_pos same, if_pos rfl]
  · rw [if_neg same, if_neg same, if_neg (by decide)]

variable {operations : List InstallOperation} {size : Nat}

/-- Operations that are read in one pass and whose ranges lie in a file of the
given size. -/
structure Markable (target : InstallOperation) (index : Nat) (operations : List InstallOperation)
    (size : Nat) : Prop where
  onePass : operations.Pairwise (Magisk.Sort.InSortedOrder SortsBefore ReadsBefore)
  kinds : ∀ operation ∈ operations, operation.type ∈ [.replace, .replaceBz, .replaceXz]
  streams : ∀ operation ∈ operations, operation.magicLength ≠ 0 →
    operation.magicLength < operation.dataLength.getD 0
  ranges : ∀ operation ∈ operations, operation.dataOffset = some operation.sortKey ∧
    operation.dataLength = some (operation.dataLength.getD 0) ∧ operation.dataEnd ≤ size
  inside : target.type = .replace → index < target.dataLength.getD 0

section

variable (markable : Markable target index operations size)

include markable

theorem Markable.length_blob (mem : operation ∈ operations) :
    (markedBlob target index operation).length = operation.dataLength.getD 0 := by
  refine length_markedBlob ?_ (markable.kinds operation mem) (markable.streams operation mem)
  rintro rfl replaces
  exact markable.inside replaces

theorem Markable.length_blobs : (markedBlobs target index operations size).length = size := by
  rw [markedBlobs, length_writeAll_of_inside, length_zeros]
  intro write mem
  rcases mem_map.mp mem with ⟨operation, memOperation, rfl⟩
  rw [markable.length_blob memOperation, length_zeros]
  exact (markable.ranges operation memOperation).2.2

theorem Markable.window_blobs (mem : operation ∈ operations) :
    window (markedBlobs target index operations size) operation.sortKey
      (operation.dataLength.getD 0) = markedBlob target index operation := by
  have apart : (operations.map fun operation =>
      (⟨operation.sortKey, markedBlob target index operation⟩ : Write)).Pairwise Write.Apart := by
    rw [pairwise_map]
    refine markable.onePass.imp_of_mem ?_
    rintro first second memFirst memSecond ordered place ⟨⟨above, below⟩, aboveToo, belowToo⟩
    rw [markable.length_blob memFirst] at below
    rw [markable.length_blob memSecond] at belowToo
    dsimp only at above below aboveToo belowToo
    rw [Magisk.Sort.InSortedOrder] at ordered
    split at ordered
    · rw [ReadsBefore, InstallOperation.dataEnd] at ordered
      omega
    · rw [ReadsBefore, InstallOperation.dataEnd] at ordered
      omega
  have readBack : window (markedBlobs target index operations size) operation.sortKey
      (markedBlob target index operation).length = markedBlob target index operation :=
    window_writeAll apart (mem_map_of_mem mem)
  rwa [markable.length_blob mem] at readBack

/-- What the operations install from the marked file. -/
theorem Markable.attached_blobs (manifest : DeltaArchiveManifest) (mem : operation ∈ operations) :
    attached (markedCodec manifest index) (markedBlobs target index operations size) operation =
      some (markedData target index operation) := by
  rcases markable.ranges operation mem with ⟨hasOffset, hasLength, inside⟩
  have kind := markable.kinds operation mem
  have goesOn := markable.streams operation mem
  rw [InstallOperation.magicLength] at goesOn
  rw [attached_eq hasOffset hasLength (by rw [markable.length_blobs]; exact inside),
    markable.window_blobs mem, markedBlob, markedData]
  simp only [mem_cons, not_mem_nil, or_false] at kind
  rcases kind with kind | kind | kind
  · simp only [kind]
  · simp only [kind] at goesOn ⊢
    exact unpack_streamWith manifest .bzip2 (goesOn (by decide))
  · simp only [kind] at goesOn ⊢
    exact unpack_streamWith manifest .xz (goesOn (by decide))

end

end Marked

/-! ## The exact condition -/

section Exact

variable {manifest : DeltaArchiveManifest} {partition : PartitionUpdate}
  {partitionName outPath : Option String}

/-- A byte that is not written where the format wants it is missed in the marked
file. -/
theorem oneRun_of_faithful {codec : Codec} (full : FullUpdate manifest partitionName partition)
    (carries : Carries codec update manifest partition)
    (faithful : Faithful manifest partition partitionName outPath) {target : InstallOperation}
    (memTarget : target ∈ partition.operations) :
    InOneRun manifest.getBlockSize target.firstBlock target.spans
      (target.amount manifest.getBlockSize) := by
  rw [inOneRun_iff]
  intro index place received found
  rcases onePass_of_faithful full carries faithful with ⟨facts, onePass⟩
  have ready := ready_of_carries full.installable carries
  have markable : Markable target index partition.operations update.blobs.length := by
    refine ⟨onePass, ?_, carries.streams, ?_, ?_⟩
    · intro operation mem
      have kind := full.installable.kinds operation mem
      have notZero := (facts operation mem).1
      simp only [mem_cons] at kind ⊢
      tauto
    · intro operation mem
      rcases (ready operation mem).data (facts operation mem).1 with ⟨data, carried, _⟩
      exact exists_range_of_attached carried
    · intro replaces
      rw [InstallOperation.amount, replaces] at received
      exact received
  have marked : Carries (markedCodec manifest index)
      { update with blobs := markedBlobs target index partition.operations update.blobs.length }
      manifest partition := by
    refine ⟨rfl, carries.described, carries.signed, carries.signatureFits, ?_, ?_, carries.streams⟩
    · have fits := carries.fileFits
      rw [UpdateFile.bytes, length_append] at fits ⊢
      rw [markable.length_blobs]
      exact fits
    · intro operation mem notZero
      rcases (ready operation mem).data notZero with ⟨data, carried, fits⟩
      refine ⟨_, markable.attached_blobs manifest mem,
        length_markedData_le ?_ (fun same => same ▸ received)⟩
      intro replaces
      rw [← length_attached_of_replace carried replaces]
      exact fits
  rcases faithful _ _ marked false with ⟨image, extracted, installed⟩
  rw [extractBootFromPayload_of_onePass full marked (fun operation mem => (facts operation mem).1)
    (fun operation mem => (facts operation mem).2) onePass] at extracted
  cases extracted
  have laid := (installed_iff_of_ne_zero (facts target memTarget).1).mp
    (installed target memTarget) _ (markable.attached_blobs manifest memTarget)
  have one := (laid index place found).1
  rw [getD_markedData] at one
  rcases getD_writeAll_cases _ _ place with ⟨write, memWrite, ⟨above, _⟩, holds⟩ | ⟨_, holds⟩
  · rcases mem_map.mp memWrite with ⟨operation, memSorted, rfl⟩
    have mem := (perm_insertionSort SortsBefore partition.operations).mem_iff.mp memSorted
    rw [one] at holds
    simp only [writeOf, markable.attached_blobs manifest mem, Option.getD_some] at holds above
    have nonzero : (markedData target index operation).getD
        (place - operation.firstBlock * manifest.getBlockSize) 0 ≠ 0 := by
      rw [← holds]
      decide
    rcases eq_of_getD_markedData_ne_zero nonzero with ⟨rfl, same⟩
    omega
  · rw [one, getD_nil] at holds
    exact absurd holds (by decide)

/-- Every file with the manifest of a full update is extracted as the format
defines exactly when no operation clears blocks, the extents of each operation
follow one another as far as it has data, and the data can be read in one
pass. -/
theorem faithful_iff_writable (full : FullUpdate manifest partitionName partition)
    (shipped : ∃ codec update, Carries codec update manifest partition) :
    Faithful manifest partition partitionName outPath ↔
      Writable manifest.getBlockSize partition.operations := by
  constructor
  · intro faithful
    rcases shipped with ⟨codec, update, carries⟩
    rcases onePass_of_faithful full carries faithful with ⟨facts, onePass⟩
    exact ⟨fun operation mem => (facts operation mem).1,
      fun operation mem => (facts operation mem).2,
      fun operation mem => oneRun_of_faithful full carries faithful mem, onePass⟩
  · exact faithful_of_writable full

end Exact

/-! ## Small updates -/

/-- A manifest with blocks of two bytes for the `boot` partition. -/
def smallManifest (operations : List InstallOperation) : DeltaArchiveManifest :=
  ⟨some 2, none, [⟨"boot", operations⟩]⟩

/-- A file with four bytes of data, and a codec that knows its manifest. -/
def smallFile : UpdateFile :=
  ⟨[0], [0], [1, 2, 3, 4]⟩

def smallCodec (operations : List InstallOperation) : Codec :=
  ⟨fun _ => some (smallManifest operations), fun _ _ => none⟩

/-- Four bytes for two extents, the second of which starts at block `second`. -/
def replaceTwo (second : Nat) : List InstallOperation :=
  [⟨.replace, some 0, some 4, [⟨some 0, some 1⟩, ⟨some second, some 1⟩]⟩]

/-- One block to clear. -/
def clearOne : List InstallOperation :=
  [⟨.zero, none, none, [⟨some 0, some 1⟩]⟩]

theorem fullUpdate_replaceTwo {second : Nat} (behind : 0 < second) (small : second < 2 ^ 61) :
    FullUpdate (smallManifest (replaceTwo second)) none ⟨"boot", replaceTwo second⟩ := by
  refine ⟨rfl, rfl, ?_, ?_, ?_, ?_⟩
  · simp [replaceTwo]
  · simp [replaceTwo]
  · intro operation mem extent memExtent
    rw [mem_singleton.mp mem] at memExtent
    simp only [mem_cons, not_mem_nil, or_false] at memExtent
    rcases memExtent with rfl | rfl
    · exact ⟨0, 1, rfl, by change (0 + 1) * 2 < 2 ^ 63; decide⟩
    · exact ⟨second, 1, rfl, by change (second + 1) * 2 < 2 ^ 63; omega⟩
  · refine pairwise_pair.mpr ?_
    rintro unit ⟨⟨_, below⟩, above, _⟩
    dsimp only [Option.getD_some] at below above
    omega

theorem carries_replaceTwo (second : Nat) :
    Carries (smallCodec (replaceTwo second)) smallFile (smallManifest (replaceTwo second))
      ⟨"boot", replaceTwo second⟩ := by
  refine ⟨rfl, by decide, by decide, by decide, by decide, ?_, ?_⟩
  · intro operation mem _
    rw [mem_singleton.mp mem]
    exact ⟨[1, 2, 3, 4], rfl, by simp [InstallOperation.spans, capacity, smallManifest,
      DeltaArchiveManifest.getBlockSize]⟩
  · intro operation mem compressed
    rw [mem_singleton.mp mem] at compressed
    exact absurd rfl compressed

/-- With extents that follow one another the data is where it belongs. -/
theorem faithful_replaceTwo :
    Faithful (smallManifest (replaceTwo 1)) ⟨"boot", replaceTwo 1⟩ none none := by
  refine (faithful_iff_writable (fullUpdate_replaceTwo (by decide) (by decide))
    ⟨_, _, carries_replaceTwo 1⟩).mpr ⟨?_, ?_, ?_, ?_⟩
  · simp [replaceTwo]
  · simp [replaceTwo]
  · intro operation mem
    rw [mem_singleton.mp mem]
    decide
  · exact pairwise_singleton _ _

/-- Data for blocks 0 and 2 goes to blocks 0 and 1, and an operation that clears a
block is refused. -/
theorem not_faithful_scattered_cleared :
    FullUpdate (smallManifest (replaceTwo 2)) none ⟨"boot", replaceTwo 2⟩ ∧
      ¬ Faithful (smallManifest (replaceTwo 2)) ⟨"boot", replaceTwo 2⟩ none none ∧
      FullUpdate (smallManifest clearOne) none ⟨"boot", clearOne⟩ ∧
      ¬ Faithful (smallManifest clearOne) ⟨"boot", clearOne⟩ none none := by
  refine ⟨fullUpdate_replaceTwo (by decide) (by decide), ?_, ?_, ?_⟩
  · intro faithful
    rcases faithful _ _ (carries_replaceTwo 2) true with ⟨image, extracted, installed⟩
    have written : extractBootFromPayload (smallCodec (replaceTwo 2)) ⟨smallFile.bytes, true, 0⟩
        none none = .ok ("boot.img", [1, 2, 3, 4]) := by
      decide +kernel
    rw [written] at extracted
    cases extracted
    have laid := installed _ mem_cons_self [1, 2, 3, 4] rfl 2 4 rfl
    exact absurd laid.1 (by decide)
  · refine ⟨rfl, rfl, ?_, ?_, ?_, ?_⟩
    · simp [clearOne]
    · simp [clearOne]
    · simp [clearOne, smallManifest, DeltaArchiveManifest.getBlockSize]
    · exact pairwise_singleton _ _
  · intro faithful
    have carries : Carries (smallCodec clearOne) smallFile (smallManifest clearOne)
        ⟨"boot", clearOne⟩ := by
      refine ⟨rfl, by decide, by decide, by decide, by decide, ?_, ?_⟩
      · simp [clearOne]
      · simp [clearOne, InstallOperation.magicLength]
    rcases faithful _ _ carries true with ⟨image, extracted, _⟩
    have refused : extractBootFromPayload (smallCodec clearOne) ⟨smallFile.bytes, true, 0⟩
        none none = .error (.badPayload "data length not found") := by
      decide +kernel
    cases extracted

end Magisk.Boot.Payload
