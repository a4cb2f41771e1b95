import Magisk.Boot.Payload.Format

/-!
# The writes of an extraction

When the data of the operations can be read in one pass, the extraction makes
one write for each of them, in the order of their data.  On a pipe it comes to
its end in no other case.
-/

namespace Magisk.Boot.Payload

open Input List Magisk.Bytes Magisk.Extent

/-! ## The header -/

variable {left right file : List UInt8} {seekable : Bool} {position : Nat}

theorem Input.readExact_append {middle : List UInt8} {count : Nat}
    (layout : file = left ++ (middle ++ right)) (start : position = left.length)
    (size : count = middle.length) :
    readExact ⟨file, seekable, position⟩ count =
      .ok (middle, ⟨file, seekable, position + count⟩) := by
  subst layout start size
  rw [readExact_of_le (by simp only [length_append]; omega), window_append_middle]
  rfl

theorem Input.readBe_append {width value : Nat}
    (layout : file = left ++ (beBytes width value ++ right)) (start : position = left.length)
    (fits : value < 256 ^ width) :
    readBe ⟨file, seekable, position⟩ width = .ok (value, ⟨file, seekable, position + width⟩) := by
  rw [readBe, readExact_append layout start (length_beBytes width value).symm,
    Magisk.Result.ok_bind]
  dsimp only
  rw [ofBe_beBytes_of_lt fits]

section Header

variable {codec : Codec} {update : UpdateFile} {manifest : DeltaArchiveManifest}
  {partition : PartitionUpdate} {partitionName : Option String}

theorem UpdateFile.length_preamble (update : UpdateFile) : update.preamble.length = 24 := by
  rfl

theorem UpdateFile.length_header (update : UpdateFile) :
    update.header.length = 24 + update.manifest.length + update.signature.length := by
  rw [UpdateFile.header, length_append, update.length_preamble, length_append, Nat.add_assoc]

/-- The header of a full update is accepted, and the operations of the partition
are replayed from the first blob on. -/
theorem extractBootFromPayload_eq (full : FullUpdate manifest partitionName partition)
    (carries : Carries codec update manifest partition) (seekable : Bool)
    (outPath : Option String) :
    extractBootFromPayload codec ⟨update.bytes, seekable, 0⟩ partitionName outPath =
      ((partition.operations.insertionSort SortsBefore).foldlM (perform codec manifest.getBlockSize)
        (progressAt update.header update.blobs seekable 0 [])).map
        fun progress => (outName partition outPath, progress.outFile) := by
  have manifestLen : update.manifest.length ≠ 0 := by
    simpa using carries.described
  have signatureLen : update.signature.length ≠ 0 := by
    simpa using carries.signed
  have fits := carries.fileFits
  rw [UpdateFile.bytes, length_append, update.length_header] at fits
  have layout : update.bytes = payloadMagic ++ (beBytes 8 2 ++
      (beBytes 8 update.manifest.length ++ (beBytes 4 update.signature.length ++
        (update.manifest ++ (update.signature ++ update.blobs))))) := by
    simp only [UpdateFile.bytes, UpdateFile.header, UpdateFile.preamble, append_assoc]
  have behindVersion : update.bytes = (payloadMagic ++ beBytes 8 2) ++
      (beBytes 8 update.manifest.length ++ (beBytes 4 update.signature.length ++
        (update.manifest ++ (update.signature ++ update.blobs)))) := by
    rw [layout, append_assoc]
  have behindSize : update.bytes =
      (payloadMagic ++ (beBytes 8 2 ++ beBytes 8 update.manifest.length)) ++
        (beBytes 4 update.signature.length ++
          (update.manifest ++ (update.signature ++ update.blobs))) := by
    rw [layout, append_assoc, append_assoc]
  have behindPreamble : update.bytes =
      update.preamble ++ (update.manifest ++ (update.signature ++ update.blobs)) := by
    rw [UpdateFile.bytes, UpdateFile.header, append_assoc, append_assoc]
  have magic : readExact ⟨update.bytes, seekable, 0⟩ 4 =
      .ok (payloadMagic, ⟨update.bytes, seekable, 4⟩) :=
    readExact_append ((nil_append _).trans layout.symm).symm rfl rfl
  have version : readBe ⟨update.bytes, seekable, 4⟩ 8 = .ok (2, ⟨update.bytes, seekable, 12⟩) :=
    readBe_append layout rfl (by norm_num)
  have manifestSize : readBe ⟨update.bytes, seekable, 12⟩ 8 =
      .ok (update.manifest.length, ⟨update.bytes, seekable, 20⟩) :=
    readBe_append behindVersion (by rw [length_append]; rfl) (by omega)
  have signatureSize : readBe ⟨update.bytes, seekable, 20⟩ 4 =
      .ok (update.signature.length, ⟨update.bytes, seekable, 24⟩) :=
    readBe_append behindSize (by rw [length_append, length_append]; rfl) carries.signatureFits
  have manifestBytes : readExact ⟨update.bytes, seekable, 24⟩ update.manifest.length =
      .ok (update.manifest, ⟨update.bytes, seekable, 24 + update.manifest.length⟩) :=
    readExact_append behindPreamble update.length_preamble.symm rfl
  have skips : skip ⟨update.bytes, seekable, 24 + update.manifest.length⟩
      update.signature.length = .ok ⟨update.bytes, seekable, update.header.length⟩ := by
    rw [skip_of_le (by omega), advance, update.length_header]
    rw [UpdateFile.bytes, length_append, update.length_header]
    dsimp only
    omega
  simp only [extractBootFromPayload, magic, Magisk.Result.ok_bind,
    version, manifestSize, manifestLen, ne_eq, signatureSize, signatureLen,
    manifestBytes, carries.decoded, Option.elim_some, full.full, full.selected, skips]
  rw [progressAt, ← UpdateFile.bytes]
  cases (partition.operations.insertionSort SortsBefore).foldlM
      (perform codec manifest.getBlockSize) ⟨⟨update.bytes, seekable, update.header.length⟩, 0, []⟩ with
  | error failure => rfl
  | ok progress => rfl

end Header

/-! ## The operations -/

/-- What a full update and its file say about one operation. -/
structure Ready (codec : Codec) (blobs : List UInt8) (blockSize : Nat)
    (operation : InstallOperation) : Prop where
  noRange : operation.type = .zero → operation.dataLength = none
  data : operation.type ≠ .zero → ∃ data, attached codec blobs operation = some data ∧
    data.length ≤ capacity blockSize operation.spans
  extents : ∀ extent ∈ operation.dstExtents, ∃ start count,
    extent = ⟨some start, some count⟩ ∧ (start + count) * blockSize < 2 ^ 63

/-- The write that an operation comes down to. -/
def writeOf (codec : Codec) (blobs : List UInt8) (blockSize : Nat) (operation : InstallOperation) :
    Write :=
  ⟨operation.firstBlock * blockSize, (attached codec blobs operation).getD []⟩

section Replay

variable {codec : Codec} {header blobs outFile : List UInt8} {blockSize curr : Nat}
  {operation : InstallOperation} {operations : List InstallOperation}

theorem ready_of_carries {update : UpdateFile} {manifest : DeltaArchiveManifest}
    {partition : PartitionUpdate} (installable : Installable manifest.getBlockSize partition.operations)
    (carries : Carries codec update manifest partition) :
    ∀ operation ∈ partition.operations,
      Ready codec update.blobs manifest.getBlockSize operation := by
  intro operation mem
  exact ⟨fun zero => (installable.noRange operation mem zero).2, carries.data operation mem,
    installable.extents operation mem⟩

section

variable (ready : Ready codec blobs blockSize operation)
include ready

theorem Ready.notZero {length : Nat} (hasLength : operation.dataLength = some length) :
    operation.type ≠ .zero := by
  intro zero
  rw [ready.noRange zero] at hasLength
  cases hasLength

/-- The first extent of an operation starts at an offset of a file. -/
theorem Ready.exists_first (someExtent : operation.dstExtents ≠ []) :
    ∃ extent, operation.dstExtents.head? = some extent ∧
      extent.startBlock = some operation.firstBlock ∧ operation.firstBlock * blockSize < 2 ^ 63 := by
  cases extents : operation.dstExtents with
  | nil => exact absurd extents someExtent
  | cons extent rest =>
    have mem : extent ∈ operation.dstExtents := by
      rw [extents]
      exact mem_cons_self
    rcases ready.extents extent mem with ⟨start, count, rfl, below⟩
    have first : operation.firstBlock = start := by
      rw [InstallOperation.firstBlock, InstallOperation.spans, extents]
      rfl
    rw [Nat.add_mul] at below
    rw [first]
    exact ⟨_, rfl, rfl, by omega⟩

/-- An operation with data ahead of the reader makes its write. -/
theorem Ready.perform_eq (notZero : operation.type ≠ .zero) (someExtent : operation.dstExtents ≠ [])
    (ahead : curr ≤ operation.sortKey) (fits : (header ++ blobs).length < 2 ^ 63)
    (seekable : Bool) :
    perform codec blockSize (progressAt header blobs seekable curr outFile) operation =
      .ok (progressAt header blobs seekable operation.dataEnd
        (writeAt outFile (writeOf codec blobs blockSize operation).offset
          (writeOf codec blobs blockSize operation).data)) := by
  rcases ready.data notZero with ⟨data, carries, _⟩
  rcases exists_range_of_attached carries with ⟨hasOffset, hasLength, inside⟩
  rcases ready.exists_first someExtent with ⟨extent, hasExtent, hasStart, addressable⟩
  have noWrap : operation.firstBlock * blockSize % 2 ^ 64 = operation.firstBlock * blockSize :=
    Nat.mod_eq_of_lt (by omega)
  rw [perform_of_ahead hasOffset hasLength ahead inside fits hasExtent hasStart, noWrap,
    install_attached carries addressable, writeOf, carries]
  rfl

end

/-- Operations whose data can be read in one pass make their writes one after the
other. -/
theorem foldlM_perform_of_onePass (ready : ∀ operation ∈ operations,
      Ready codec blobs blockSize operation)
    (notZero : ∀ operation ∈ operations, operation.type ≠ .zero)
    (someExtent : ∀ operation ∈ operations, operation.dstExtents ≠ [])
    (ahead : ∀ operation ∈ operations, curr ≤ operation.sortKey)
    (onePass : operations.Pairwise ReadsBefore) (fits : (header ++ blobs).length < 2 ^ 63)
    (seekable : Bool) :
    ∃ last, operations.foldlM (perform codec blockSize)
        (progressAt header blobs seekable curr outFile) =
      .ok (progressAt header blobs seekable last
        (writeAll outFile (operations.map (writeOf codec blobs blockSize)))) := by
  induction operations generalizing curr outFile with
  | nil => exact ⟨curr, rfl⟩
  | cons operation rest ih =>
    rw [forall_mem_cons] at ready notZero someExtent ahead
    rw [pairwise_cons] at onePass
    rw [foldlM_cons, ready.1.perform_eq notZero.1 someExtent.1 ahead.1 fits, map_cons]
    exact ih ready.2 notZero.2 someExtent.2 onePass.1 onePass.2

/-- On a pipe the loop comes to its end only if the operations have data, which
can be read in one pass, and a destination. -/
theorem onePass_of_foldlM_perform {progress : Progress} (ready : ∀ operation ∈ operations,
      Ready codec blobs blockSize operation)
    (fits : (header ++ blobs).length < 2 ^ 63) (read : curr ≤ blobs.length)
    (performed : operations.foldlM (perform codec blockSize)
      (progressAt header blobs false curr outFile) = .ok progress) :
    (∀ operation ∈ operations, operation.type ≠ .zero ∧ operation.dstExtents ≠ [] ∧
      curr ≤ operation.sortKey) ∧ operations.Pairwise ReadsBefore := by
  induction operations generalizing curr outFile with
  | nil => exact ⟨fun operation mem => absurd mem not_mem_nil, List.Pairwise.nil⟩
  | cons operation rest ih =>
    rw [forall_mem_cons] at ready
    rcases Magisk.Result.bind_eq_ok_iff.mp performed with ⟨next, first, others⟩
    have inside : ∀ offset length, operation.dataOffset = some offset →
        operation.dataLength = some length → offset + length ≤ blobs.length := by
      intro offset length hasOffset hasLength
      rcases ready.1.data (ready.1.notZero hasLength) with ⟨data, carries, _⟩
      rcases exists_range_of_attached carries with ⟨_, _, inside⟩
      rw [InstallOperation.dataEnd, InstallOperation.sortKey, hasOffset, hasLength] at inside
      exact inside
    rcases ahead_of_perform_pipe first inside read fits with
      ⟨offset, length, extent, start, hasOffset, hasLength, ahead, hasExtent, hasStart⟩
    have notZero := ready.1.notZero hasLength
    have someExtent : operation.dstExtents ≠ [] := fun none => by
      rw [none] at hasExtent
      cases hasExtent
    have key : operation.sortKey = offset := by
      rw [InstallOperation.sortKey, hasOffset]
      rfl
    have finish : operation.dataEnd = offset + length := by
      rw [InstallOperation.dataEnd, key, hasLength]
      rfl
    rw [ready.1.perform_eq notZero someExtent (key ▸ ahead) fits] at first
    cases first
    rcases ih ready.2 (finish ▸ inside offset length hasOffset hasLength) others with
      ⟨facts, onePass⟩
    constructor
    · intro other mem
      rcases mem_cons.mp mem with rfl | mem
      · exact ⟨notZero, someExtent, key ▸ ahead⟩
      · rcases facts other mem with ⟨notZeroToo, someExtentToo, aheadToo⟩
        exact ⟨notZeroToo, someExtentToo, by omega⟩
    · exact pairwise_cons.mpr ⟨fun other mem => (facts other mem).2.2, onePass⟩

end Replay

end Magisk.Boot.Payload
