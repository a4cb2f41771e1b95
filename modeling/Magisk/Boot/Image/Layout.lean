import Magisk.Boot.Image.Accepted
import Magisk.Boot.Image.Repack

/-!
# The layout `repack` writes

While blocks are appended, the output is the header space followed by the
blocks written so far, each on a page boundary, and the new header holds their
sizes.  `Laid` is that invariant; the lemma about each step of `repack` says
which piece it adds.  A component without a file adds an empty piece, which
changes nothing in the output.

The MTK header in front of a kernel or ramdisk is part of the block but is not
counted in the new header before the patches, so that a piece keeps it apart
from its contents.
-/

namespace Magisk.Boot.Image

open Bytes List TableEntry Result

variable {block : Block} {hdr : ImgHdr} {file : Option (List UInt8)} {contents : List UInt8}

/-! ## The invariant -/

/-- A block as it is written: an MTK header copied from the source, and the
contents that the new header counts. -/
structure Piece where
  block : Block
  mtkHdr : List UInt8
  contents : List UInt8

/-- All bytes of a block. -/
def Piece.bytes (piece : Piece) : List UInt8 :=
  piece.mtkHdr ++ piece.contents

/-- The size of a block in the header `repack` starts from. -/
def resetSize (raw : ImgHdr) : Block → Nat
  | .kernel | .ramdisk | .second | .dtb | .bootconfig => 0
  | block => raw.size block

/-- The output holds the given pieces behind `head`, and the new header counts
their contents.  `starts` are the noted positions of kernel and ramdisk. -/
structure Laid (head : List UInt8) (raw : ImgHdr) (starts : Nat × Nat) (pieces : List Piece)
    (writer : Writer) : Prop where
  out : writer.out = head ++ pack raw.pageSize (pieces.map Piece.bytes)
  header : writer.off.header = 0
  starts : (writer.off.kernel, writer.off.ramdisk) = starts
  edits : ImgHdr.Edits raw writer.hdr
  written : ∀ piece ∈ pieces, writer.hdr.size piece.block = piece.contents.length % 2 ^ 32
  pending : ∀ block ∉ pieces.map Piece.block, writer.hdr.size block = resetSize raw block

namespace Laid

variable {head : List UInt8} {raw : ImgHdr} {starts : Nat × Nat} {pieces : List Piece}
  {writer : Writer}

section

variable (laid : Laid head raw starts pieces writer)

include laid

theorem dvd_length_out (positive : 0 < raw.pageSize) (aligned : raw.pageSize ∣ head.length) :
    raw.pageSize ∣ writer.out.length := by
  rw [laid.out, length_append]
  exact Nat.dvd_add aligned (dvd_length_pack positive _)

/-- Sizes of the pieces and of the blocks to come, when one piece is added. -/
theorem sizes_extend (piece : Piece) (fresh : piece.block ∉ pieces.map Piece.block)
    (sized : hdr.size piece.block = piece.contents.length % 2 ^ 32)
    (others : ∀ block, block ≠ piece.block → hdr.size block = writer.hdr.size block) :
    (∀ other ∈ pieces ++ [piece], hdr.size other.block = other.contents.length % 2 ^ 32) ∧
      ∀ block ∉ (pieces ++ [piece]).map Piece.block, hdr.size block = resetSize raw block := by
  constructor
  · intro other mem
    rcases mem_append.mp mem with before | last
    · have apart : other.block ≠ piece.block := fun same =>
        fresh (same ▸ mem_map_of_mem before)
      rw [others _ apart]
      exact laid.written other before
    · rw [mem_singleton.mp last]
      exact sized
  · intro block absent
    rw [map_append, mem_append, not_or] at absent
    have apart : block ≠ piece.block := fun same => absent.2 (by simp [same])
    rw [others _ apart]
    exact laid.pending block absent.1

/-- Appending a block and filling up to the page size adds a piece. -/
theorem append_align (positive : 0 < raw.pageSize) (aligned : raw.pageSize ∣ head.length)
    (piece : Piece) (fresh : piece.block ∉ pieces.map Piece.block) (off : Offsets)
    (header : off.header = 0) (edits : ImgHdr.Edits writer.hdr hdr)
    (sized : hdr.size piece.block = piece.contents.length % 2 ^ 32)
    (others : ∀ block, block ≠ piece.block → hdr.size block = writer.hdr.size block) :
    Laid head raw (off.kernel, off.ramdisk) (pieces ++ [piece])
      ((({ out := writer.out, hdr := hdr, off := off } : Writer).append piece.bytes).alignWith
        raw.pageSize) := by
  obtain ⟨written, pending⟩ := laid.sizes_extend piece fresh sized others
  have filled : writer.out ++ piece.bytes ++
      zeros (padding raw.pageSize ((writer.out ++ piece.bytes).length - off.header)) =
        head ++ pack raw.pageSize ((pieces ++ [piece]).map Piece.bytes) := by
    rw [header, Nat.sub_zero,
      append_zeros_padding positive (laid.dvd_length_out positive aligned), laid.out,
      map_append, pack_append, append_assoc]
    congr 1
    congr 1
    exact (append_nil _).symm
  exact
    { out := filled
      header := header
      starts := rfl
      edits := laid.edits.trans edits
      written := written
      pending := pending }

/-- A block without contents adds an empty piece. -/
theorem skip (positive : 0 < raw.pageSize) (fresh : block ∉ pieces.map Piece.block)
    (empty : resetSize raw block = 0) :
    Laid head raw starts (pieces ++ [⟨block, [], []⟩]) writer := by
  have sized : writer.hdr.size block = 0 % 2 ^ 32 := (laid.pending block fresh).trans empty
  obtain ⟨written, pending⟩ := laid.sizes_extend ⟨block, [], []⟩ fresh sized fun _ _ => rfl
  have nothing : pack raw.pageSize [([] : List UInt8)] = [] := by
    rw [pack_cons, padded_nil positive]
    rfl
  exact
    { laid with
      out := by
        rw [laid.out, map_append, pack_append]
        change _ = head ++ (_ ++ pack raw.pageSize [[]])
        rw [nothing, append_nil]
      written := written
      pending := pending }

/-- Positions noted for other blocks do not matter here. -/
theorem note {off : Offsets} (header : off.header = writer.off.header)
    (kernel : off.kernel = writer.off.kernel) (ramdisk : off.ramdisk = writer.off.ramdisk) :
    Laid head raw starts pieces { writer with off := off } :=
  { laid with
    header := header.trans laid.header
    starts := by
      rw [← laid.starts, ← kernel, ← ramdisk] }

/-- Assigning a field that is not a size keeps the layout. -/
theorem setField (field : Field) (assignable : field ∉ ImgHdr.readOnly)
    (notSize : ∀ block : Block, field ≠ block.sizeField) (value : Nat) :
    Laid head raw starts pieces { writer with hdr := writer.hdr.set field value } :=
  { laid with
    edits := laid.edits.trans (.set writer.hdr assignable value)
    written := fun piece mem =>
      (writer.hdr.get_set_of_ne (notSize piece.block) value).trans (laid.written piece mem)
    pending := fun block absent =>
      (writer.hdr.get_set_of_ne (notSize block) value).trans (laid.pending block absent) }

theorem has_writer (has : ImgHdr.Has raw.cls block) : ImgHdr.Has writer.hdr.cls block := by
  rw [laid.edits.cls]
  exact has

/-- Writing a component file adds its contents. -/
theorem writeFile (positive : 0 < raw.pageSize) (aligned : raw.pageSize ∣ head.length)
    (fresh : block ∉ pieces.map Piece.block) (assignable : block.sizeField ∉ ImgHdr.readOnly)
    (present : file.isSome → ImgHdr.Has raw.cls block)
    (absent : file = none → resetSize raw block = 0) :
    Laid head raw starts (pieces ++ [⟨block, [], file.getD []⟩])
      (writer.writeFile raw.pageSize block file) := by
  cases file with
  | none => exact laid.skip positive fresh (absent rfl)
  | some data =>
    have has := laid.has_writer (present rfl)
    rw [← laid.starts]
    exact laid.append_align positive aligned ⟨block, [], data⟩ fresh writer.off laid.header
      (.set writer.hdr assignable data.length) (ImgHdr.size_setSize_self has data.length)
      fun other apart => writer.hdr.size_setSize_of_ne (Ne.symm apart) data.length

end

end Laid

/-! ## The files -/

/-- Component files exist exactly for the blocks that the source has. -/
structure Exact (raw : ImgHdr) (boot : BootImg) (files : Files) : Prop where
  kernel : files.kernel.isSome ↔ raw.size .kernel ≠ 0
  kernelDtb : files.kernelDtb.isSome ↔ boot.kernelDtb.size ≠ 0
  ramdisk : raw.size .vendorRamdiskTable = 0 → (files.ramdisk.isSome ↔ raw.size .ramdisk ≠ 0)
  second : files.second.isSome ↔ raw.size .second ≠ 0
  extra : files.extra.isSome ↔ raw.size .extra ≠ 0
  recoveryDtbo : files.recoveryDtbo.isSome ↔ raw.size .recoveryDtbo ≠ 0
  dtb : files.dtb.isSome ↔ raw.size .dtb ≠ 0
  bootconfig : files.bootconfig.isSome ↔ raw.size .bootconfig ≠ 0

theorem has_of_size_ne_zero (present : hdr.size block ≠ 0) : ImgHdr.Has hdr.cls block := by
  by_contra missing
  exact present (ImgHdr.size_of_not_has missing)

/-- A file that exists exactly for a block is missing for an empty one. -/
theorem size_eq_zero_of_none {raw : ImgHdr} (exact : file.isSome ↔ raw.size block ≠ 0)
    (missing : file = none) : raw.size block = 0 := by
  by_contra present
  rw [missing] at exact
  exact absurd (exact.mpr present) (by decide)

@[simp]
theorem encoded_skipComp (env : Env) (format target : FileFormat) (data : List UInt8) :
    encoded env true format target data = data :=
  rfl

/-- The MTK header of a block in the source. -/
def sourceMtkHdr (flag : Bool) (mapped : List UInt8) (address : Nat) : List UInt8 :=
  if flag then window mapped address 512 else []

theorem readIf_eq {flag : Bool} {mapped : List UInt8} {address : Nat}
    (inside : flag = true → address + 512 ≤ mapped.length) :
    readIf flag mapped address 512 = .ok (sourceMtkHdr flag mapped address) := by
  cases flag with
  | false => rfl
  | true => exact read_of_le (inside rfl)

/-! ## The kernel and the ramdisk -/

section Steps

variable (env : Env) {mapped head : List UInt8} {raw src : ImgHdr} {boot : BootImg}
  {entries : List TableEntry} {entry : TableEntry} {offset : Nat}

  {files : Files} {starts : Nat × Nat} {pieces : List Piece} {writer : Writer}

/-- The new header counts the kernel and the device tree behind it. -/
theorem size_addDtbSize {kernel : List UInt8} (counted : hdr.size .kernel = kernel.length % 2 ^ 32)
    (has : files.kernelDtb.isSome → ImgHdr.Has hdr.cls .kernel) :
    (addDtbSize files hdr).size .kernel = (kernel ++ files.kernelDtb.getD []).length % 2 ^ 32 := by
  unfold addDtbSize
  split
  · rename_i data isSome
    rw [ImgHdr.size_setSize_self (has (by rw [isSome]; rfl)), counted, length_append,
      isSome, Nat.mod_add_mod]
    rfl
  · rename_i isNone
    rw [counted, isNone, Option.getD_none, append_nil]

theorem edits_addDtbSize (hdr : ImgHdr) : ImgHdr.Edits hdr (addDtbSize files hdr) := by
  unfold addDtbSize
  split
  · exact .set hdr (by decide) _
  · exact .refl hdr

theorem size_addDtbSize_of_ne (hdr : ImgHdr) (apart : block ≠ .kernel) :
    (addDtbSize files hdr).size block = hdr.size block := by
  unfold addDtbSize
  split
  · exact hdr.size_setSize_of_ne (Ne.symm apart) _
  · rfl

/-- The kernel block: MTK header, kernel file and device tree. -/
def kernelPiece (mapped : List UInt8) (boot : BootImg) (files : Files) : Piece where
  block := .kernel
  mtkHdr := sourceMtkHdr boot.flags.mtkKernel mapped boot.kHdr
  contents := files.kernel.getD [] ++ files.kernelDtb.getD []

@[simp]
theorem block_kernelPiece (mapped : List UInt8) (boot : BootImg) (files : Files) :
    (kernelPiece mapped boot files).block = .kernel :=
  rfl

/-- The kernel proper is the kernel file, or nothing. -/
theorem kernelBytes_eq (source : Source mapped raw src boot)
    (noZimage : boot.flags.zimageKernel = false) (exact : Exact raw boot files)
    (edits : ImgHdr.Edits raw hdr) (reset : hdr.size .kernel = 0) :
    ∃ hdr', kernelBytes env true mapped boot src files hdr = .ok (files.kernel.getD [], hdr') ∧
      ImgHdr.Edits hdr hdr' ∧
      hdr'.size .kernel = (files.kernel.getD []).length % 2 ^ 32 ∧
      ∀ block, block ≠ .kernel → hdr'.size block = hdr.size block := by
  unfold kernelBytes
  cases isKernel : files.kernel with
  | none =>
    have absent := source.noKernel (size_eq_zero_of_none exact.kernel isKernel)
    refine ⟨hdr, ?_, .refl hdr, reset, fun _ _ => rfl⟩
    simp only [absent]
    rfl
  | some data =>
    have present : raw.size .kernel ≠ 0 := exact.kernel.mp (by rw [isKernel]; rfl)
    have has : ImgHdr.Has hdr.cls .kernel := edits.cls ▸ has_of_size_ne_zero present
    refine ⟨hdr.setSize .kernel data.length, ?_, .set hdr (by decide) _,
      ImgHdr.size_setSize_self has _, fun block apart =>
        hdr.size_setSize_of_ne (Ne.symm apart) _⟩
    simp only [noZimage]
    rfl

/-- The kernel block is written behind the header space. -/
theorem laid_writeKernel (source : Source mapped raw src boot)
    (noZimage : boot.flags.zimageKernel = false) (exact : Exact raw boot files)
    (positive : 0 < raw.pageSize) (aligned : raw.pageSize ∣ head.length)
    (laid : Laid head raw starts [] writer) :
    ∃ writer', writeKernel env true mapped boot src files writer = .ok writer' ∧
      Laid head raw (head.length, writer.off.ramdisk) [kernelPiece mapped boot files] writer' := by
  obtain ⟨hdr, kernelWritten, edits, counted, others⟩ :=
    kernelBytes_eq env source noZimage exact laid.edits (laid.pending .kernel (by simp))
  have mtkRead := readIf_eq fun isSet => (source.mtkKernel isSet).2
  have noZimageRead (address count : Nat) :
      readIf boot.flags.zimageKernel mapped address count = .ok [] := by
    rw [noZimage]
    rfl
  have noZimageSize : addZimageSize boot [] hdr = hdr := by
    rw [addZimageSize, noZimage]
    rfl
  have hasKernel : files.kernelDtb.isSome → ImgHdr.Has hdr.cls .kernel := by
    intro isSome
    have present := source.kernelDtb (exact.kernelDtb.mp isSome)
    rw [edits.cls, laid.edits.cls]
    exact has_of_size_ne_zero present
  have start : writer.out.length = head.length := by
    rw [laid.out]
    exact congrArg length (append_nil head)
  refine ⟨_, ?_, laid.append_align positive aligned (kernelPiece mapped boot files) (by simp)
    { writer.off with kernel := head.length } laid.header
    (edits.trans (edits_addDtbSize hdr)) (size_addDtbSize counted hasKernel)
    fun block apart => (size_addDtbSize_of_ne hdr apart).trans (others block apart)⟩
  rw [writeKernel, mtkRead, noZimageRead, kernelWritten, noZimageRead, source.edits.pageSize]
  dsimp only [ok_bind]
  rw [noZimageSize, start]
  rfl

/-- The source's ramdisk table. -/
def sourceTable (mapped : List UInt8) (raw : ImgHdr) (boot : BootImg) : List TableEntry :=
  TableEntry.decodeAll (raw.get .vendorRamdiskTableEntryNum)
    (window mapped (boot.block .vendorRamdiskTable) (raw.size .vendorRamdiskTable))

/-- The ramdisk file of a table entry. -/
def entryData (files : Files) (entry : TableEntry) : List UInt8 :=
  (files.vendorRamdisk (entryFile entry)).getD []

/-- The table for ramdisks one behind the other, from `offset` on. -/
def updatedTable (files : Files) : List TableEntry → Nat → List TableEntry
  | [], _ => []
  | entry :: entries, offset =>
    { entry with
      ramdiskSize := (entryData files entry).length
      ramdiskOffset := offset } ::
      updatedTable files entries (offset + (entryData files entry).length)

/-- A table for blobs one behind the other, from `offset` on. -/
def retable (bytes : TableEntry → List UInt8) : List TableEntry → Nat → List TableEntry
  | [], _ => []
  | entry :: entries, offset =>
    { entry with
      ramdiskSize := (bytes entry).length
      ramdiskOffset := offset } ::
      retable bytes entries (offset + (bytes entry).length)

theorem updatedTable_eq_retable (files : Files) (entries : List TableEntry) (offset : Nat) :
    updatedTable files entries offset = retable (entryData files) entries offset := by
  induction entries generalizing offset with
  | nil => rfl
  | cons entry entries ih => rw [updatedTable, retable, ih]

/-- What the ramdisk block is made of, behind an MTK header. -/
def ramdiskContents (mapped : List UInt8) (raw : ImgHdr) (boot : BootImg) (files : Files) :
    List UInt8 :=
  if raw.size .vendorRamdiskTable ≠ 0 then
    (sourceTable mapped raw boot).flatMap (entryData files)
  else files.ramdisk.getD []

/-- The ramdisk block. -/
def ramdiskPiece (mapped : List UInt8) (raw : ImgHdr) (boot : BootImg) (files : Files) :
    Piece where
  block := .ramdisk
  mtkHdr := sourceMtkHdr boot.flags.mtkRamdisk mapped boot.rHdr
  contents := ramdiskContents mapped raw boot files

/-- A ramdisk block of the given contents. -/
def ramdiskPieceOf (mapped : List UInt8) (boot : BootImg) (ramdisk : List UInt8) : Piece where
  block := .ramdisk
  mtkHdr := sourceMtkHdr boot.flags.mtkRamdisk mapped boot.rHdr
  contents := ramdisk

@[simp]
theorem block_ramdiskPieceOf (mapped : List UInt8) (boot : BootImg) (ramdisk : List UInt8) :
    (ramdiskPieceOf mapped boot ramdisk).block = .ramdisk :=
  rfl

theorem encode_congr_offset {size other : Nat} (same : offset % 2 ^ 32 = other % 2 ^ 32) :
    encode { entry with ramdiskSize := size, ramdiskOffset := offset } =
      encode { entry with ramdiskSize := size, ramdiskOffset := other } := by
  have words : leBytes 4 offset = leBytes 4 other := by
    rw [← leBytes_mod 4 offset, ← leBytes_mod 4 other]
    exact congrArg (leBytes 4) same
  unfold encode
  rw [words]

variable {skipComp : Bool} {bytes : TableEntry → List UInt8}

/-- The loop over the table concatenates what is written for each entry, and
puts the sizes and offsets into the entries. -/
theorem writeEntries_eq
    (looked : ∀ entry ∈ entries, ∃ format, entryFmt mapped boot entry = .ok format ∧
      encoded env skipComp format format (entryData files entry) = bytes entry) {position : Nat}
    (same : offset % 2 ^ 32 = position % 2 ^ 32) :
    ∃ total table, writeEntries env skipComp mapped boot files entries offset =
        .ok (entries.flatMap bytes, total, table) ∧
      total % 2 ^ 32 = (position + (entries.flatMap bytes).length) % 2 ^ 32 ∧
      table.length = entries.length ∧
      table.flatMap encode = (retable bytes entries position).flatMap encode := by
  induction entries generalizing offset position with
  | nil => exact ⟨offset, [], rfl, same, rfl, rfl⟩
  | cons entry entries ih =>
    obtain ⟨format, here, written⟩ := looked entry mem_cons_self
    have onward : (offset + (bytes entry).length) % 2 ^ 32 % 2 ^ 32 =
        (position + (bytes entry).length) % 2 ^ 32 := by
      rw [Nat.mod_mod, Nat.add_mod, same, ← Nat.add_mod]
    obtain ⟨total, table, rest, counted, sameLength, encoded⟩ :=
      ih (fun other mem => looked other (mem_cons_of_mem entry mem)) onward
    let updated : TableEntry :=
      { entry with ramdiskSize := (bytes entry).length, ramdiskOffset := offset }
    refine ⟨total, updated :: table, ?_, ?_, ?_, ?_⟩
    · rw [writeEntries, here, ok_bind]
      dsimp only
      rw [← entryData, written, rest]
      rfl
    · rw [counted, flatMap_cons, length_append, Nat.add_assoc]
    · rw [length_cons, length_cons, sameLength]
    · rw [flatMap_cons, encoded, retable, flatMap_cons, encode_congr_offset same]

/-- A readable table is the table of the source, with entries of the known
size. -/
theorem vendorRamdiskTbl_eq (source : Source mapped raw src boot)
    (fits : raw.get .vendorRamdiskTableEntryNum * raw.get .vendorRamdiskTableEntrySize =
      raw.size .vendorRamdiskTable) (table : raw.size .vendorRamdiskTable ≠ 0)
    (ran : vendorRamdiskTbl mapped src boot = .ok entries) :
    raw.get .vendorRamdiskTableEntrySize = entrySize ∧ entries = sourceTable mapped raw boot := by
  have sameCount : src.get .vendorRamdiskTableEntryNum = raw.get .vendorRamdiskTableEntryNum :=
    source.edits.get (by decide)
  have sameEntry : src.get .vendorRamdiskTableEntrySize =
      raw.get .vendorRamdiskTableEntrySize := source.edits.get (by decide)
  have sameSize := source.size .vendorRamdiskTable (by decide) (by decide)
  unfold vendorRamdiskTbl at ran
  rw [sameSize, if_neg table, sameEntry, sameCount] at ran
  split at ran
  · cases ran
  · rename_i entrySize
    obtain ⟨bytes, bytesRead, ran⟩ := bind_eq_ok ran
    obtain ⟨-, rfl⟩ := read_eq_ok_iff.mp bytesRead
    cases ran
    refine ⟨not_not.mp entrySize, ?_⟩
    rw [sourceTable, ← fits, not_not.mp entrySize, Nat.mul_comm]

/-- The ramdisk block of a vendor image with a table. -/
theorem laid_writeRamdisk_table (source : Source mapped raw src boot)
    (fits : raw.get .vendorRamdiskTableEntryNum * raw.get .vendorRamdiskTableEntrySize =
      raw.size .vendorRamdiskTable)
    (table : raw.size .vendorRamdiskTable ≠ 0) (readable : TableReadable mapped src boot)
    (written : ∀ entry format, entryFmt mapped boot entry = .ok format →
      encoded env skipComp format format (entryData files entry) = bytes entry)
    (has : ImgHdr.Has raw.cls .ramdisk)
    (positive : 0 < raw.pageSize) (aligned : raw.pageSize ∣ head.length)
    (fresh : Block.ramdisk ∉ pieces.map Piece.block)
    (laid : Laid head raw starts pieces writer) :
    ∃ writer' updated, writeRamdisk env skipComp mapped boot src files writer =
        .ok (writer', updated) ∧
      Laid head raw (writer.off.kernel, writer.out.length)
        (pieces ++ [ramdiskPieceOf mapped boot ((sourceTable mapped raw boot).flatMap bytes)])
        writer' ∧
      updated.length = (sourceTable mapped raw boot).length ∧
      updated.flatMap encode = (retable bytes (sourceTable mapped raw boot) 0).flatMap encode := by
  obtain ⟨entries, ran, looked⟩ := readable
  obtain ⟨-, rfl⟩ := vendorRamdiskTbl_eq source fits table ran
  have lookedWritten : ∀ entry ∈ sourceTable mapped raw boot,
      ∃ format, entryFmt mapped boot entry = .ok format ∧
        encoded env skipComp format format (entryData files entry) = bytes entry := by
    intro entry mem
    obtain ⟨format, isFormat⟩ := looked entry mem
    exact ⟨format, isFormat, written entry format isFormat⟩
  obtain ⟨total, updated, loop, counted, sameLength, encoded⟩ :=
    writeEntries_eq env lookedWritten (Eq.refl (0 % 2 ^ 32))
  have sameSize := source.size .vendorRamdiskTable (by decide) (by decide)
  have sized : (writer.hdr.setSize .ramdisk total).size .ramdisk =
      ((sourceTable mapped raw boot).flatMap bytes).length % 2 ^ 32 := by
    rw [ImgHdr.size_setSize_self (laid.has_writer has), counted, Nat.zero_add]
  refine ⟨_, updated, ?_, laid.append_align positive aligned
    (ramdiskPieceOf mapped boot ((sourceTable mapped raw boot).flatMap bytes)) fresh
    { writer.off with ramdisk := writer.out.length } laid.header
    (.set writer.hdr (by decide) total) sized
    fun block apart => writer.hdr.size_setSize_of_ne (Ne.symm apart) total,
    sameLength, encoded⟩
  have mtkRead := readIf_eq fun isSet => (source.mtkRamdisk isSet).2.2
  rw [writeRamdisk, mtkRead, ok_bind, sameSize, source.edits.pageSize]
  rw [if_pos table, ran, ok_bind, loop]
  simp only [Writer.append, append_assoc]
  rfl

/-- The ramdisk block of an image without a table. -/
theorem laid_writeRamdisk_plain (source : Source mapped raw src boot)
    (noTable : raw.size .vendorRamdiskTable = 0) (exact : Exact raw boot files)
    (positive : 0 < raw.pageSize) (aligned : raw.pageSize ∣ head.length)
    (fresh : Block.ramdisk ∉ pieces.map Piece.block)
    (laid : Laid head raw starts pieces writer) :
    ∃ writer', writeRamdisk env true mapped boot src files writer = .ok (writer', []) ∧
      Laid head raw (writer.off.kernel, writer.out.length)
        (pieces ++ [ramdiskPiece mapped raw boot files]) writer' := by
  have mtkRead := readIf_eq fun isSet => (source.mtkRamdisk isSet).2.2
  have sameSize := source.size .vendorRamdiskTable (by decide) (by decide)
  have contents : ramdiskContents mapped raw boot files = files.ramdisk.getD [] :=
    if_neg (not_not.mpr noTable)
  rw [writeRamdisk, mtkRead, ok_bind, sameSize, source.edits.pageSize, ramdiskPiece, contents]
  rw [if_neg (not_not.mpr noTable)]
  refine ⟨_, rfl, ?_⟩
  cases isRamdisk : files.ramdisk with
  | none =>
    have absent := size_eq_zero_of_none (exact.ramdisk noTable) isRamdisk
    have noMtk : sourceMtkHdr boot.flags.mtkRamdisk mapped boot.rHdr = [] := by
      apply if_neg
      intro isSet
      exact (source.mtkRamdisk isSet).1 absent
    have noted : Laid head raw (writer.off.kernel, writer.out.length) pieces
        { writer with off := { writer.off with ramdisk := writer.out.length } } :=
      { laid with
        header := laid.header
        starts := rfl }
    rw [noMtk, Writer.append, append_nil]
    exact noted.skip positive fresh rfl
  | some data =>
    have present : raw.size .ramdisk ≠ 0 := (exact.ramdisk noTable).mp (by rw [isRamdisk]; rfl)
    have has := laid.has_writer (has_of_size_ne_zero present)
    have added := laid.append_align positive aligned
      ⟨.ramdisk, sourceMtkHdr boot.flags.mtkRamdisk mapped boot.rHdr, data⟩ fresh
      { writer.off with ramdisk := writer.out.length } laid.header
      (.set writer.hdr (by decide) data.length)
      (ImgHdr.size_setSize_self has data.length)
      fun block apart => writer.hdr.size_setSize_of_ne (Ne.symm apart) data.length
    simp only [Writer.writeFile, Writer.append, append_assoc]
    exact added

/-- The ramdisk table of the new image. -/
def tableContents (mapped : List UInt8) (raw : ImgHdr) (boot : BootImg) (files : Files) :
    List UInt8 :=
  if raw.size .vendorRamdiskTable ≠ 0 then
    (updatedTable files (sourceTable mapped raw boot) 0).flatMap TableEntry.encode
  else []

theorem length_decodeAll (count : Nat) (bytes : List UInt8) :
    (decodeAll count bytes).length = count := by
  induction count generalizing bytes with
  | zero => rfl
  | succ count ih => rw [decodeAll, length_cons, ih]

/-- The rest of each entry of a full table. -/
theorem length_rest_decodeAll {count : Nat} {bytes : List UInt8}
    (full : bytes.length = entrySize * count) :
    ∀ entry ∈ decodeAll count bytes, entry.rest.length = 100 := by
  induction count generalizing bytes with
  | zero => simp [decodeAll]
  | succ count ih =>
    have split : bytes.length = entrySize * count + entrySize := full
    intro entry mem
    rcases mem_cons.mp mem with rfl | mem
    · change (bytes.take entrySize |>.drop 8).length = 100
      rw [length_drop, length_take, split]
      unfold entrySize
      omega
    · apply ih _ entry mem
      rw [length_drop, split, Nat.add_sub_cancel]

theorem length_encode (rest : entry.rest.length = 100) : entry.encode.length = entrySize := by
  rw [encode, length_append, length_append, rest]
  rfl

/-- The updated table is as long as the old one. -/
theorem length_retable (bytes : TableEntry → List UInt8)
    (rests : ∀ entry ∈ entries, entry.rest.length = 100) (offset : Nat) :
    ((retable bytes entries offset).flatMap encode).length = entrySize * entries.length := by
  induction entries generalizing offset with
  | nil => rfl
  | cons entry entries ih =>
    have here := rests entry mem_cons_self
    have onward := ih (fun other mem => rests other (mem_cons_of_mem entry mem))
      (offset + (bytes entry).length)
    rw [retable, flatMap_cons, length_append, length_cons, Nat.add_comm]
    congr 1
    exact length_encode here

section

variable (source : Source mapped raw src boot)

include source

/-- The entries of an accepted image have all their bytes. -/
theorem length_rest_sourceTable
    (fits : raw.get .vendorRamdiskTableEntryNum * entrySize = raw.size .vendorRamdiskTable) :
    ∀ entry ∈ sourceTable mapped raw boot, entry.rest.length = 100 := by
  have inside := source.inside .vendorRamdiskTable (by decide) (by decide)
  exact length_rest_decodeAll ((length_window inside).trans (fits.symm.trans (Nat.mul_comm _ _)))

/-- The table of an accepted image is as long as its block. -/
theorem length_retable_sourceTable
    (fits : raw.get .vendorRamdiskTableEntryNum * entrySize = raw.size .vendorRamdiskTable)
    (bytes : TableEntry → List UInt8) :
    ((retable bytes (sourceTable mapped raw boot) 0).flatMap encode).length =
      raw.size .vendorRamdiskTable := by
  rw [length_retable bytes (length_rest_sourceTable source fits), sourceTable, length_decodeAll,
    Nat.mul_comm, fits]

/-- The boot signature is copied from the source. -/
theorem laid_writeSignature (positive : 0 < raw.pageSize) (aligned : raw.pageSize ∣ head.length)
    (fresh : Block.signature ∉ pieces.map Piece.block) (laid : Laid head raw starts pieces writer) :
    ∃ writer', writeSignature mapped boot src writer = .ok writer' ∧
      Laid head raw starts (pieces ++ [⟨.signature, [],
        window mapped (boot.block .signature) (raw.size .signature)⟩]) writer' := by
  have sameSize := source.size .signature (by decide) (by decide)
  have inside := source.inside .signature (by decide) (by decide)
  have pending : writer.hdr.size .signature = raw.size .signature := laid.pending _ fresh
  rw [writeSignature, sameSize, source.edits.pageSize]
  by_cases present : raw.size .signature ≠ 0
  · rw [if_pos present, read_of_le inside]
    refine ⟨_, rfl, ?_⟩
    rw [← laid.starts]
    refine laid.append_align positive aligned ⟨.signature, [], _⟩ fresh writer.off laid.header
      (.refl writer.hdr) ?_ fun _ _ => rfl
    rw [pending, length_window inside, Nat.mod_eq_of_lt (raw.size_lt _)]
  · have empty : raw.size .signature = 0 := not_not.mp present
    rw [empty]
    exact ⟨writer, rfl, laid.skip positive fresh empty⟩

/-- The updated table is written when the source has one. -/
theorem laid_writeTable (full : contents.length = raw.size .vendorRamdiskTable)
    {table : List TableEntry} (encoded : table.flatMap encode = contents)
    (exists_iff : table ≠ [] ↔ raw.size .vendorRamdiskTable ≠ 0) (positive : 0 < raw.pageSize)
    (aligned : raw.pageSize ∣ head.length)
    (fresh : Block.vendorRamdiskTable ∉ pieces.map Piece.block)
    (laid : Laid head raw starts pieces writer) :
    Laid head raw starts (pieces ++ [⟨.vendorRamdiskTable, [], contents⟩])
      (writeTable src table writer) := by
  have pending : writer.hdr.size .vendorRamdiskTable = raw.size .vendorRamdiskTable :=
    laid.pending _ fresh
  rw [writeTable, source.edits.pageSize]
  by_cases present : raw.size .vendorRamdiskTable ≠ 0
  · rw [if_pos (exists_iff.mpr present), encoded, ← laid.starts]
    refine laid.append_align positive aligned ⟨.vendorRamdiskTable, [], _⟩ fresh writer.off
      laid.header (.refl writer.hdr) ?_ fun _ _ => rfl
    rw [pending, full, Nat.mod_eq_of_lt (raw.size_lt _)]
  · have empty : raw.size .vendorRamdiskTable = 0 := not_not.mp present
    have nothing : contents = [] := length_eq_zero_iff.mp (full.trans empty)
    rw [if_neg (mt exists_iff.mp present), nothing]
    exact laid.skip positive fresh empty

end

end Steps

/-! ## All blocks -/

/-- The conditions under which `repack` lays out all blocks it is given. -/
structure Suitable (raw : ImgHdr) (boot : BootImg) (files : Files) : Prop where
  pagePositive : 0 < raw.pageSize
  noZimage : boot.flags.zimageKernel = false
  exact : Exact raw boot files
  tableFits : raw.get .vendorRamdiskTableEntryNum * raw.get .vendorRamdiskTableEntrySize =
    raw.size .vendorRamdiskTable
  tableRamdisk : raw.size .vendorRamdiskTable ≠ 0 → raw.size .ramdisk ≠ 0

/-- The blocks before the patches. -/
def writtenPieces (mapped : List UInt8) (raw : ImgHdr) (boot : BootImg) (files : Files) :
    List Piece :=
  [kernelPiece mapped boot files,
    ramdiskPiece mapped raw boot files,
    ⟨.second, [], files.second.getD []⟩,
    ⟨.extra, [], files.extra.getD []⟩,
    ⟨.recoveryDtbo, [], files.recoveryDtbo.getD []⟩,
    ⟨.dtb, [], files.dtb.getD []⟩,
    ⟨.signature, [], window mapped (boot.block .signature) (raw.size .signature)⟩,
    ⟨.vendorRamdiskTable, [], tableContents mapped raw boot files⟩,
    ⟨.bootconfig, [], files.bootconfig.getD []⟩]

/-- The blocks before the patches, for a ramdisk block and a table of the given
contents. -/
def blockPieces (mapped : List UInt8) (raw : ImgHdr) (boot : BootImg) (files : Files)
    (ramdisk table : List UInt8) : List Piece :=
  [kernelPiece mapped boot files,
    ramdiskPieceOf mapped boot ramdisk,
    ⟨.second, [], files.second.getD []⟩,
    ⟨.extra, [], files.extra.getD []⟩,
    ⟨.recoveryDtbo, [], files.recoveryDtbo.getD []⟩,
    ⟨.dtb, [], files.dtb.getD []⟩,
    ⟨.signature, [], window mapped (boot.block .signature) (raw.size .signature)⟩,
    ⟨.vendorRamdiskTable, [], table⟩,
    ⟨.bootconfig, [], files.bootconfig.getD []⟩]

theorem writtenPieces_eq_blockPieces (mapped : List UInt8) (raw : ImgHdr) (boot : BootImg)
    (files : Files) :
    writtenPieces mapped raw boot files =
      blockPieces mapped raw boot files (ramdiskContents mapped raw boot files)
        (tableContents mapped raw boot files) :=
  rfl

/-- Neither the kernel nor the extra blob is compressed again. -/
def Uncompressed (skipComp : Bool) (files : Files) : Prop :=
  skipComp = true ∨ files.kernel = none ∧ files.extra = none

section Blocks

variable (env : Env) {mapped head : List UInt8} {raw src : ImgHdr} {boot : BootImg}
  {files : Files} {starts : Nat × Nat} {pieces : List Piece} {writer : Writer}
  {skipComp : Bool}

theorem Uncompressed.writeKernel_eq (uncompressed : Uncompressed skipComp files) :
    writeKernel env skipComp mapped boot src files writer =
      writeKernel env true mapped boot src files writer := by
  rcases uncompressed with rfl | ⟨noKernel, -⟩
  · rfl
  · simp only [writeKernel, kernelBytes, noKernel]

theorem Uncompressed.writeExtra_eq (uncompressed : Uncompressed skipComp files) :
    writeExtra env skipComp boot src files writer = writeExtra env true boot src files writer := by
  rcases uncompressed with rfl | ⟨-, noExtra⟩
  · rfl
  · simp only [writeExtra, noExtra, Option.map_none]

/-- A table as long as the one of the source is empty exactly if the block is. -/
theorem updated_ne_nil_iff (table : raw.size .vendorRamdiskTable ≠ 0)
    (fits : raw.get .vendorRamdiskTableEntryNum * raw.get .vendorRamdiskTableEntrySize =
      raw.size .vendorRamdiskTable) {updated : List TableEntry}
    (sameLength : updated.length = (sourceTable mapped raw boot).length) :
    updated ≠ [] ↔ raw.size .vendorRamdiskTable ≠ 0 := by
  have count : raw.get .vendorRamdiskTableEntryNum ≠ 0 := by
    intro none
    apply table
    rw [← fits, none, Nat.zero_mul]
  rw [sourceTable, length_decodeAll] at sameLength
  simp only [ne_eq, ← length_eq_zero_iff, sameLength, count, table]

/-- The ramdisk block, and the table to be written later. -/
theorem laid_writeRamdisk (source : Source mapped raw src boot) (suitable : Suitable raw boot files)
    (aligned : raw.pageSize ∣ head.length) (fresh : Block.ramdisk ∉ pieces.map Piece.block)
    (laid : Laid head raw starts pieces writer) :
    ∃ writer' table, writeRamdisk env true mapped boot src files writer = .ok (writer', table) ∧
      Laid head raw (writer.off.kernel, writer.out.length)
        (pieces ++ [ramdiskPiece mapped raw boot files]) writer' ∧
      table.flatMap encode = tableContents mapped raw boot files ∧
      (table ≠ [] ↔ raw.size .vendorRamdiskTable ≠ 0) := by
  by_cases table : raw.size .vendorRamdiskTable ≠ 0
  · have present := suitable.tableRamdisk table
    obtain ⟨writer', updated, ran, laid', sameLength, encoded⟩ :=
      laid_writeRamdisk_table env source suitable.tableFits table (source.table table present)
        (fun entry format _ => encoded_skipComp env format format (entryData files entry))
        (has_of_size_ne_zero present) suitable.pagePositive aligned fresh laid
    refine ⟨writer', updated, ran, ?_, ?_, updated_ne_nil_iff table suitable.tableFits sameLength⟩
    · rw [ramdiskPiece, ramdiskContents, if_pos table]
      exact laid'
    · rw [encoded, tableContents, if_pos table, updatedTable_eq_retable]
  · obtain ⟨writer', ran, laid'⟩ :=
      laid_writeRamdisk_plain env source (not_not.mp table) suitable.exact suitable.pagePositive
        aligned fresh laid
    refine ⟨writer', [], ran, laid', ?_, ?_⟩
    · rw [tableContents, if_neg table]
      rfl
    · simp only [ne_eq, not_true_eq_false, false_iff]
      exact table

/-- The table of a suitable image is as long as its block. -/
theorem Suitable.length_table (suitable : Suitable raw boot files)
    (source : Source mapped raw src boot) :
    (tableContents mapped raw boot files).length = raw.size .vendorRamdiskTable := by
  rw [tableContents]
  split
  · rename_i table
    obtain ⟨entries, ran, -⟩ := source.table table (suitable.tableRamdisk table)
    obtain ⟨entrySize, -⟩ := vendorRamdiskTbl_eq source suitable.tableFits table ran
    have fits := suitable.tableFits
    rw [entrySize] at fits
    rw [updatedTable_eq_retable]
    exact length_retable_sourceTable source fits (entryData files)
  · rename_i noTable
    exact (not_not.mp noTable).symm

section Files

variable (source : Source mapped raw src boot) (exact : Exact raw boot files)
  (positive : 0 < raw.pageSize) (aligned : raw.pageSize ∣ head.length)
  (laid : Laid head raw starts pieces writer)

include source exact positive aligned laid

theorem laid_writeSecond (fresh : Block.second ∉ pieces.map Piece.block) :
    Laid head raw starts (pieces ++ [⟨.second, [], files.second.getD []⟩])
      (writeSecond src files writer) := by
  have noted : Laid head raw starts pieces
      { writer with off := { writer.off with second := writer.out.length } } :=
    laid.note rfl rfl rfl
  rw [writeSecond, source.edits.pageSize]
  exact noted.writeFile positive aligned fresh (by decide)
    (fun isSome => has_of_size_ne_zero (exact.second.mp isSome)) fun _ => rfl

theorem laid_writeExtra (fresh : Block.extra ∉ pieces.map Piece.block) :
    Laid head raw starts (pieces ++ [⟨.extra, [], files.extra.getD []⟩])
      (writeExtra env true boot src files writer) := by
  have noted : Laid head raw starts pieces
      { writer with off := { writer.off with extra := writer.out.length } } :=
    laid.note rfl rfl rfl
  have asGiven : files.extra.map (encoded env true boot.eFmt boot.eFmt) = files.extra :=
    Option.map_id'
  rw [writeExtra, source.edits.pageSize, asGiven]
  exact noted.writeFile positive aligned fresh (by decide)
    (fun isSome => has_of_size_ne_zero (exact.extra.mp isSome))
    (size_eq_zero_of_none exact.extra)

theorem laid_writeRecoveryDtbo (fresh : Block.recoveryDtbo ∉ pieces.map Piece.block) :
    Laid head raw starts (pieces ++ [⟨.recoveryDtbo, [], files.recoveryDtbo.getD []⟩])
      (writeRecoveryDtbo src files writer) := by
  unfold writeRecoveryDtbo
  cases isDtbo : files.recoveryDtbo with
  | none => exact laid.skip positive fresh (size_eq_zero_of_none exact.recoveryDtbo isDtbo)
  | some data =>
    have present := exact.recoveryDtbo.mp (by rw [isDtbo]; rfl)
    have noted := laid.setField .recoveryDtboOffset (by decide) (by decide) writer.out.length
    rw [source.edits.pageSize]
    exact noted.writeFile positive aligned fresh (by decide)
      (fun _ => has_of_size_ne_zero present) fun missing => nomatch missing

theorem laid_writeDtb (fresh : Block.dtb ∉ pieces.map Piece.block) :
    Laid head raw starts (pieces ++ [⟨.dtb, [], files.dtb.getD []⟩])
      (writeDtb src files writer) := by
  have noted : Laid head raw starts pieces
      { writer with off := { writer.off with dtb := writer.out.length } } :=
    laid.note rfl rfl rfl
  rw [writeDtb, source.edits.pageSize]
  exact noted.writeFile positive aligned fresh (by decide)
    (fun isSome => has_of_size_ne_zero (exact.dtb.mp isSome)) fun _ => rfl

theorem laid_writeBootconfig (fresh : Block.bootconfig ∉ pieces.map Piece.block) :
    Laid head raw starts (pieces ++ [⟨.bootconfig, [], files.bootconfig.getD []⟩])
      (writer.writeFile src.pageSize .bootconfig files.bootconfig) := by
  rw [source.edits.pageSize]
  exact laid.writeFile positive aligned fresh (by decide)
    (fun isSome => has_of_size_ne_zero (exact.bootconfig.mp isSome)) fun _ => rfl

end Files

/-- The noted positions once all blocks are written. -/
def blockStarts (mapped head : List UInt8) (raw : ImgHdr) (boot : BootImg) (files : Files) :
    Nat × Nat :=
  (head.length, (head ++ padded raw.pageSize (kernelPiece mapped boot files).bytes).length)

/-- All blocks are laid out behind the header space, if the ramdisk block is. -/
theorem laid_writeBlocks_of_ramdisk {ramdisk : List UInt8} (source : Source mapped raw src boot)
    (noZimage : boot.flags.zimageKernel = false) (exact : Exact raw boot files)
    (positive : 0 < raw.pageSize) (uncompressed : Uncompressed skipComp files)
    (aligned : raw.pageSize ∣ head.length) (laid : Laid head raw starts [] writer)
    (ramdiskStep : ∀ {starts before},
      Laid head raw starts [kernelPiece mapped boot files] before →
      ∃ writer' table, writeRamdisk env skipComp mapped boot src files before =
          .ok (writer', table) ∧
        Laid head raw (before.off.kernel, before.out.length)
          ([kernelPiece mapped boot files] ++ [ramdiskPieceOf mapped boot ramdisk]) writer' ∧
        table.flatMap encode = contents ∧
        (table ≠ [] ↔ raw.size .vendorRamdiskTable ≠ 0))
    (full : contents.length = raw.size .vendorRamdiskTable) :
    ∃ writer', writeBlocks env skipComp mapped boot src files writer = .ok writer' ∧
      Laid head raw (blockStarts mapped head raw boot files)
        (blockPieces mapped raw boot files ramdisk contents) writer' := by
  obtain ⟨afterKernel, kernelRan, laidKernel⟩ :=
    laid_writeKernel env source noZimage exact positive aligned laid
  obtain ⟨afterRamdisk, table, ramdiskRan, laidRamdisk, encoded, tableIff⟩ := ramdiskStep laidKernel
  have laidSecond := laid_writeSecond source exact positive aligned laidRamdisk (by simp)
  have laidExtra := laid_writeExtra env source exact positive aligned laidSecond (by simp)
  have laidDtbo := laid_writeRecoveryDtbo source exact positive aligned laidExtra (by simp)
  have laidDtb := laid_writeDtb source exact positive aligned laidDtbo (by simp)
  obtain ⟨afterSignature, signatureRan, laidSignature⟩ :=
    laid_writeSignature source positive aligned (by simp) laidDtb
  have laidTable := laid_writeTable source full encoded tableIff positive aligned (by simp)
    laidSignature
  have laidAll := laid_writeBootconfig source exact positive aligned laidTable (by simp)
  refine ⟨(writeTable src table afterSignature).writeFile src.pageSize .bootconfig
    files.bootconfig, ?_, ?_⟩
  · rw [writeBlocks, uncompressed.writeKernel_eq, kernelRan, ok_bind, ramdiskRan, ok_bind]
    dsimp only
    rw [uncompressed.writeExtra_eq, signatureRan]
    rfl
  · have starts : (afterKernel.off.kernel, afterKernel.out.length) =
        blockStarts mapped head raw boot files := by
      rw [laidKernel.out, (Prod.mk.inj laidKernel.starts).1, map_singleton]
      congr 2
      exact congrArg (head ++ ·) (append_nil _)
    rw [← starts]
    exact laidAll

/-- All blocks of a suitable image are laid out behind the header space. -/
theorem laid_writeBlocks (source : Source mapped raw src boot)
    (suitable : Suitable raw boot files) (aligned : raw.pageSize ∣ head.length)
    (laid : Laid head raw starts [] writer) :
    ∃ writer', writeBlocks env true mapped boot src files writer = .ok writer' ∧
      Laid head raw (blockStarts mapped head raw boot files)
        (writtenPieces mapped raw boot files) writer' := by
  exact laid_writeBlocks_of_ramdisk env source suitable.noZimage suitable.exact
    suitable.pagePositive (.inl rfl) aligned laid
    (fun laidKernel => laid_writeRamdisk env source suitable aligned (by simp) laidKernel)
    (suitable.length_table source)

end Blocks

end Magisk.Boot.Image
