import Magisk.Boot.Image.Walk
import Magisk.Bytes.Tiling

/-!
# The ramdisk table of a repacked vendor image

A vendor image of version 4 keeps its ramdisks in one block, and a table with
the size, the offset, the type, the name and the board id of each.  `repack`
detects the format of a ramdisk with the old offset of its entry, writes the new
ramdisk, and stores its size and offset in the entry; the table and the header
follow later.  The theorem of this module is that the three places agree: in
the new image, found by its own header, the entries tile the ramdisk block, and
the slice of each is the file of its name, compressed again where the source
was.
-/

namespace Magisk.Boot.Image

open Bytes List TableEntry Result

variable {entry : TableEntry} {raw : ImgHdr}

/-! ## Entries -/

namespace TableEntry

/-- The range of the ramdisk block that an entry stands for. -/
def tile (entry : TableEntry) : Tile where
  offset := entry.ramdiskOffset
  size := entry.ramdiskSize

/-- `ramdisk_name` ends with a NUL. -/
def Terminated (entry : TableEntry) : Prop :=
  0 ∈ window entry.rest 4 32

instance (entry : TableEntry) : Decidable entry.Terminated :=
  inferInstanceAs (Decidable (0 ∈ window entry.rest 4 32))

/-- The string in `ramdisk_name`. -/
def ramdiskName (entry : TableEntry) : List UInt8 :=
  (window entry.rest 4 32).takeWhile (· != 0)

/-- A name that ends in its field is not longer for a reader that does not know
the field. -/
theorem Terminated.takeWhile_eq (terminated : entry.Terminated) :
    (entry.rest.drop 4).takeWhile (· != 0) = entry.ramdiskName := by
  have whole : entry.rest.drop 4 = window entry.rest 4 32 ++ (entry.rest.drop 4).drop 32 :=
    (take_append_drop 32 _).symm
  have stops : (window entry.rest 4 32).takeWhile (· != 0) ≠ window entry.rest 4 32 := by
    intro all
    have passes := takeWhile_eq_self_iff.mp all 0 terminated
    exact absurd passes (by decide)
  rw [whole, takeWhile_append, if_neg, ramdiskName]
  intro sameLength
  exact stops ((List.takeWhile_prefix _).eq_of_length sameLength)

/-- Sizes and offsets of 32 bits survive the encoding. -/
theorem decode_of_encode (size : entry.ramdiskSize < 2 ^ 32)
    (offset : entry.ramdiskOffset < 2 ^ 32) :
    decode entry.encode = entry := by
  have front : (leBytes 4 entry.ramdiskSize).length = 4 := length_leBytes 4 _
  have second : (leBytes 4 entry.ramdiskOffset).length = 4 := length_leBytes 4 _
  have sizeRead : window entry.encode 0 4 = leBytes 4 entry.ramdiskSize := by
    rw [window_zero, encode, take_left' front]
  have offsetRead : window entry.encode 4 4 = leBytes 4 entry.ramdiskOffset := by
    rw [window, encode, drop_left' front, take_left' second]
  have restRead : entry.encode.drop 8 = entry.rest := by
    rw [encode, ← append_assoc]
    exact drop_left' (by rw [length_append, front, second])
  unfold decode
  rw [sizeRead, offsetRead, restRead, ofLe_leBytes_of_lt size, ofLe_leBytes_of_lt offset]

/-- A table is read back from its encoding. -/
theorem decodeAll_encoded {table : List TableEntry}
    (fits : ∀ entry ∈ table, entry.ramdiskSize < 2 ^ 32 ∧ entry.ramdiskOffset < 2 ^ 32 ∧
      entry.rest.length = 100) :
    decodeAll table.length (table.flatMap encode) = table := by
  induction table with
  | nil => rfl
  | cons entry table ih =>
    obtain ⟨size, offset, rest⟩ := fits entry mem_cons_self
    have long : entry.encode.length = entrySize := length_encode rest
    rw [length_cons, decodeAll, flatMap_cons, take_left' long,
      drop_left' long, decode_of_encode size offset,
      ih fun other mem => fits other (mem_cons_of_mem entry mem)]

end TableEntry

/-- The file of a ramdisk name. -/
def ramdiskFile (name : List UInt8) : List UInt8 :=
  if name = [] then utf8 "ramdisk.cpio" else name ++ utf8 ".cpio"

/-- The buffer for the file name has room for every name that ends in its
field. -/
theorem entryFile_of_terminated (terminated : entry.Terminated) :
    entryFile entry = ramdiskFile entry.ramdiskName := by
  have short : entry.ramdiskName.length ≤ 32 :=
    (List.takeWhile_prefix _).length_le.trans (length_take_le 32 _)
  have suffix : (utf8 ".cpio").length = 5 := by decide
  rw [entryFile, terminated.takeWhile_eq]
  rw [ramdiskFile, take_of_length_le]
  rw [length_append]
  omega

/-! ## The table of an image -/

/-- A block of an image, found by the walk with its own header. -/
def walkBlock (file : List UInt8) (block : Block) : Option (List UInt8) := do
  let blocks ← walk file
  (Block.all.zip (blocks.map Prod.fst)).lookup block

/-- The ramdisk table of an image, found by its own header. -/
def imageTable (file : List UInt8) : Option (List TableEntry) := do
  let hdr ← readHdr file
  let bytes ← walkBlock file .vendorRamdiskTable
  return TableEntry.decodeAll (hdr.get .vendorRamdiskTableEntryNum) bytes

section Vendor

variable (env : Env) (skipComp : Bool) (mapped : List UInt8) (boot : BootImg) (files : Files)
  {format : FileFormat}

/-- The new ramdisk of an entry of the source: the file of its name, compressed
again if the ramdisk of the source was. -/
def NewRamdisk (entry : TableEntry) (ramdisk : List UInt8) : Prop :=
  ∃ format, entryFmt mapped boot entry = .ok format ∧
    ramdisk = encoded env skipComp format format
      ((files.vendorRamdisk (ramdiskFile entry.ramdiskName)).getD [])

/-- The table of `out` tiles the ramdisk block of `out` with the new ramdisks
of the source's entries, whose types, names and board ids it keeps. -/
def TableTiled (source : List TableEntry) (out : List UInt8) : Prop :=
  ∃ hdr ramdisk table, readHdr out = some hdr ∧ walkBlock out .ramdisk = some ramdisk ∧
    imageTable out = some table ∧
    Tile.Tiling (table.map TableEntry.tile) (hdr.size .ramdisk) ∧
    Forall₂ (fun new old => new.rest = old.rest ∧
      NewRamdisk env skipComp mapped boot files old (new.tile.slice ramdisk)) table source

/-- What `repack` writes for an entry. -/
def entryBytes (entry : TableEntry) : List UInt8 :=
  match entryFmt mapped boot entry with
  | .ok format => encoded env skipComp format format (entryData files entry)
  | .error _ => []

/-- The size of the new ramdisk block. -/
def ramdisksSize (entries : List TableEntry) : Nat :=
  (entries.map fun entry => (entryBytes env skipComp mapped boot files entry).length).sum

variable {env skipComp mapped boot files}

theorem entryBytes_of_fmt (isFormat : entryFmt mapped boot entry = .ok format) :
    encoded env skipComp format format (entryData files entry) =
      entryBytes env skipComp mapped boot files entry := by
  rw [entryBytes, isFormat]

/-- What is written for an entry is its new ramdisk. -/
theorem newRamdisk_iff (terminated : entry.Terminated)
    (isFormat : entryFmt mapped boot entry = .ok format) (ramdisk : List UInt8) :
    NewRamdisk env skipComp mapped boot files entry ramdisk ↔
      ramdisk = entryBytes env skipComp mapped boot files entry := by
  rw [← entryBytes_of_fmt isFormat, entryData, entryFile_of_terminated terminated, NewRamdisk,
    isFormat]
  constructor
  · rintro ⟨other, same, isRamdisk⟩
    cases same
    exact isRamdisk
  · intro isRamdisk
    exact ⟨format, rfl, isRamdisk⟩

/-- The new table has the tiles of what is written. -/
theorem map_tile_retable (bytes : TableEntry → List UInt8) (entries : List TableEntry)
    (offset : Nat) :
    (retable bytes entries offset).map tile = Tile.ofParts offset (entries.map bytes) := by
  induction entries generalizing offset with
  | nil => rfl
  | cons entry entries ih =>
    rw [retable, map_cons, ih]
    rfl

/-- The new table keeps everything but the sizes and offsets. -/
theorem map_rest_retable (bytes : TableEntry → List UInt8) (entries : List TableEntry)
    (offset : Nat) : (retable bytes entries offset).map rest = entries.map rest := by
  induction entries generalizing offset with
  | nil => rfl
  | cons entry entries ih => rw [retable, map_cons, ih, map_cons]

/-- Two lists with the same values are related by having them. -/
theorem forall₂_of_map_eq {α β γ : Type} {left : α → γ} {right : β → γ} {xs : List α}
    {ys : List β} (same : xs.map left = ys.map right) :
    Forall₂ (fun x y => left x = right y) xs ys := by
  have related : Forall₂ Eq (xs.map left) (ys.map right) := by
    rw [forall₂_eq_eq_eq]
    exact same
  exact forall₂_map_right_iff.mp (forall₂_map_left_iff.mp related)

/-- Entry by entry, the new table keeps what the old one says of a ramdisk, and
stands for what was written for it. -/
theorem forall₂_retable (bytes : TableEntry → List UInt8) (entries : List TableEntry) :
    Forall₂ (fun new old => new.rest = old.rest ∧
        new.tile.slice (entries.flatMap bytes) = bytes old)
      (retable bytes entries 0) entries := by
  have slices : (retable bytes entries 0).map
      (fun new => new.tile.slice (entries.flatMap bytes)) = entries.map bytes := by
    have tiles := congrArg (List.map (Tile.slice (entries.flatMap bytes)))
      (map_tile_retable bytes entries 0)
    rw [map_map] at tiles
    exact tiles.trans (Tile.map_slice_ofParts [] (entries.map bytes))
  obtain ⟨sameLength, rests⟩ :=
    forall₂_iff_zip.mp (forall₂_of_map_eq (map_rest_retable bytes entries 0))
  obtain ⟨-, slices⟩ := forall₂_iff_zip.mp (forall₂_of_map_eq slices)
  exact forall₂_iff_zip.mpr ⟨sameLength, fun mem => ⟨rests mem, slices mem⟩⟩

end Vendor

/-! ## Repacking -/

/-- A vendor image with a ramdisk table at the start of the file, with component
files for its other blocks.  The table of an image without a ramdisk block is
not looked at before `repack` needs it. -/
structure VendorImage (env : Env) (map : List UInt8) (files : Files) (boot : BootImg)
    (raw : ImgHdr) : Prop where
  accepted : Accepted env map boot
  plain : NoLoader boot.flags
  header : readHdr (env.mapped map) = some raw
  pagePositive : 0 < raw.pageSize
  table : raw.size .vendorRamdiskTable ≠ 0
  tableFits : raw.get .vendorRamdiskTableEntryNum * raw.get .vendorRamdiskTableEntrySize =
    raw.size .vendorRamdiskTable
  terminated : ∀ entry ∈ sourceTable (env.mapped map) raw boot, entry.Terminated
  readable : raw.size .ramdisk = 0 → TableReadable (env.mapped map) raw boot
  exact : Exact raw boot files
  vbmeta : VbmetaFits (env.mapped map) boot

theorem cls_eq_vndV4 (table : raw.size .vendorRamdiskTable ≠ 0) : raw.cls = .vndV4 := by
  have has := has_of_size_ne_zero table
  cases isClass : raw.cls with
  | vndV4 => rfl
  | v0 | v1 | v2 | pxa | v3 | v4 | vndV3 =>
    rw [isClass] at has
    exact absurd has (by decide)

namespace VendorImage

variable {env : Env} {skipComp : Bool} {map : List UInt8} {files : Files} {boot : BootImg}
  {out : List UInt8} {block : Block}

  {raw src : ImgHdr}

section

variable (vendor : VendorImage env map files boot raw)

include vendor

/-- A vendor image has no block that its class does not know. -/
theorem size_eq_zero (missing : ¬ ImgHdr.Has .vndV4 block) : raw.size block = 0 := by
  apply ImgHdr.size_of_not_has
  rw [cls_eq_vndV4 vendor.table]
  exact missing

theorem source : boot.flags.zimageKernel = false ∧ ∃ src, Source (env.mapped map) raw src boot := by
  obtain ⟨found, isHeader, zimage, described⟩ := vendor.accepted.source vendor.plain
  obtain rfl : found = raw := Option.some.inj (isHeader.symm.trans vendor.header)
  exact ⟨zimage (vendor.size_eq_zero (by decide)), described vendor.pagePositive⟩

theorem tableReadable (source : Source (env.mapped map) raw src boot) :
    TableReadable (env.mapped map) src boot := by
  by_cases present : raw.size .ramdisk = 0
  · have sameTable : vendorRamdiskTbl (env.mapped map) src boot =
        vendorRamdiskTbl (env.mapped map) raw boot := by
      unfold vendorRamdiskTbl
      rw [source.size .vendorRamdiskTable (by decide) (by decide),
        source.edits.get (by decide), source.edits.get (by decide)]
    unfold TableReadable
    rw [sameTable]
    exact vendor.readable present
  · exact source.table vendor.table present

/-- The entries of the table have the size the program expects. -/
theorem entrySize_eq (source : Source (env.mapped map) raw src boot) :
    raw.get .vendorRamdiskTableEntryNum * entrySize = raw.size .vendorRamdiskTable := by
  obtain ⟨entries, ran, -⟩ := vendor.tableReadable source
  obtain ⟨entrySize, -⟩ := vendorRamdiskTbl_eq source vendor.tableFits vendor.table ran
  rw [← entrySize]
  exact vendor.tableFits

/-- Kernel and extra blob do not exist, so that no compression touches them. -/
theorem uncompressed : Uncompressed skipComp files := by
  have noKernel := vendor.exact.kernel
  have noExtra := vendor.exact.extra
  rw [vendor.size_eq_zero (by decide)] at noKernel noExtra
  simp only [ne_eq, not_true_eq_false, iff_false, Option.not_isSome_iff_eq_none] at noKernel noExtra
  exact .inr ⟨noKernel, noExtra⟩

end

/-- The blocks of the new image. -/
def pieces (env : Env) (skipComp : Bool) (map : List UInt8) (files : Files) (boot : BootImg)
    (raw : ImgHdr) : List Piece :=
  let bytes := entryBytes env skipComp (env.mapped map) boot files
  let entries := sourceTable (env.mapped map) raw boot
  blockPieces (env.mapped map) raw boot files (entries.flatMap bytes)
    ((retable bytes entries 0).flatMap TableEntry.encode)

/-- Repacking a vendor image lays out what is written for the entries and the
updated table, and the new header is read back. -/
theorem repack_eq (vendor : VendorImage env map files boot raw) (skipComp : Bool) :
    ∃ out hdr, repack env skipComp map files = .ok out ∧ readHdr out = some hdr ∧
      Repacked raw (pieces env skipComp map files boot raw) hdr out := by
  obtain ⟨noZimage, src, source⟩ := vendor.source
  have isVndV4 := cls_eq_vndV4 vendor.table
  have has : ImgHdr.Has raw.cls .ramdisk := by
    rw [isVndV4]
    decide
  have full := length_retable_sourceTable source (vendor.entrySize_eq source)
    (entryBytes env skipComp (env.mapped map) boot files)
  have page : PageFits raw := by
    intro notVendor
    rw [isVndV4] at notVendor
    cases notVendor
  obtain ⟨out, hdr, ran, repacked⟩ :=
    repackFrom_of_laid source env map rfl vendor.pagePositive page vendor.vbmeta
      fun aligned laid => laid_writeBlocks_of_ramdisk env source noZimage vendor.exact
        vendor.pagePositive vendor.uncompressed aligned laid
        (fun laidKernel => by
          obtain ⟨after, updated, step, laidRamdisk, sameLength, encoded⟩ :=
            laid_writeRamdisk_table env source vendor.tableFits vendor.table
              (vendor.tableReadable source) (fun _ _ isFormat => entryBytes_of_fmt isFormat)
              has vendor.pagePositive aligned (by simp) laidKernel
          exact ⟨after, updated, step, laidRamdisk, encoded,
            updated_ne_nil_iff vendor.table vendor.tableFits sameLength⟩)
        full
  refine ⟨out, hdr, ?_, ?_, repacked⟩
  · rw [repack, vendor.accepted.bootImg_eq, ok_bind, source.hdr]
    exact ran
  · apply repacked.readHdr_eq source.header vendor.header
    intro isV0
    rw [isVndV4] at isV0
    cases isV0

/-- The ramdisk block of a vendor image with a table has no MTK header. -/
theorem patched_ramdisk (source : Source (env.mapped map) raw src boot)
    (table : raw.size .vendorRamdiskTable ≠ 0) (ramdisk : List UInt8) :
    (ramdiskPieceOf (env.mapped map) boot ramdisk).patched = ramdisk := by
  have noMtk : sourceMtkHdr boot.flags.mtkRamdisk (env.mapped map) boot.rHdr = [] := by
    apply if_neg
    intro isSet
    exact table (source.mtkRamdisk isSet).2.1
  rw [Piece.patched_of_nil noMtk]
  exact congrArg (· ++ ramdisk) noMtk

/-- A component without a block in the source has no file. -/
theorem getD_eq_nil (vendor : VendorImage env map files boot raw) {file : Option (List UInt8)}
    (exact : file.isSome ↔ raw.size block ≠ 0) (missing : ¬ ImgHdr.Has .vndV4 block) :
    file.getD [] = [] := by
  rw [vendor.size_eq_zero missing, ne_eq, eq_self, not_true_eq_false, iff_false,
    Option.not_isSome_iff_eq_none] at exact
  rw [exact, Option.getD_none]

/-- All blocks of the new image have sizes of 32 bits, if the ramdisks together
and the two other files do. -/
theorem small (vendor : VendorImage env map files boot raw)
    (source : Source (env.mapped map) raw src boot)
    (ramdisks : ((sourceTable (env.mapped map) raw boot).flatMap
      (entryBytes env skipComp (env.mapped map) boot files)).length < 2 ^ 32)
    (dtb : (files.dtb.getD []).length < 2 ^ 32)
    (bootconfig : (files.bootconfig.getD []).length < 2 ^ 32) :
    ∀ piece ∈ pieces env skipComp map files boot raw, piece.patched.length < 2 ^ 32 := by
  have noKernel : raw.size .kernel = 0 := vendor.size_eq_zero (by decide)
  have kernelMtk : sourceMtkHdr boot.flags.mtkKernel (env.mapped map) boot.kHdr = [] :=
    if_neg fun isSet => (source.mtkKernel isSet).1 noKernel
  have noKernelDtb : files.kernelDtb.getD [] = [] := by
    cases isDtb : files.kernelDtb with
    | none => rfl
    | some data =>
      have present := vendor.exact.kernelDtb.mp (by rw [isDtb]; rfl)
      exact absurd noKernel (source.kernelDtb present)
  have full := length_retable_sourceTable source (vendor.entrySize_eq source)
    (entryBytes env skipComp (env.mapped map) boot files)
  have tableSmall := raw.size_lt .vendorRamdiskTable
  have signatureSmall := raw.size_lt .signature
  intro piece mem
  simp only [pieces, blockPieces, mem_cons, not_mem_nil, or_false] at mem
  rcases mem with rfl | rfl | rfl | rfl | rfl | rfl | rfl | rfl | rfl
  · rw [Piece.length_patched, kernelPiece, kernelMtk, noKernelDtb,
      vendor.getD_eq_nil vendor.exact.kernel (by decide)]
    decide
  · rw [patched_ramdisk source vendor.table]
    exact ramdisks
  · rw [vendor.getD_eq_nil vendor.exact.second (by decide)]
    decide
  · rw [vendor.getD_eq_nil vendor.exact.extra (by decide)]
    decide
  · rw [vendor.getD_eq_nil vendor.exact.recoveryDtbo (by decide)]
    decide
  · exact dtb
  · exact (length_take_le _ _).trans_lt signatureSmall
  · exact full.trans_lt tableSmall
  · exact bootconfig

/-- The blocks a walk over the new image finds. -/
theorem walkBlock_eq (source : Source (env.mapped map) raw src boot)
    (table : raw.size .vendorRamdiskTable ≠ 0)
    (walked : walk out = some ((pieces env skipComp map files boot raw).map fun piece =>
      (piece.patched, zeros (padding raw.pageSize piece.patched.length)))) :
    walkBlock out .ramdisk = some ((sourceTable (env.mapped map) raw boot).flatMap
        (entryBytes env skipComp (env.mapped map) boot files)) ∧
      walkBlock out .vendorRamdiskTable = some ((retable
        (entryBytes env skipComp (env.mapped map) boot files)
        (sourceTable (env.mapped map) raw boot) 0).flatMap encode) := by
  unfold walkBlock
  rw [walked]
  constructor
  · exact congrArg some (patched_ramdisk source table _)
  · rfl

/-- The new entries have sizes and offsets of 32 bits, and all their bytes. -/
theorem retable_fits (source : Source (env.mapped map) raw src boot)
    (fits : raw.get .vendorRamdiskTableEntryNum * entrySize = raw.size .vendorRamdiskTable)
    {bytes : TableEntry → List UInt8}
    (ramdisks : ((sourceTable (env.mapped map) raw boot).flatMap bytes).length < 2 ^ 32) :
    ∀ entry ∈ retable bytes (sourceTable (env.mapped map) raw boot) 0,
      entry.ramdiskSize < 2 ^ 32 ∧ entry.ramdiskOffset < 2 ^ 32 ∧ entry.rest.length = 100 := by
  intro entry mem
  have tile : entry.tile ∈ Tile.ofParts 0 ((sourceTable (env.mapped map) raw boot).map bytes) := by
    rw [← map_tile_retable]
    exact mem_map_of_mem mem
  have inside : entry.ramdiskOffset + entry.ramdiskSize ≤
      0 + ((sourceTable (env.mapped map) raw boot).flatMap bytes).length :=
    Tile.le_of_mem_ofParts tile
  have rest : entry.rest.length = 100 := by
    have rests : entry.rest ∈ (sourceTable (env.mapped map) raw boot).map rest := by
      rw [← map_rest_retable bytes _ 0]
      exact mem_map_of_mem mem
    obtain ⟨old, oldMem, sameRest⟩ := mem_map.mp rests
    rw [← sameRest]
    exact length_rest_sourceTable source fits old oldMem
  exact ⟨by omega, by omega, rest⟩

section

variable (vendor : VendorImage env map files boot raw)

include vendor

/-- Every entry of the source can be looked at. -/
theorem exists_entryFmt : ∀ entry ∈ sourceTable (env.mapped map) raw boot,
      ∃ format, entryFmt (env.mapped map) boot entry = .ok format := by
  obtain ⟨-, src, source⟩ := vendor.source
  obtain ⟨entries, ran, looked⟩ := vendor.tableReadable source
  obtain ⟨-, rfl⟩ := vendorRamdiskTbl_eq source vendor.tableFits vendor.table ran
  exact looked

/-- Ramdisks that together have a size of 32 bits are tiled. -/
theorem tableTiled_of_lt (ramdisks : ramdisksSize env skipComp (env.mapped map) boot files
      (sourceTable (env.mapped map) raw boot) < 2 ^ 32) (dtb : (files.dtb.getD []).length < 2 ^ 32)
    (bootconfig : (files.bootconfig.getD []).length < 2 ^ 32) {hdr : ImgHdr}
    (readBack : readHdr out = some hdr)
    (repacked : Repacked raw (pieces env skipComp map files boot raw) hdr out) :
    TableTiled env skipComp (env.mapped map) boot files
      (sourceTable (env.mapped map) raw boot) out := by
  rw [ramdisksSize, ← length_flatMap] at ramdisks
  obtain ⟨-, src, source⟩ := vendor.source
  let bytes := entryBytes env skipComp (env.mapped map) boot files
  let entries := sourceTable (env.mapped map) raw boot
  let table := retable bytes entries 0
  have walked := repacked.walk_eq vendor.pagePositive readBack rfl
    (vendor.small source ramdisks dtb bootconfig)
  obtain ⟨ramdiskBlock, tableBlock⟩ := walkBlock_eq source vendor.table walked
  have forEach := forall₂_retable bytes entries
  have count : hdr.get .vendorRamdiskTableEntryNum = table.length := by
    rw [forEach.length_eq]
    exact (repacked.edits.get (by decide)).trans (length_decodeAll _ _).symm
  have tableRead : imageTable out = some table := by
    have fits := retable_fits source (vendor.entrySize_eq source) ramdisks
    unfold imageTable
    rw [readBack, tableBlock]
    dsimp only [Option.bind_eq_bind, Option.bind_some]
    rw [count, decodeAll_encoded fits]
    rfl
  have sized : hdr.size .ramdisk = (entries.flatMap bytes).length := by
    have counted := repacked.sizes (ramdiskPieceOf (env.mapped map) boot (entries.flatMap bytes))
      (mem_cons_of_mem _ mem_cons_self)
    rw [patched_ramdisk source vendor.table, Nat.mod_eq_of_lt ramdisks] at counted
    exact counted
  refine ⟨hdr, entries.flatMap bytes, table, readBack, ramdiskBlock, tableRead, ?_, ?_⟩
  · rw [map_tile_retable, sized]
    exact Tile.tiling_ofParts _
  · rw [forall₂_iff_zip] at forEach ⊢
    refine ⟨forEach.1, fun {new old} mem => ?_⟩
    obtain ⟨sameRest, slice⟩ := forEach.2 mem
    have oldMem := (of_mem_zip mem).2
    obtain ⟨format, isFormat⟩ := vendor.exists_entryFmt old oldMem
    exact ⟨sameRest, (newRamdisk_iff (vendor.terminated old oldMem) isFormat _).mpr slice⟩

/-- A table that tiles the ramdisk block counts all new ramdisks with a header
field of 32 bits. -/
theorem lt_of_tableTiled (tiled : TableTiled env skipComp (env.mapped map) boot files
      (sourceTable (env.mapped map) raw boot) out) :
    ramdisksSize env skipComp (env.mapped map) boot files
      (sourceTable (env.mapped map) raw boot) < 2 ^ 32 := by
  obtain ⟨hdr, ramdisk, table, -, -, -, tiling, forEach⟩ := tiled
  have counted : Forall₂ (fun old new =>
      (entryBytes env skipComp (env.mapped map) boot files old).length ≤ new.tile.size)
      (sourceTable (env.mapped map) raw boot) table := by
    rw [forall₂_iff_zip] at forEach
    refine forall₂_iff_zip.mpr ⟨forEach.1.symm, fun {old new} mem => ?_⟩
    have swapped : (new, old) ∈ table.zip (sourceTable (env.mapped map) raw boot) := by
      rw [← zip_swap]
      exact mem_map_of_mem mem
    have oldMem := (of_mem_zip swapped).2
    obtain ⟨format, isFormat⟩ := vendor.exists_entryFmt old oldMem
    have slice := (newRamdisk_iff (vendor.terminated old oldMem) isFormat _).mp
      (forEach.2 swapped).2
    rw [← slice]
    exact length_take_le _ _
  have summed := (forall₂_map_left_iff.mpr (forall₂_map_right_iff.mpr counted)).sum_le_sum
  have total := tiling.total
  rw [map_map] at total
  calc ramdisksSize env skipComp (env.mapped map) boot files (sourceTable (env.mapped map) raw boot)
      ≤ (table.map (Tile.size ∘ tile)).sum := summed
    _ = hdr.size .ramdisk := total
    _ < 2 ^ 32 := hdr.size_lt .ramdisk

end

end VendorImage

/-- Repacking a vendor image with a ramdisk table succeeds.  The entries of the
new table tile the ramdisk block of the new image, keep their types, names and
board ids, and stand for the files of their names, exactly if the new ramdisks
together have a size of 32 bits. -/
theorem repack_tableTiled (env : Env) (skipComp : Bool) (map : List UInt8) (files : Files)
    (boot : BootImg) (raw : ImgHdr) (vendor : VendorImage env map files boot raw)
    (dtb : (files.dtb.getD []).length < 2 ^ 32)
    (bootconfig : (files.bootconfig.getD []).length < 2 ^ 32) :
    ∃ out, repack env skipComp map files = .ok out ∧
      (TableTiled env skipComp (env.mapped map) boot files
          (sourceTable (env.mapped map) raw boot) out ↔
        ramdisksSize env skipComp (env.mapped map) boot files
          (sourceTable (env.mapped map) raw boot) < 2 ^ 32) := by
  obtain ⟨out, hdr, ran, readBack, repacked⟩ := vendor.repack_eq skipComp
  refine ⟨out, ran, ?_⟩
  constructor
  · intro tiled
    exact vendor.lt_of_tableTiled tiled
  · intro ramdisks
    exact vendor.tableTiled_of_lt ramdisks dtb bootconfig readBack repacked

/-! ## An image with two ramdisks -/

/-- An entry with a name in its field, a type and no board id. -/
def namedEntry (size offset type : Nat) (name : List UInt8) : TableEntry where
  ramdiskSize := size
  ramdiskOffset := offset
  rest := leBytes 4 type ++ (name ++ (zeros (32 - name.length) ++ zeros 64))

/-- A vendor image with pages of 16 bytes, two ramdisks of two bytes and a table
that calls the second one `dlkm`. -/
def tableImage : List UInt8 :=
  vendorBootMagic ++ ([4, 0, 0, 0] ++ ([16, 0, 0, 0] ++ (zeros 8 ++ ([4, 0, 0, 0] ++ (zeros 2084 ++
    ([216, 0, 0, 0] ++ ([2, 0, 0, 0] ++ ([108, 0, 0, 0] ++ (zeros 4 ++
      ([1, 2, 3, 4] ++ (zeros 12 ++
        ([namedEntry 2 0 1 [], namedEntry 2 2 3 (utf8 "dlkm")].flatMap TableEntry.encode))))))))))))

/-- Everything about this image that an evaluation can show. -/
def tableImageFacts (raw : ImgHdr) (boot : BootImg) : Bool :=
  let entries := sourceTable (plainEnv.mapped tableImage) raw boot
  boot.flags == {} && boot.kernelDtb == {} &&
    (raw.pageSize == 16 && (raw.get .vendorRamdiskTableEntryNum == 2 &&
      (raw.get .vendorRamdiskTableEntrySize == 108 &&
        (Block.all.map raw.size == [0, 4, 0, 0, 0, 0, 0, 216, 0] &&
          (entries.all (fun entry => decide entry.Terminated) &&
            entries.map TableEntry.ramdiskName == [[], utf8 "dlkm"])))))

theorem evaluated_tableImage :
    (match readHdr (plainEnv.mapped tableImage), parseImage plainEnv tableImage {} 0 .aospVendor with
      | some raw, .ok (true, boot) => tableImageFacts raw boot
      | _, _ => false) = true := by
  decide +kernel

theorem vendorImage_tableImage (vendorRamdisk : List UInt8 → Option (List UInt8)) :
    ∃ boot raw, VendorImage plainEnv tableImage { vendorRamdisk := vendorRamdisk } boot raw ∧
      (sourceTable (plainEnv.mapped tableImage) raw boot).map ramdiskName =
        [[], utf8 "dlkm"] := by
  have isVendor : checkFmt (plainEnv.mapped tableImage) tableImage.length = .aospVendor := by
    decide +kernel
  have evaluated := evaluated_tableImage
  split at evaluated
  · rename_i raw boot header parsed
    simp only [tableImageFacts, Bool.and_eq_true, beq_iff_eq, all_eq_true,
      decide_eq_true_iff] at evaluated
    obtain ⟨⟨flags, kernelDtb⟩, pageSize, entryNum, entrySize, sizes, terminated, names⟩ :=
      evaluated
    simp only [Block.all, map_cons, List.cons.injEq] at sizes
    obtain ⟨kernel, ramdisk, second, extra, recoveryDtbo, dtb, signature, table, bootconfig⟩ :=
      sizes
    refine ⟨boot, raw, ?_, names⟩
    exact
      { accepted := ⟨.inr isVendor, by rw [isVendor]; exact parsed⟩
        plain := by rw [flags]; rfl
        header := header
        pagePositive := by omega
        table := by omega
        tableFits := by rw [entryNum, entrySize, table]
        terminated := terminated
        readable := fun absent => absurd absent (by omega)
        exact := by constructor <;> simp [*]
        vbmeta := fun isAvb => by rw [flags] at isAvb; cases isAvb }
  · cases evaluated

/-- The size of the ramdisk block when all files are the same. -/
theorem ramdisksSize_of_same {env : Env} {map data : List UInt8} {boot : BootImg}
    (vendor : VendorImage env map { vendorRamdisk := fun _ => some data } boot raw) :
    ramdisksSize env true (env.mapped map) boot { vendorRamdisk := fun _ => some data }
        (sourceTable (env.mapped map) raw boot) =
      (sourceTable (env.mapped map) raw boot).length * data.length := by
  have same : ∀ entry ∈ sourceTable (env.mapped map) raw boot,
      (entryBytes env true (env.mapped map) boot { vendorRamdisk := fun _ => some data }
        entry).length = data.length := by
    intro entry mem
    obtain ⟨format, isFormat⟩ := vendor.exists_entryFmt entry mem
    rw [← entryBytes_of_fmt isFormat]
    rfl
  rw [ramdisksSize, map_congr_left same, map_const', sum_replicate, smul_eq_mul]

/-- Two ramdisks of three bytes are tiled. -/
theorem repack_tableTiled_threeBytes :
    ∃ boot raw out, VendorImage plainEnv tableImage { vendorRamdisk := fun _ => some [5, 6, 7] }
        boot raw ∧
      repack plainEnv true tableImage { vendorRamdisk := fun _ => some [5, 6, 7] } = .ok out ∧
      TableTiled plainEnv true (plainEnv.mapped tableImage) boot
        { vendorRamdisk := fun _ => some [5, 6, 7] }
        (sourceTable (plainEnv.mapped tableImage) raw boot) out := by
  obtain ⟨boot, raw, vendor, names⟩ := vendorImage_tableImage fun _ => some [5, 6, 7]
  obtain ⟨out, ran, tiled⟩ := repack_tableTiled plainEnv true tableImage
    { vendorRamdisk := fun _ => some [5, 6, 7] } boot raw vendor (by decide) (by decide)
  refine ⟨boot, raw, out, vendor, ran, tiled.mpr ?_⟩
  have two := congrArg length names
  rw [length_map] at two
  rw [ramdisksSize_of_same vendor, two]
  decide

/-- Two ramdisks of half of the address space of an entry are not. -/
theorem repack_not_tableTiled_halves : ∃ boot raw out, VendorImage plainEnv tableImage
        { vendorRamdisk := fun _ => some (zeros (2 ^ 31)) } boot raw ∧
      ((sourceTable (plainEnv.mapped tableImage) raw boot).map TableEntry.ramdiskName).Nodup ∧
      repack plainEnv true tableImage { vendorRamdisk := fun _ => some (zeros (2 ^ 31)) } =
        .ok out ∧
      ¬ TableTiled plainEnv true (plainEnv.mapped tableImage) boot
        { vendorRamdisk := fun _ => some (zeros (2 ^ 31)) }
        (sourceTable (plainEnv.mapped tableImage) raw boot) out := by
  obtain ⟨boot, raw, vendor, names⟩ := vendorImage_tableImage fun _ => some (zeros (2 ^ 31))
  obtain ⟨out, hdr, ran, -, -⟩ := vendor.repack_eq true
  have two := congrArg length names
  rw [length_map] at two
  refine ⟨boot, raw, out, vendor, ?_, ran, ?_⟩
  · rw [names]
    decide
  · intro tiled
    have total := vendor.lt_of_tableTiled tiled
    rw [ramdisksSize_of_same vendor, two, length_zeros] at total
    exact absurd total (by decide)

end Magisk.Boot.Image
