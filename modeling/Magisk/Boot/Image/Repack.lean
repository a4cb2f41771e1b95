import Magisk.Boot.Image.HdrFile
import Magisk.Boot.Image.Parse

/-!
# Repacking a boot image

`repack` writes a new image from a source image and the component files in the
working directory.  It first appends block after block, filling up to the page
size, and then patches the result through a mapping of the output: sizes in
MTK headers, the main header with its checksum, AVB and vendor structures, and
a new signature.

Every write is taken to write all of its bytes, and `sendfile` to send all of a
file.  Offsets are natural numbers; they agree with the 32-bit ones of the
source as long as the output stays below that size.
-/

namespace Magisk.Boot.Image

open Bytes

/-- The component files, those in `vendor_ramdisk` by their name.  The header
file is given as its properties. -/
structure Files where
  header : Option (List (List UInt8 × List UInt8)) := none
  kernel : Option (List UInt8) := none
  kernelDtb : Option (List UInt8) := none
  ramdisk : Option (List UInt8) := none
  vendorRamdisk : List UInt8 → Option (List UInt8) := fun _ => none
  second : Option (List UInt8) := none
  extra : Option (List UInt8) := none
  recoveryDtbo : Option (List UInt8) := none
  dtb : Option (List UInt8) := none
  bootconfig : Option (List UInt8) := none

/-- Positions in the output that the patches need. -/
structure Offsets where
  header : Nat := 0
  kernel : Nat := 0
  ramdisk : Nat := 0
  second : Nat := 0
  extra : Nat := 0
  dtb : Nat := 0
  tail : Nat := 0
  vbmeta : Nat := 0

/-- The output file, the new header and the positions noted. -/
structure Writer where
  out : List UInt8
  hdr : ImgHdr
  off : Offsets := {}

/-! ## Writing blocks -/

namespace Writer

/-- `file_align_with`. -/
def alignWith (writer : Writer) (page : Nat) : Writer :=
  { writer with
    out := writer.out ++ zeros (padding page (writer.out.length - writer.off.header)) }

/-- Append bytes. -/
def append (writer : Writer) (bytes : List UInt8) : Writer :=
  { writer with out := writer.out ++ bytes }

/-- Write a file into a block of its own, if the file exists. -/
def writeFile (writer : Writer) (page : Nat) (block : Block) : Option (List UInt8) → Writer
  | some data =>
    ({ writer with hdr := writer.hdr.setSize block data.length }.append data).alignWith page
  | none => writer

end Writer

/-- A component as it is written: compressed again when the source was. -/
def encoded (env : Env) (skipComp : Bool) (format target : FileFormat) (data : List UInt8) :
    List UInt8 :=
  if !skipComp && !(checkFmt data data.length).isCompressedAny && format.isCompressed then
    env.compress target data
  else data

/-- Read a part of the source when a flag says that it exists. -/
def readIf (flag : Bool) (mapped : List UInt8) (address count : Nat) :
    Except Abort (List UInt8) :=
  if flag then read mapped address count else return []

section Write

variable (env : Env) (skipComp : Bool) (mapped : List UInt8) (boot : BootImg) (src : ImgHdr)
  (files : Files)

/-- The kernel proper: the file, or else what the source has. -/
def kernelBytes (hdr : ImgHdr) : Except Abort (List UInt8 × ImgHdr) :=
  match files.kernel with
  | some data =>
    let target := if boot.flags.zimageKernel ∧ boot.kFmt = .gzip then .zopfli else boot.kFmt
    let bytes := encoded env skipComp boot.kFmt target data
    let hdr := hdr.setSize .kernel bytes.length
    if boot.flags.zimageKernel then
      let hdr' := hdr.setSize .kernel (src.size .kernel)
      if src.size .kernel < hdr.size .kernel then do
        let original ← read mapped (boot.block .kernel) (src.size .kernel)
        return (original, hdr')
      else if skipComp then return (bytes, hdr')
      else
        let fill := zeros ((src.size .kernel - hdr.size .kernel + 2 ^ 64 - 4) % 2 ^ 64)
        return (bytes ++ (fill ++ leBytes 4 data.length), hdr')
    else return (bytes, hdr)
  | none =>
    if src.size .kernel ≠ 0 then do
      let original ← read mapped (boot.block .kernel) (src.size .kernel)
      return (original, hdr.setSize .kernel (src.size .kernel))
    else return ([], hdr)

/-- Count the zImage parts around the kernel proper. -/
def addZimageSize (tail : List UInt8) (hdr : ImgHdr) : ImgHdr :=
  if boot.flags.zimageKernel then
    let hdr := hdr.setSize .kernel (hdr.size .kernel + boot.zHdrSz)
    hdr.setSize .kernel (hdr.size .kernel + tail.length)
  else hdr

/-- Count the device tree appended to the kernel. -/
def addDtbSize (hdr : ImgHdr) : ImgHdr :=
  match files.kernelDtb with
  | some data => hdr.setSize .kernel (hdr.size .kernel + data.length)
  | none => hdr

/-- The kernel block. -/
def writeKernel (writer : Writer) : Except Abort Writer := do
  let mtkHdr ← readIf boot.flags.mtkKernel mapped boot.kHdr 512
  let zHdr ← readIf boot.flags.zimageKernel mapped boot.zHdr boot.zHdrSz
  let (kernel, hdr) ← kernelBytes env skipComp mapped boot src files writer.hdr
  let zTail ← readIf boot.flags.zimageKernel mapped boot.zTail.address boot.zTail.size
  let writer' : Writer :=
    { writer with
      hdr := addDtbSize files (addZimageSize boot zTail hdr)
      off := { writer.off with kernel := writer.out.length } }
  return (writer'.append
    (mtkHdr ++ (zHdr ++ (kernel ++ (zTail ++ files.kernelDtb.getD []))))).alignWith src.pageSize

/-- The file in `vendor_ramdisk` for an entry of the table. -/
def entryFile (entry : TableEntry) : List UInt8 :=
  let name := (entry.rest.drop 4).takeWhile (· != 0)
  if name = [] then utf8 "ramdisk.cpio" else (name ++ utf8 ".cpio").take 63

/-- The loop over the ramdisk table: the ramdisks one behind the other, their
total size, and the table with the new sizes and offsets. -/
def writeEntries : List TableEntry → Nat → Except Abort (List UInt8 × Nat × List TableEntry)
  | [], offset => return ([], offset, [])
  | entry :: entries, offset => do
      let data := (files.vendorRamdisk (entryFile entry)).getD []
      let format ← entryFmt mapped boot entry
      let bytes := encoded env skipComp format format data
      let (rest, total, table) ← writeEntries entries ((offset + bytes.length) % 2 ^ 32)
      return (bytes ++ rest, total,
        { entry with ramdiskSize := bytes.length, ramdiskOffset := offset } :: table)

/-- The ramdisk block, and the table to be written later.  Without a ramdisk
file the block is not filled up to the page size. -/
def writeRamdisk (writer : Writer) : Except Abort (Writer × List TableEntry) := do
  let mtkHdr ← readIf boot.flags.mtkRamdisk mapped boot.rHdr 512
  let writer : Writer :=
    { writer with off := { writer.off with ramdisk := writer.out.length } }.append mtkHdr
  if src.size .vendorRamdiskTable ≠ 0 then
    let entries ← vendorRamdiskTbl mapped src boot
    let (bytes, total, table) ← writeEntries env skipComp mapped boot files entries 0
    let writer' : Writer := { writer with hdr := writer.hdr.setSize .ramdisk total }
    return ((writer'.append bytes).alignWith src.pageSize, table)
  else
    let format :=
      if !skipComp && !src.cls.isVendor && src.get .headerVersion == 4 &&
        boot.rFmt != .lz4Legacy then .lz4Legacy else boot.rFmt
    return (writer.writeFile src.pageSize .ramdisk
      (files.ramdisk.map (encoded env skipComp format format)), [])

/-- The `second` block. -/
def writeSecond (writer : Writer) : Writer :=
  { writer with off := { writer.off with second := writer.out.length } }.writeFile
    src.pageSize .second files.second

/-- The `extra` block. -/
def writeExtra (writer : Writer) : Writer :=
  { writer with off := { writer.off with extra := writer.out.length } }.writeFile
    src.pageSize .extra (files.extra.map (encoded env skipComp boot.eFmt boot.eFmt))

/-- The `recovery_dtbo` block, whose position is a field of the header. -/
def writeRecoveryDtbo (writer : Writer) : Writer :=
  match files.recoveryDtbo with
  | some data =>
    { writer with hdr := writer.hdr.set .recoveryDtboOffset writer.out.length }.writeFile
      src.pageSize .recoveryDtbo (some data)
  | none => writer

/-- The `dtb` block. -/
def writeDtb (writer : Writer) : Writer :=
  { writer with off := { writer.off with dtb := writer.out.length } }.writeFile
    src.pageSize .dtb files.dtb

/-- The boot signature, copied from the source. -/
def writeSignature (writer : Writer) : Except Abort Writer :=
  if src.size .signature ≠ 0 then do
    let bytes ← read mapped (boot.block .signature) (src.size .signature)
    return (writer.append bytes).alignWith src.pageSize
  else return writer

/-- The vendor ramdisk table. -/
def writeTable (table : List TableEntry) (writer : Writer) : Writer :=
  if table ≠ [] then
    (writer.append (table.flatMap TableEntry.encode)).alignWith src.pageSize
  else writer

/-- The header space and all blocks. -/
def writeBlocks (writer : Writer) : Except Abort Writer := do
  let writer ← writeKernel env skipComp mapped boot src files writer
  let (writer, table) ← writeRamdisk env skipComp mapped boot src files writer
  let writer := writeSecond src files writer
  let writer := writeExtra env skipComp boot src files writer
  let writer := writeRecoveryDtbo src files writer
  let writer := writeDtb src files writer
  let writer ← writeSignature mapped boot src writer
  let writer := writeTable src table writer
  return writer.writeFile src.pageSize .bootconfig files.bootconfig

end Write

/-! ## Behind the blocks -/

section Finish

variable (env : Env) (mapped : List UInt8) (boot : BootImg) (src : ImgHdr)

/-- The magics some vendors put behind the image. -/
def vendorTrailer : List UInt8 :=
  if boot.flags.seandroid then
    seandroidMagic ++ (if boot.flags.dhtb then List.replicate 4 0xff else [])
  else if boot.flags.lgBump then lgBumpMagic
  else []

/-- The AVB footer of the source. -/
def sourceFooter : List UInt8 :=
  window mapped boot.avbFooter 64

/-- `vbmeta_size` in the AVB footer of the source. -/
def vbmetaSize : Nat :=
  ofBe (window (sourceFooter mapped boot) 28 8)

/-- The vbmeta blob, on a boundary of 4096 bytes. -/
def writeVbmeta (writer : Writer) : Except Abort Writer :=
  if boot.flags.avb then do
    let writer := writer.alignWith 4096
    let vbmeta ← read mapped boot.vbmeta (vbmetaSize mapped boot)
    return { writer with off := { writer.off with vbmeta := writer.out.length } }.append vbmeta
  else return writer

/-- Fill up to the size of the source, except for ChromeOS images. -/
def padToSource (size : Nat) (writer : Writer) : Writer :=
  if boot.flags.chromeos then writer else writer.append (zeros (size - writer.out.length))

/-- Everything that is appended behind the blocks. -/
def writeTail (size : Nat) (writer : Writer) : Except Abort Writer := do
  let writer := writer.append (vendorTrailer boot)
  let writer : Writer := { writer with off := { writer.off with tail := writer.out.length } }
  let writer ← writeVbmeta mapped boot (writer.alignWith src.pageSize)
  return padToSource boot size writer

/-! ## Patching the image -/

/-- Store the size of the contents in the MTK header of a block, and count the
header itself. -/
def patchMtk (flag : Bool) (block : Block) (start : Nat) (writer : Writer) : Writer :=
  if flag then
    { writer with
      out := poke writer.out (start + 4) (leBytes 4 (writer.hdr.size block))
      hdr := writer.hdr.setSize block (writer.hdr.size block + 512) }
  else writer

/-- The MTK headers of kernel and ramdisk. -/
def patchMtks (writer : Writer) : Writer :=
  let writer := patchMtk boot.flags.mtkKernel .kernel writer.off.kernel writer
  patchMtk boot.flags.mtkRamdisk .ramdisk writer.off.ramdisk writer

/-- A block and its size, as they enter the checksum. -/
def digestPart (out : List UInt8) (start size : Nat) : List UInt8 :=
  window out start size ++ leBytes 4 size

/-- The bytes the checksum is taken of. -/
def digestInput (writer : Writer) : List UInt8 :=
  let hdr := writer.hdr
  let version := hdr.get .headerVersion
  digestPart writer.out writer.off.kernel (hdr.size .kernel) ++
    (digestPart writer.out writer.off.ramdisk (hdr.size .ramdisk) ++
      (digestPart writer.out writer.off.second (hdr.size .second) ++
        ((if hdr.size .extra ≠ 0 then digestPart writer.out writer.off.extra (hdr.size .extra)
          else []) ++
          ((if version = 1 ∨ version = 2 then
              digestPart writer.out (hdr.get .recoveryDtboOffset) (hdr.size .recoveryDtbo)
            else []) ++
            (if version = 2 then digestPart writer.out writer.off.dtb (hdr.size .dtb) else [])))))

/-- The header size and the checksum of the new header. -/
def updateHeader (writer : Writer) : Writer :=
  let writer := { writer with hdr := writer.hdr.set .headerSize writer.hdr.cls.hdrSize }
  let digest :=
    if boot.flags.sha256 then env.sha256 (digestInput writer) else env.sha1 (digestInput writer)
  { writer with hdr := (writer.hdr.put .id (zeros 32)).put .id digest }

/-- Copy the new header over the old one. -/
def copyHeader (writer : Writer) : List UInt8 :=
  let hdr := writer.hdr
  if boot.flags.amonet then
    let realHdrSz :=
      if hdr.hdrSpace < 1024 then hdr.cls.hdrSize else min (hdr.hdrSpace - 1024) hdr.cls.hdrSize
    poke writer.out (writer.off.header + 1024) (hdr.raw.take realHdrSz)
  else poke writer.out writer.off.header hdr.raw

/-- `aosp_img_size`. -/
def Offsets.aospImgSize (off : Offsets) : Nat :=
  off.tail - off.header

/-- Put the AVB footer at the end and update what it says. -/
def patchAvb (off : Offsets) (out : List UInt8) : List UInt8 :=
  if boot.flags.avb then
    let footer := poke (poke (sourceFooter mapped boot) 12 (beBytes 8 off.aospImgSize)) 20
      (beBytes 8 off.vbmeta)
    let out := poke out (out.length - 64) footer
    if env.patchVbmetaFlag then poke out (off.vbmeta + 120) (beBytes 4 3) else out
  else out

/-- Update the size and the checksum in a DHTB or blob header. -/
def patchVendor (off : Offsets) (out : List UInt8) : List UInt8 :=
  if boot.flags.dhtb then
    let size := (off.aospImgSize + 16 + 4) % 2 ^ 32
    let out := poke out 48 (leBytes 4 size)
    poke out 8 (env.sha256 (window out 512 size))
  else if boot.flags.blob then poke out 96 (leBytes 4 off.aospImgSize)
  else out

/-- Sign the image again, behind its last block. -/
def signImage (off : Offsets) (out : List UInt8) : List UInt8 :=
  if boot.flags.avb1Signed then
    let signature := env.signPayload (window out off.header off.aospImgSize)
    if signature ≠ [] then
      out.take off.tail ++ (signature ++ out.drop (off.tail + signature.length))
    else out
  else out

/-- The patches, in their order. -/
def patchImage (writer : Writer) : List UInt8 :=
  let writer := updateHeader env boot (patchMtks boot writer)
  signImage env boot writer.off
    (patchVendor env boot writer.off
      (patchAvb env mapped boot writer.off (copyHeader boot writer)))

end Finish

/-! ## The command -/

/-- The vendor header that is copied in front of the image. -/
def loaderHdr (mapped : List UInt8) (boot : BootImg) : Except Abort (List UInt8) :=
  if boot.flags.dhtb then read mapped 0 512
  else if boot.flags.blob then read mapped 0 104
  else if boot.flags.nookhd then read mapped 0 1048576
  else if boot.flags.acclaim then read mapped 0 262144
  else return []

/-- The clone of the source's header that `repack` starts from. -/
def freshHdr (env : Env) (files : Files) (src : ImgHdr) : ImgHdr :=
  let hdr := ((((src.setSize .kernel 0).setSize .ramdisk 0).setSize .second 0).setSize .dtb 0)
    |>.setSize .bootconfig 0
  match files.header with
  | some props => hdr.loadHdrFile env.stale props
  | none => hdr

/-- `repack` for a parsed source. -/
def repackFrom (env : Env) (skipComp : Bool) (map : List UInt8) (files : Files)
    (boot : BootImg) (src : ImgHdr) : Except Abort (List UInt8) := do
  let mapped := env.mapped map
  let loader ← loaderHdr mapped boot
  let header ← read mapped boot.payload.address src.hdrSpace
  let writer : Writer :=
    { out := loader ++ header
      hdr := freshHdr env files src
      off := { header := loader.length } }
  let writer ← writeBlocks env skipComp mapped boot src files writer
  let writer ← writeTail mapped boot src map.length writer
  return patchImage env mapped boot writer

/-- `repack`. -/
def repack (env : Env) (skipComp : Bool) (map : List UInt8) (files : Files) :
    Except Abort (List UInt8) := do
  let boot ← bootImg env map
  match boot.hdr with
  | some src => repackFrom env skipComp map files boot src
  | none => .error .fault

/-! ## A zImage kernel -/

section Zimage

variable {env : Env} {skipComp : Bool} {mapped : List UInt8} {boot : BootImg} {src hdr : ImgHdr}
  {files : Files} {data : List UInt8}

/-- A new kernel as it is written into a zImage. -/
def piggy (env : Env) (skipComp : Bool) (boot : BootImg) (data : List UInt8) : List UInt8 :=
  encoded env skipComp boot.kFmt (if boot.kFmt = .gzip then .zopfli else boot.kFmt) data

end Zimage

/-- A host without signatures. -/
def plainEnv : Env where
  getpagesize := 4096
  getpagesize_pos := by decide
  verify _ _ := false
  signPayload _ := []
  sha1 _ := zeros 20
  length_sha1 := fun _ => length_zeros 20
  sha256 _ := zeros 32
  length_sha256 := fun _ => length_zeros 32
  compress _ bytes := bytes
  patchVbmetaFlag := false
  stale _ := 0

end Magisk.Boot.Image
