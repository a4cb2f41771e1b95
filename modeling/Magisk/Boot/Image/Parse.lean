import Magisk.Boot.Image.Header

/-!
# Parsing a boot image

The `boot_img` constructor and `parse_image`.  Pointers into the mapped file
are offsets from its start; a `byte_view` is an offset and a size.  The object
is filled in step by step and keeps what was assigned when a step gives up, as
the members of the class do.

Platform services that the result depends on are collected in `Env`.
-/

namespace Magisk.Boot.Image

open Bytes

/-- The services of the platform and of other modules. -/
structure Env where
  /-- `getpagesize`. -/
  getpagesize : Nat
  getpagesize_pos : 0 < getpagesize
  /-- `boot_img::verify` on payload and tail. -/
  verify : List UInt8 → List UInt8 → Bool
  /-- `sign_payload`. -/
  signPayload : List UInt8 → List UInt8
  /-- The digest behind `get_sha(true)`. -/
  sha1 : List UInt8 → List UInt8
  length_sha1 : ∀ bytes, (sha1 bytes).length = 20
  /-- The digest behind `get_sha(false)` and `sha256_hash`. -/
  sha256 : List UInt8 → List UInt8
  length_sha256 : ∀ bytes, (sha256 bytes).length = 32
  /-- What `compress_bytes` writes. -/
  compress : FileFormat → List UInt8 → List UInt8
  /-- `check_env("PATCHVBMETAFLAG")`. -/
  patchVbmetaFlag : Bool
  /-- What uninitialised locals of `load_hdr_file` hold. -/
  stale : Nat → BitVec 32

/-- The mapping of a file: its last page is filled up with zeros. -/
def Env.mapped (env : Env) (map : List UInt8) : List UInt8 :=
  padded env.getpagesize map

/-- `byte_view` into the mapping. -/
structure View where
  address : Nat := 0
  size : Nat := 0
  deriving DecidableEq, Repr

/-- The bits of `flags`. -/
structure Flags where
  mtkKernel : Bool := false
  mtkRamdisk : Bool := false
  chromeos : Bool := false
  dhtb : Bool := false
  seandroid : Bool := false
  lgBump : Bool := false
  sha256 : Bool := false
  blob : Bool := false
  nookhd : Bool := false
  acclaim : Bool := false
  amonet : Bool := false
  avb1Signed : Bool := false
  avb : Bool := false
  zimageKernel : Bool := false
  deriving DecidableEq, Repr

/-- `boot_img`. -/
structure BootImg where
  hdr : Option ImgHdr := none
  flags : Flags := {}
  kFmt : FileFormat := .unknown
  rFmt : FileFormat := .unknown
  eFmt : FileFormat := .unknown
  payload : View := {}
  tail : View := {}
  kHdr : Nat := 0
  rHdr : Nat := 0
  /-- `z_info.hdr`, `z_info.hdr_sz` and `z_info.tail`. -/
  zHdr : Nat := 0
  zHdrSz : Nat := 0
  zTail : View := {}
  avbFooter : Nat := 0
  vbmeta : Nat := 0
  /-- The block pointers. -/
  block : Block → Nat := fun _ => 0
  kernelDtb : View := {}

/-! ## The header -/

/-- `new dyn_img_..(ptr, size)`.  A size beyond the header overruns the heap
buffer. -/
def newHdr (mapped : List UInt8) (address : Nat) (cls : HdrClass) (size : Nat) :
    Except Abort ImgHdr :=
  if cls.hdrSize < size then .error .fault
  else do
    let bytes ← read mapped address size
    return ImgHdr.copy cls bytes

/-- `make_aosp_hdr`, with the whole header as default size. -/
def makeAospHdr (mapped : List UInt8) (address : Nat) (size : Option Nat) :
    Except Abort (Option ImgHdr) :=
  let header := mapped.drop address
  if bufferMatch header bootMagic then do
    let cls := aospClass (ofLe (window header 40 4))
    let hdr ← newHdr mapped address cls (size.getD cls.hdrSize)
    return some hdr
  else return none

/-- `parse_hdr`: the address of the image behind a loader, and the object with
its header and loader flags. -/
def parseHdr (mapped : List UInt8) (boot : BootImg) (address : Nat) (type : FileFormat) :
    Except Abort (Nat × BootImg) :=
  let header := mapped.drop address
  if type = .aospVendor then do
    let cls := vendorClass header
    let hdr ← newHdr mapped address cls cls.hdrSize
    return (address, { boot with hdr := some hdr })
  else if 0x02000000 ≤ ofLe (window header 36 4) then do
    let hdr ← newHdr mapped address .pxa HdrClass.pxa.hdrSize
    return (address, { boot with hdr := some hdr })
  else if (Bytes.find amonetMicroloaderMagic (window header 0 1024)).isSome &&
      bufferMatch (header.drop 1024) bootMagic then do
    let realHdrSz := (ofLe (window (header.drop 1024) 36 4) + 2 ^ 32 - 1024) % 2 ^ 32
    let hdr ← makeAospHdr mapped (address + 1024) (some realHdrSz)
    return (address, { boot with hdr := hdr, flags := { boot.flags with amonet := true } })
  else if nookhdMagics.any (bufferMatch (header.drop 64)) then do
    let hdr ← makeAospHdr mapped (address + 1048576) none
    return (address + 1048576,
      { boot with hdr := hdr, flags := { boot.flags with nookhd := true } })
  else if bufferMatch (header.drop 48) acclaimMagic then do
    let hdr ← makeAospHdr mapped (address + 262144) none
    return (address + 262144,
      { boot with hdr := hdr, flags := { boot.flags with acclaim := true } })
  else do
    let hdr ← makeAospHdr mapped address none
    return (address, { boot with hdr := hdr })

/-! ## The blocks -/

/-- The nine `get_block` steps: whether all of them stay inside the mapping,
the offset reached, and the block pointers assigned so far. -/
def getBlocks (hdr : ImgHdr) (address mapEnd : Nat) :
    List Block → Nat → (Block → Nat) → Bool × Nat × (Block → Nat)
  | [], off, pointers => (true, off, pointers)
  | block :: blocks, off, pointers =>
    let pointers := Function.update pointers block (address + off)
    let off := alignTo (off + hdr.size block) hdr.pageSize
    if mapEnd < address + off then (false, off, pointers)
    else getBlocks hdr address mapEnd blocks off pointers

/-! ## The kernel -/

/-- The loop of `find_dtb_offset` over a buffer from which `size` bytes belong
to the kernel.  Every turn moves on by at least the size of a header. -/
def findDtbFrom (buffer : List UInt8) (size : Nat) : Nat → Nat → Except Abort (Option Nat)
  | 0, _ => return none
  | fuel + 1, start =>
    match Bytes.find dtbMagic (window buffer start (size - start)) with
    | none => return none
    | some skipped => do
        let curr := start + skipped
        let totalsize ← read buffer (curr + 4) 4
        if size - curr < ofBe totalsize ∨ ofBe totalsize ≤ 0x48 then
          findDtbFrom buffer size fuel (curr + 40)
        else
          let offDtStruct ← read buffer (curr + 8) 4
          if size - curr < ofBe offDtStruct then findDtbFrom buffer size fuel (curr + 40)
          else
            let tag ← read buffer (curr + ofBe offDtStruct) 4
            if ofBe tag ≠ 1 then findDtbFrom buffer size fuel (curr + 40)
            else return some curr

/-- `find_dtb_offset`, `none` where the source returns `-1`. -/
def findDtbOffset (buffer : List UInt8) (size : Nat) : Except Abort (Option Nat) :=
  findDtbFrom buffer size size 0

/-- The search for the compressed kernel behind the zImage header. -/
def findPiggy (buffer : List UInt8) (size : Nat) : Nat → Nat → Except Abort (Option Nat)
  | 0, _ => return none
  | fuel + 1, curr =>
    if size ≤ curr then return none
    else do
      let format ← checkFmtLg (buffer.drop curr) (size - curr)
      if format ≠ .unknown then return some curr else findPiggy buffer size fuel (curr + 1)

/-- The end of the compressed kernel: the last of the sixteen words before
`piggySize` that lies within 255 bytes below it. -/
def piggyEnd (piggySize : Nat) (offsets : List UInt8) : Option Nat :=
  (((List.range 16).map fun index => ofLe (window offsets (4 * index) 4)).reverse).find?
    fun offset => decide ((piggySize + 2 ^ 32 - 0xff) % 2 ^ 32 < offset ∧ offset < piggySize)

/-- The sixteen words in front of the end of the zImage. -/
def readOffsets (mapped : List UInt8) (kernel piggySize : Nat) : Except Abort (List UInt8) :=
  if kernel + piggySize < 64 then .error .fault
  else read mapped (kernel + piggySize - 64) 64

/-- `parse_zimage`. -/
def parseZimage (mapped : List UInt8) (hdr : ImgHdr) (boot : BootImg) :
    Except Abort (ImgHdr × BootImg) := do
  let kernel := boot.block .kernel
  let size := hdr.size .kernel
  let boot := { boot with zHdr := kernel }
  match ← findPiggy (mapped.drop kernel) size size 0x28 with
  | none => return (hdr, boot)
  | some hdrSz =>
    let boot := { boot with zHdrSz := hdrSz }
    let bounds ← read mapped (kernel + 40) 8
    let piggySize := (ofLe (bounds.drop 4) + 2 ^ 32 - ofLe (bounds.take 4)) % 2 ^ 32
    let offsets ← readOffsets mapped kernel piggySize
    match piggyEnd piggySize offsets with
    | none => return (hdr, boot)
    | some stop =>
      let hdr' := hdr.setSize .kernel (stop + 2 ^ 32 - hdrSz)
      let kFmt ← checkFmtLg (mapped.drop (kernel + hdrSz)) (hdr'.size .kernel)
      return (hdr',
        { boot with
          flags := { boot.flags with zimageKernel := true }
          zTail := ⟨kernel + stop, (size + 2 ^ 32 - stop) % 2 ^ 32⟩
          block := Function.update boot.block .kernel (kernel + hdrSz)
          kFmt := kFmt })

/-- Cut a device tree off the end of the kernel.  The offset is an `int`. -/
def splitDtb (hdr : ImgHdr) (boot : BootImg) (size : Nat) : Option Nat → ImgHdr × BootImg
  | some offset =>
    if 0 < offset ∧ offset < 2 ^ 31 then
      (hdr.setSize .kernel offset,
        { boot with kernelDtb := ⟨boot.block .kernel + offset, size - offset⟩ })
    else (hdr, boot)
  | none => (hdr, boot)

/-- Step over the MTK header in front of the kernel. -/
def stripMtkKernel (mapped : List UInt8) (hdr : ImgHdr) (boot : BootImg) :
    Except Abort (ImgHdr × BootImg) :=
  if boot.kFmt = .mtk then do
    let kernel := boot.block .kernel
    let _ ← read mapped kernel 512
    let hdr := hdr.setSize .kernel (hdr.size .kernel + 2 ^ 32 - 512)
    let kFmt ← checkFmtLg (mapped.drop (kernel + 512)) (hdr.size .kernel)
    return (hdr,
      { boot with
        flags := { boot.flags with mtkKernel := true }
        kHdr := kernel
        block := Function.update boot.block .kernel (kernel + 512)
        kFmt := kFmt })
  else return (hdr, boot)

/-- What `parse_image` does with a kernel. -/
def parseKernel (mapped : List UInt8) (hdr : ImgHdr) (boot : BootImg) :
    Except Abort (ImgHdr × BootImg) :=
  if hdr.size .kernel = 0 then return (hdr, boot)
  else do
    let dtbOff ← findDtbOffset (mapped.drop (boot.block .kernel)) (hdr.size .kernel)
    let (hdr, boot) := splitDtb hdr boot (hdr.size .kernel) dtbOff
    let kFmt ← checkFmtLg (mapped.drop (boot.block .kernel)) (hdr.size .kernel)
    let (hdr, boot) ← stripMtkKernel mapped hdr { boot with kFmt := kFmt }
    if boot.kFmt = .zimage then parseZimage mapped hdr boot else return (hdr, boot)

/-! ## The ramdisk -/

/-- `vendor_ramdisk_table_entry_v4`: the two words `repack` updates, and the
type, name and board id behind them. -/
structure TableEntry where
  ramdiskSize : Nat
  ramdiskOffset : Nat
  rest : List UInt8

namespace TableEntry

/-- Bytes of a table entry. -/
def entrySize : Nat := 108

def decode (bytes : List UInt8) : TableEntry where
  ramdiskSize := ofLe (window bytes 0 4)
  ramdiskOffset := ofLe (window bytes 4 4)
  rest := bytes.drop 8

def encode (entry : TableEntry) : List UInt8 :=
  leBytes 4 entry.ramdiskSize ++ (leBytes 4 entry.ramdiskOffset ++ entry.rest)

/-- The array of entries at the start of a buffer. -/
def decodeAll : Nat → List UInt8 → List TableEntry
  | 0, _ => []
  | count + 1, bytes => decode (bytes.take entrySize) :: decodeAll count (bytes.drop entrySize)

end TableEntry

/-- `vendor_ramdisk_tbl`. -/
def vendorRamdiskTbl (mapped : List UInt8) (hdr : ImgHdr) (boot : BootImg) :
    Except Abort (List TableEntry) :=
  if hdr.size .vendorRamdiskTable = 0 then return []
  else if hdr.get .vendorRamdiskTableEntrySize ≠ TableEntry.entrySize then .error .exit
  else do
    let count := hdr.get .vendorRamdiskTableEntryNum
    let bytes ← read mapped (boot.block .vendorRamdiskTable) (TableEntry.entrySize * count)
    return TableEntry.decodeAll count bytes

/-- The format of the ramdisk an entry of the source image stands for. -/
def entryFmt (mapped : List UInt8) (boot : BootImg) (entry : TableEntry) :
    Except Abort FileFormat :=
  checkFmtLg (mapped.drop (boot.block .ramdisk + entry.ramdiskOffset)) entry.ramdiskSize

/-- Step over the MTK header in front of the ramdisk. -/
def stripMtkRamdisk (mapped : List UInt8) (hdr : ImgHdr) (boot : BootImg) :
    Except Abort (ImgHdr × BootImg) :=
  if boot.rFmt = .mtk then do
    let ramdisk := boot.block .ramdisk
    let _ ← read mapped ramdisk 512
    let hdr := hdr.setSize .ramdisk (hdr.size .ramdisk + 2 ^ 32 - 512)
    let rFmt ← checkFmtLg (mapped.drop (ramdisk + 512)) (hdr.size .ramdisk)
    return (hdr,
      { boot with
        flags := { boot.flags with mtkRamdisk := true }
        rHdr := ramdisk
        block := Function.update boot.block .ramdisk (ramdisk + 512)
        rFmt := rFmt })
  else return (hdr, boot)

/-- What `parse_image` does with a ramdisk.  The formats of the ramdisks of a
table are only printed. -/
def parseRamdisk (mapped : List UInt8) (hdr : ImgHdr) (boot : BootImg) :
    Except Abort (ImgHdr × BootImg) :=
  if hdr.size .ramdisk = 0 then return (hdr, boot)
  else if hdr.size .vendorRamdiskTable ≠ 0 then do
    let entries ← vendorRamdiskTbl mapped hdr boot
    let _ ← entries.mapM (entryFmt mapped boot)
    return (hdr, boot)
  else do
    let rFmt ← checkFmtLg (mapped.drop (boot.block .ramdisk)) (hdr.size .ramdisk)
    stripMtkRamdisk mapped hdr { boot with rFmt := rFmt }

/-- What `parse_image` does with an extra blob. -/
def parseExtra (mapped : List UInt8) (hdr : ImgHdr) (boot : BootImg) : Except Abort BootImg :=
  if hdr.size .extra = 0 then return boot
  else do
    let eFmt ← checkFmtLg (mapped.drop (boot.block .extra)) (hdr.size .extra)
    return { boot with eFmt := eFmt }

/-! ## The tail -/

/-- The flags of the first bytes of the tail. -/
def tailFlags (env : Env) (mapped : List UInt8) (boot : BootImg) : Flags :=
  let tail := window mapped boot.tail.address boot.tail.size
  let payload := window mapped boot.payload.address boot.payload.size
  if 16 ≤ boot.tail.size ∧ bufferMatch tail seandroidMagic then
    { boot.flags with seandroid := true }
  else if 16 ≤ boot.tail.size ∧ bufferMatch tail lgBumpMagic then
    { boot.flags with lgBump := true }
  else if env.verify payload tail then { boot.flags with avb1Signed := true }
  else boot.flags

/-- The AVB footer in the last 64 bytes, and the vbmeta header it points to. -/
def findAvb (mapped : List UInt8) (boot : BootImg) : Except Abort BootImg := do
  let address := boot.tail.address + boot.tail.size - 64
  let footer ← read mapped address 64
  if bufferMatch footer avbFooterMagic then
    let vbmeta := (boot.payload.address + ofBe (window footer 20 8)) % 2 ^ 64
    let magic ← read mapped vbmeta 4
    if magic = avbMagic then
      return { boot with
        avbFooter := address
        vbmeta := vbmeta
        flags := { boot.flags with avb := true } }
    else return { boot with avbFooter := address }
  else return boot

/-- What `parse_image` does with the bytes behind the payload. -/
def parseTail (env : Env) (mapped : List UInt8) (boot : BootImg) : Except Abort BootImg :=
  if boot.tail.size = 0 then return boot
  else findAvb mapped { boot with flags := tailFlags env mapped boot }

/-! ## The image -/

/-- The id field uses more bytes than a SHA-1 digest and four more. -/
def longId (hdr : ImgHdr) : Bool :=
  ((hdr.field .id).drop 24).any (· != 0)

/-- The flag for a SHA-256 id. -/
def BootImg.checkId (boot : BootImg) (hdr : ImgHdr) : BootImg :=
  { boot with flags := { boot.flags with sha256 := boot.flags.sha256 || longId hdr } }

/-- The object once all blocks are located. -/
def BootImg.withBlocks (boot : BootImg) (address off mapEnd : Nat) (pointers : Block → Nat) :
    BootImg :=
  { boot with
    block := pointers
    payload := ⟨address, off⟩
    tail := ⟨address + off, mapEnd - (address + off)⟩ }

/-- `parse_image`: whether the image is accepted, and the object. -/
def parseImage (env : Env) (map : List UInt8) (boot : BootImg) (address : Nat)
    (type : FileFormat) : Except Abort (Bool × BootImg) := do
  let mapped := env.mapped map
  let (address, boot) ← parseHdr mapped boot address type
  match boot.hdr with
  | none => return (false, boot)
  | some hdr =>
    let boot := boot.checkId hdr
    match getBlocks hdr address mapped.length Block.all hdr.hdrSpace boot.block with
    | (false, _, pointers) => return (false, { boot with block := pointers })
    | (true, off, pointers) =>
      let boot := boot.withBlocks address off mapped.length pointers
      let (hdr, boot) ← parseKernel mapped hdr boot
      let (hdr, boot) ← parseRamdisk mapped hdr boot
      let boot ← parseExtra mapped hdr boot
      let boot ← parseTail env mapped boot
      return (true, { boot with hdr := some hdr })

/-- The scan of the constructor for an image, from one address on. -/
def scanImage (env : Env) (map : List UInt8) : Nat → Nat → BootImg → Except Abort BootImg
  | 0, _, _ => .error .exit
  | fuel + 1, address, boot =>
    if map.length ≤ address then .error .exit
    else
      let type := checkFmt ((env.mapped map).drop address) map.length
      match type with
      | .chromeos =>
        scanImage env map fuel (address + 65536)
          { boot with flags := { boot.flags with chromeos := true } }
      | .dhtb =>
        scanImage env map fuel (address + 512)
          { boot with flags := { boot.flags with dhtb := true, seandroid := true } }
      | .blob =>
        scanImage env map fuel (address + 104)
          { boot with flags := { boot.flags with blob := true } }
      | .aosp | .aospVendor =>
        match parseImage env map boot address type with
        | .error abort => .error abort
        | .ok (true, boot) => .ok boot
        | .ok (false, boot) => scanImage env map fuel (address + 1) boot
      | _ => scanImage env map fuel (address + 1) boot

/-- The constructor of `boot_img`. -/
def bootImg (env : Env) (map : List UInt8) : Except Abort BootImg :=
  scanImage env map map.length 0 {}

end Magisk.Boot.Image
