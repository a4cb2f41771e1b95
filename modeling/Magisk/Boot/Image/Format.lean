import Magisk.Bytes.Endian
import Magisk.Bytes.Window

/-!
# File formats of a boot image and its parts

The magic numbers `magiskboot` knows, the format guess `check_fmt` makes from
the first bytes of a buffer, and `check_fmt_lg`, which walks the blocks of an
LZ4 legacy archive to tell the LG variant apart.

Buffers are suffixes of the mapped file.  A read that leaves the mapping, an
`exit` and a loop that never ends are the three ways in which a run does not
come back; they are the values of `Abort`.
-/

namespace Magisk.Boot.Image

open List
open Bytes (utf8 window ofLe)

variable {buffer first second mapped magic rest others : List UInt8} {size address count : Nat}
  {byte other : UInt8}

/-! ## Runs that do not come back -/

/-- Why a command does not return. -/
inductive Abort where
  /-- `exit(RETURN_ERROR)`. -/
  | exit
  /-- An access outside the mapped file. -/
  | fault
  /-- A loop whose counter has come back to a value it had before. -/
  | diverge
  deriving DecidableEq, Repr

/-- Read through a pointer into the mapping. -/
def read (mapped : List UInt8) (address count : Nat) : Except Abort (List UInt8) :=
  if address + count ≤ mapped.length then .ok (window mapped address count)
  else .error .fault

theorem read_of_le (inside : address + count ≤ mapped.length) :
    read mapped address count = .ok (window mapped address count) :=
  if_pos inside

theorem read_eq_ok_iff {bytes : List UInt8} :
    read mapped address count = .ok bytes ↔
      address + count ≤ mapped.length ∧ window mapped address count = bytes := by
  unfold read
  split
  · rename_i inside
    simp [inside]
  · rename_i outside
    simp [outside]

/-! ## Magic numbers -/

/-- `FileFormat`. -/
inductive FileFormat where
  | unknown
  | chromeos
  | aosp
  | aospVendor
  | dhtb
  | blob
  | gzip
  | zopfli
  | xz
  | lzma
  | bzip2
  | lz4
  | lz4Legacy
  | lz4Lg
  | lzop
  | mtk
  | dtb
  | zimage
  deriving DecidableEq, Repr

/-- `fmt_compressed`. -/
def FileFormat.isCompressed : FileFormat → Bool
  | .gzip | .zopfli | .xz | .lzma | .bzip2 | .lz4 | .lz4Legacy | .lz4Lg => true
  | _ => false

/-- `fmt_compressed_any`. -/
def FileFormat.isCompressedAny (format : FileFormat) : Bool :=
  format.isCompressed || format == .lzop

def bootMagic : List UInt8 := utf8 "ANDROID!"
def vendorBootMagic : List UInt8 := utf8 "VNDRBOOT"
def chromeosMagic : List UInt8 := utf8 "CHROMEOS"
def gzip1Magic : List UInt8 := [0x1f, 0x8b]
def gzip2Magic : List UInt8 := [0x1f, 0x9e]
def lzopMagic : List UInt8 := [0x89, 0x4c, 0x5a, 0x4f]
def xzMagic : List UInt8 := [0xfd, 0x37, 0x7a, 0x58, 0x5a]
def bzipMagic : List UInt8 := utf8 "BZh"
def lz4LegMagic : List UInt8 := [0x02, 0x21, 0x4c, 0x18]
def lz41Magic : List UInt8 := [0x03, 0x21, 0x4c, 0x18]
def lz42Magic : List UInt8 := [0x04, 0x22, 0x4d, 0x18]
def mtkMagic : List UInt8 := [0x88, 0x16, 0x88, 0x58]
def dtbMagic : List UInt8 := [0xd0, 0x0d, 0xfe, 0xed]
def dhtbMagic : List UInt8 := [0x44, 0x48, 0x54, 0x42, 0x01, 0x00, 0x00, 0x00]
def tegrablobMagic : List UInt8 := utf8 "-SIGNED-BY-SIGNBLOB-"
def zimageMagic : List UInt8 := [0x18, 0x28, 0x6f, 0x01]
def seandroidMagic : List UInt8 := utf8 "SEANDROIDENFORCE"
def lgBumpMagic : List UInt8 :=
  [0x41, 0xa9, 0xe4, 0x67, 0x74, 0x4d, 0x1d, 0x1b, 0xa4, 0x29, 0xf2, 0xec, 0xea, 0x65, 0x52, 0x79]
def avbFooterMagic : List UInt8 := utf8 "AVBf"
def avbMagic : List UInt8 := utf8 "AVB0"
def amonetMicroloaderMagic : List UInt8 := utf8 "microloader"
def acclaimMagic : List UInt8 := utf8 "BauwksBoot"

/-- The five command lines a Nook HD loader starts with. -/
def nookhdMagics : List (List UInt8) :=
  [utf8 "Red Loader", utf8 "Green Loader", utf8 "Green Recovery",
    utf8 "eMMC boot.img+secondloader", utf8 "eMMC recovery.img+secondloader"]

/-- `BUFFER_MATCH`. -/
def bufferMatch (buffer magic : List UInt8) : Bool :=
  magic.isPrefixOf buffer

/-- `CHECKED_MATCH`. -/
def checkedMatch (buffer : List UInt8) (size : Nat) (magic : List UInt8) : Bool :=
  decide (magic.length ≤ size) && bufferMatch buffer magic

/-! ## Guessing a format -/

/-- `guess_lzma`: properties byte, a power of two as dictionary size and an
unknown uncompressed size. -/
def guessLzma (buffer : List UInt8) (size : Nat) : Bool :=
  let dictSz := ofLe (window buffer 1 4)
  decide (13 < size) && bufferMatch buffer [0x5d] &&
    decide (dictSz ≠ 0 ∧ dictSz &&& (dictSz - 1) = 0) &&
    decide (window buffer 5 8 = replicate 8 0xff)

/-- `check_fmt`. -/
def checkFmt (buffer : List UInt8) (size : Nat) : FileFormat :=
  if checkedMatch buffer size chromeosMagic then .chromeos
  else if checkedMatch buffer size bootMagic then .aosp
  else if checkedMatch buffer size vendorBootMagic then .aospVendor
  else if checkedMatch buffer size gzip1Magic || checkedMatch buffer size gzip2Magic then .gzip
  else if checkedMatch buffer size lzopMagic then .lzop
  else if checkedMatch buffer size xzMagic then .xz
  else if guessLzma buffer size then .lzma
  else if checkedMatch buffer size bzipMagic then .bzip2
  else if checkedMatch buffer size lz41Magic || checkedMatch buffer size lz42Magic then .lz4
  else if checkedMatch buffer size lz4LegMagic then .lz4Legacy
  else if checkedMatch buffer size mtkMagic then .mtk
  else if checkedMatch buffer size dtbMagic then .dtb
  else if checkedMatch buffer size dhtbMagic then .dhtb
  else if checkedMatch buffer size tegrablobMagic then .blob
  else if decide (0x28 ≤ size) && decide (window buffer 0x24 4 = zimageMagic) then .zimage
  else .unknown

/-- The `while` loop of `check_fmt_lg`, with its 32-bit counter. -/
def checkBlocks (buffer : List UInt8) (size : Nat) : Nat → Nat → Except Abort FileFormat
  | 0, _ => .error .diverge
  | fuel + 1, off =>
    if off + 4 ≤ size then
      match read buffer off 4 with
      | .error abort => .error abort
      | .ok blockSz =>
        let next := ((off + 4) % 2 ^ 32 + ofLe blockSz) % 2 ^ 32
        if size < next then .ok .lz4Lg else checkBlocks buffer size fuel next
    else .ok .lz4Legacy

/-- `check_fmt_lg`.  The loop has fewer than `2 ^ 32` states, so that it has
come back to an earlier one when it has not stopped after that many turns. -/
def checkFmtLg (buffer : List UInt8) (size : Nat) : Except Abort FileFormat :=
  match checkFmt buffer size with
  | .lz4Legacy => checkBlocks buffer size (2 ^ 32) 4
  | format => .ok format

/-! ## Recognising a boot image -/

theorem bufferMatch_iff : bufferMatch buffer magic = true ↔ magic <+: buffer :=
  isPrefixOf_iff_prefix

theorem checkedMatch_iff :
    checkedMatch buffer size magic = true ↔ magic.length ≤ size ∧ magic <+: buffer := by
  rw [checkedMatch, Bool.and_eq_true, decide_eq_true_iff, bufferMatch_iff]

/-- Two magics of one length cannot both be at the start of a buffer. -/
theorem checkedMatch_eq_false_of_ne (sameLength : first.length = second.length)
    (different : first ≠ second) (found : checkedMatch buffer size first = true) :
    checkedMatch buffer size second = false := by
  rw [Bool.eq_false_iff]
  intro foundToo
  have firstTake := prefix_iff_eq_take.mp (checkedMatch_iff.mp found).2
  have secondTake := prefix_iff_eq_take.mp (checkedMatch_iff.mp foundToo).2
  rw [sameLength] at firstTake
  exact different (firstTake.trans secondTake.symm)

theorem checkFmt_of_bootMagic (found : checkedMatch buffer size bootMagic = true) :
    checkFmt buffer size = .aosp := by
  have notChromeos : checkedMatch buffer size chromeosMagic = false :=
    checkedMatch_eq_false_of_ne (by decide) (by decide) found
  simp [checkFmt, notChromeos, found]

theorem checkFmt_of_vendorBootMagic (found : checkedMatch buffer size vendorBootMagic = true) :
    checkFmt buffer size = .aospVendor := by
  have notChromeos : checkedMatch buffer size chromeosMagic = false :=
    checkedMatch_eq_false_of_ne (by decide) (by decide) found
  have notBoot : checkedMatch buffer size bootMagic = false :=
    checkedMatch_eq_false_of_ne (by decide) (by decide) found
  simp [checkFmt, notChromeos, notBoot, found]

/-! ## Recognising compressed data -/

/-- Two magics with different first bytes cannot both be at the start of a
buffer. -/
theorem bufferMatch_eq_false_of_head (starts : first = byte :: rest)
    (startsToo : second = other :: others) (different : byte ≠ other) (found : first <+: buffer) :
    bufferMatch buffer second = false := by
  rw [Bool.eq_false_iff, Ne, bufferMatch_iff]
  intro foundToo
  rcases found with ⟨tail, rfl⟩
  rcases foundToo with ⟨tailToo, same⟩
  rw [starts, startsToo] at same
  exact different (List.cons.inj same).1.symm

theorem checkedMatch_eq_false_of_head (starts : first = byte :: rest)
    (startsToo : second = other :: others) (different : byte ≠ other) (found : first <+: buffer) :
    checkedMatch buffer size second = false := by
  rw [checkedMatch, bufferMatch_eq_false_of_head starts startsToo different found, Bool.and_false]

theorem checkFmt_of_xzMagic (found : xzMagic <+: buffer) : checkFmt buffer buffer.length = .xz := by
  have isXz : checkedMatch buffer buffer.length xzMagic = true :=
    checkedMatch_iff.mpr ⟨found.length_le, found⟩
  have others : ∀ magic ∈ [chromeosMagic, bootMagic, vendorBootMagic, gzip1Magic, gzip2Magic,
      lzopMagic], checkedMatch buffer buffer.length magic = false := by
    intro magic mem
    simp only [mem_cons, not_mem_nil, or_false] at mem
    rcases mem with rfl | rfl | rfl | rfl | rfl | rfl <;>
      exact checkedMatch_eq_false_of_head rfl rfl (by decide) found
  simp [checkFmt, others, isXz]

theorem checkFmt_of_bzipMagic (found : bzipMagic <+: buffer) :
    checkFmt buffer buffer.length = .bzip2 := by
  have isBzip : checkedMatch buffer buffer.length bzipMagic = true :=
    checkedMatch_iff.mpr ⟨found.length_le, found⟩
  have others : ∀ magic ∈ [chromeosMagic, bootMagic, vendorBootMagic, gzip1Magic, gzip2Magic,
      lzopMagic, xzMagic], checkedMatch buffer buffer.length magic = false := by
    intro magic mem
    simp only [mem_cons, not_mem_nil, or_false] at mem
    rcases mem with rfl | rfl | rfl | rfl | rfl | rfl | rfl <;>
      exact checkedMatch_eq_false_of_head rfl rfl (by decide) found
  have notLzma : guessLzma buffer buffer.length = false := by
    have noProperties : bufferMatch buffer [0x5d] = false :=
      bufferMatch_eq_false_of_head rfl rfl (by decide) found
    simp [guessLzma, noProperties]
  simp [checkFmt, others, isBzip, notLzma]

end Magisk.Boot.Image
