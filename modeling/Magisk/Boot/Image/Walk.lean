import Magisk.Boot.Image.Layout

/-!
# Walking a repacked image

A repacked image is read back as any boot image is: its own header selects the
class and gives the page size and the block sizes, and the blocks follow the
header space one after the other on page boundaries.  The theorem of this
module is that the walk yields what `repack` was given.

Behind the blocks, `repack` appends vendor magics, the vbmeta blob and zeros,
and patches the whole file through a mapping.  The patches in the header space
and in the MTK headers are wanted; the rest of this module shows that the others
stay behind the blocks.
-/

namespace Magisk.Boot.Image

open Bytes List Result

/-- Read the header of a file, and cut the file into the blocks of
`parse_image`, each with the bytes up to the next page boundary. -/
def walk (file : List UInt8) : Option (List (List UInt8 × List UInt8)) :=
  (readHdr file).map fun hdr =>
    cut hdr.pageSize file hdr.hdrSpace (Block.all.map hdr.size)

/-! ## Reading the header back -/

/-- The magic of the header's kind of image. -/
def HdrClass.magic (cls : HdrClass) : List UInt8 :=
  if cls.isVendor then vendorBootMagic else bootMagic

theorem ImgHdr.ext_raw {hdr other : ImgHdr} (sameClass : hdr.cls = other.cls)
    (sameRaw : hdr.raw = other.raw) : hdr = other := by
  obtain ⟨cls, raw, length_raw⟩ := hdr
  cases sameClass
  cases sameRaw
  rfl

/-- The magic is the first field of every class. -/
theorem ImgHdr.field_magic (hdr : ImgHdr) : hdr.field .magic = hdr.raw.take 8 := by
  obtain ⟨cls, raw, length_raw⟩ := hdr
  cases cls <;> rfl

theorem HdrClass.length_magic (cls : HdrClass) : cls.magic.length = 8 := by
  cases cls <;> decide

/-- A header in front of a file is read back, if its own bytes select its class. -/
theorem readHdr_append {hdr : ImgHdr} (detected : hdr.detect = hdr.cls)
    (magic : hdr.field .magic = hdr.cls.magic) (rest : List UInt8) :
    readHdr (hdr.raw ++ rest) = some hdr := by
  have long := four_words_le_hdrSize hdr.cls
  have front : (hdr.raw ++ rest).take hdr.cls.hdrSize = hdr.raw := take_left' hdr.length_raw
  have starts : hdr.cls.magic <+: hdr.raw ++ rest := by
    rw [← magic, hdr.field_magic]
    exact (List.take_prefix 8 hdr.raw).trans (prefix_append hdr.raw rest)
  have found : checkedMatch (hdr.raw ++ rest) (hdr.raw ++ rest).length hdr.cls.magic = true := by
    rw [checkedMatch_iff, HdrClass.length_magic, length_append, hdr.length_raw]
    exact ⟨by omega, starts⟩
  have copied : ImgHdr.copy hdr.cls hdr.raw = hdr :=
    ImgHdr.ext_raw rfl (ImgHdr.copy_of_length hdr.length_raw)
  unfold ImgHdr.detect at detected
  unfold HdrClass.magic at found
  split at detected
  · rename_i isVendor
    have sameClass : vendorClass (hdr.raw ++ rest) = hdr.cls := by
      rw [← vendorClass_take long, front, detected]
    rw [if_pos isVendor] at found
    rw [readHdr, checkFmt_of_vendorBootMagic found]
    rw [sameClass, front, copied]
  · rename_i notVendor
    have sameClass : bootClass (hdr.raw ++ rest) = hdr.cls := by
      rw [← bootClass_take long, front, detected]
    rw [if_neg notVendor] at found
    rw [readHdr, checkFmt_of_bootMagic found]
    rw [sameClass, front, copied]

/-! ## Behind the blocks -/

section Tail

variable {mapped : List UInt8} {boot : BootImg} {writer : Writer}

/-- The vbmeta blob of the source lies in the mapping and is at least as long
as the AVB footer. -/
def VbmetaFits (mapped : List UInt8) (boot : BootImg) : Prop :=
  boot.flags.avb = true →
    64 ≤ vbmetaSize mapped boot ∧ boot.vbmeta + vbmetaSize mapped boot ≤ mapped.length

/-- Bytes were appended, and nothing else happened. -/
structure Grown (before after : Writer) : Prop where
  out : before.out <+: after.out
  hdr : after.hdr = before.hdr
  off : after.off = before.off

theorem grown_append (writer : Writer) (bytes : List UInt8) : Grown writer (writer.append bytes) :=
  ⟨prefix_append _ _, rfl, rfl⟩

theorem grown_alignWith (writer : Writer) (page : Nat) : Grown writer (writer.alignWith page) :=
  ⟨prefix_append _ _, rfl, rfl⟩

theorem grown_padToSource (size : Nat) : Grown writer (padToSource boot size writer) := by
  unfold padToSource
  split
  · exact ⟨prefix_rfl, rfl, rfl⟩
  · exact grown_append _ _

/-- Everything behind the blocks is appended, and what the last patches touch
lies there. -/
structure Tailed (before after : Writer) (avb : Bool) : Prop where
  out : before.out <+: after.out
  hdr : after.hdr = before.hdr
  header : after.off.header = before.off.header
  starts : (after.off.kernel, after.off.ramdisk) = (before.off.kernel, before.off.ramdisk)
  tail : before.out.length ≤ after.off.tail
  vbmeta : avb = true →
    before.out.length ≤ after.off.vbmeta ∧ before.out.length + 64 ≤ after.out.length

theorem tailed_writeTail (fits : VbmetaFits mapped boot) (src : ImgHdr) (size : Nat) :
    ∃ after, writeTail mapped boot src size writer = .ok after ∧
      Tailed writer after boot.flags.avb := by
  let trailed := writer.append (vendorTrailer boot)
  let noted : Writer := { trailed with off := { trailed.off with tail := trailed.out.length } }
  let filled := noted.alignWith src.pageSize
  have grownTrailed : Grown writer trailed := grown_append _ _
  have grownFilled : Grown noted filled := grown_alignWith _ _
  have outFilled : writer.out <+: filled.out := grownTrailed.out.trans grownFilled.out
  have tailReached : writer.out.length ≤ trailed.out.length := grownTrailed.out.length_le
  cases isAvb : boot.flags.avb with
  | false =>
    have grownLast : Grown filled (padToSource boot size filled) := grown_padToSource size
    refine ⟨padToSource boot size filled, ?_, ?_⟩
    · rw [writeTail, writeVbmeta, isAvb]
      rfl
    · exact
        { out := outFilled.trans grownLast.out
          hdr := grownLast.hdr
          header := (congrArg Offsets.header grownLast.off).trans (Eq.refl writer.off.header)
          starts := congrArg (fun off => (off.kernel, off.ramdisk)) grownLast.off
          tail := (congrArg Offsets.tail grownLast.off).symm ▸ tailReached
          vbmeta := nofun }
  | true =>
    obtain ⟨long, inside⟩ := fits isAvb
    let aligned := filled.alignWith 4096
    let placed : Writer :=
      { aligned with off := { aligned.off with vbmeta := aligned.out.length } }
    let blob := window mapped boot.vbmeta (vbmetaSize mapped boot)
    let written := placed.append blob
    have outAligned : writer.out <+: aligned.out :=
      outFilled.trans (grown_alignWith filled 4096).out
    have grownLast : Grown written (padToSource boot size written) := grown_padToSource size
    have lengthWritten : written.out.length = aligned.out.length + blob.length :=
      length_append
    have lengthBlob : blob.length = vbmetaSize mapped boot := length_window inside
    have outReached := outAligned.length_le
    have lastReached := grownLast.out.length_le
    refine ⟨padToSource boot size written, ?_, ?_⟩
    · rw [writeTail, writeVbmeta, isAvb, read_of_le inside]
      rfl
    · exact
        { out := (outAligned.trans (grown_append placed blob).out).trans grownLast.out
          hdr := grownLast.hdr
          header := (congrArg Offsets.header grownLast.off).trans (Eq.refl writer.off.header)
          starts := congrArg (fun off => (off.kernel, off.ramdisk)) grownLast.off
          tail := (congrArg Offsets.tail grownLast.off).symm ▸ tailReached
          vbmeta := fun _ =>
            ⟨(congrArg Offsets.vbmeta grownLast.off).symm ▸ outReached, by omega⟩ }

end Tail

/-! ## The patches -/

/-- A block of the new image: the size in its MTK header is that of its
contents. -/
def Piece.patched (piece : Piece) : List UInt8 :=
  poke piece.mtkHdr 4 (leBytes 4 piece.contents.length) ++ piece.contents

theorem Piece.length_patched (piece : Piece) : piece.patched.length = piece.bytes.length := by
  rw [Piece.patched, Piece.bytes, length_append, length_append, length_poke]

/-- A piece without an MTK header is not patched. -/
theorem Piece.patched_of_nil {piece : Piece} (plain : piece.mtkHdr = []) :
    piece.patched = piece.bytes := by
  rw [Piece.patched, Piece.bytes, plain]
  rfl

theorem poke_padded {page : Nat} {before contents after mtkHdr : List UInt8}
    (long : 8 ≤ mtkHdr.length) (value : Nat) :
    poke (before ++ (padded page (mtkHdr ++ contents) ++ after)) (before.length + 4)
        (leBytes 4 value) =
      before ++ (padded page (poke mtkHdr 4 (leBytes 4 value) ++ contents) ++ after) := by
  have word : (leBytes 4 value).length = 4 := length_leBytes 4 value
  have samePadding : (poke mtkHdr 4 (leBytes 4 value) ++ contents).length =
      (mtkHdr ++ contents).length := by
    rw [length_append, length_append, length_poke]
  rw [poke_append_right (by omega), Nat.add_sub_cancel_left, padded, padded, samePadding,
    append_assoc, append_assoc, poke_append_left (by omega), append_assoc,
    append_assoc]

section Mtk

variable {page start address : Nat} {flag : Bool} {piece : Piece}
  {mapped before after : List UInt8} {writer : Writer}

/-- Patching an MTK header counts it, and changes nothing but its size word. -/
theorem patchMtk_spec (out : writer.out = before ++ (padded page piece.bytes ++ after))
    (atStart : flag = true → start = before.length)
    (assignable : piece.block.sizeField ∉ ImgHdr.readOnly)
    (counted : writer.hdr.size piece.block = piece.contents.length % 2 ^ 32)
    (mtk : piece.mtkHdr = sourceMtkHdr flag mapped address)
    (inside : flag = true → address + 512 ≤ mapped.length ∧
      ImgHdr.Has writer.hdr.cls piece.block) :
    (patchMtk flag piece.block start writer).out = before ++ (padded page piece.patched ++ after) ∧
      (patchMtk flag piece.block start writer).hdr.size piece.block =
        piece.patched.length % 2 ^ 32 ∧
      (∀ block, block ≠ piece.block →
        (patchMtk flag piece.block start writer).hdr.size block = writer.hdr.size block) ∧
      ImgHdr.Edits writer.hdr (patchMtk flag piece.block start writer).hdr ∧
      (patchMtk flag piece.block start writer).off = writer.off := by
  cases flag with
  | false =>
    have plain : piece.mtkHdr = [] := mtk
    have sameBytes := Piece.patched_of_nil plain
    have sameLength : piece.patched.length = piece.contents.length := by
      rw [piece.length_patched, Piece.bytes, plain]
      rfl
    exact ⟨sameBytes ▸ out, sameLength ▸ counted, fun _ _ => rfl, .refl _, rfl⟩
  | true =>
    obtain ⟨inMapping, has⟩ := inside rfl
    have long : piece.mtkHdr.length = 512 := (congrArg length mtk).trans (length_window inMapping)
    refine ⟨?_, ?_, ?_, ?_, rfl⟩
    · change poke writer.out (start + 4) (leBytes 4 (writer.hdr.size piece.block)) = _
      have word : leBytes 4 (writer.hdr.size piece.block) = leBytes 4 piece.contents.length := by
        rw [counted]
        exact leBytes_mod 4 _
      rw [word, out, atStart rfl, Piece.bytes, poke_padded (by omega), Piece.patched]
    · change (writer.hdr.setSize piece.block (writer.hdr.size piece.block + 512)).size
        piece.block = _
      rw [ImgHdr.size_setSize_self has, counted, piece.length_patched, Piece.bytes,
        length_append, long, Nat.mod_add_mod, Nat.add_comm]
    · intro block apart
      exact writer.hdr.size_setSize_of_ne (Ne.symm apart) _
    · exact .set writer.hdr assignable _

end Mtk

section Patch

variable {front rest : List UInt8} {boot : BootImg} {off : Offsets} {writer : Writer}

theorem edits_updateHeader (env : Env) (boot : BootImg) (writer : Writer) :
    ImgHdr.Edits writer.hdr (updateHeader env boot writer).hdr :=
  ((ImgHdr.Edits.set writer.hdr (by decide) _).trans (.put _ (by decide) _)).trans
    (.put _ (by decide) _)

/-- The header size and the id are not block sizes. -/
theorem size_updateHeader (env : Env) (boot : BootImg) (writer : Writer) (block : Block) :
    (updateHeader env boot writer).hdr.size block = writer.hdr.size block := by
  have notId : Field.id ≠ block.sizeField := by
    cases block <;> decide
  have notSize : Field.headerSize ≠ block.sizeField := by
    cases block <;> decide
  unfold updateHeader ImgHdr.size
  rw [ImgHdr.get_put_of_ne _ notId, ImgHdr.get_put_of_ne _ notId, ImgHdr.get_set_of_ne _ notSize]

/-- The AVB patches stay behind what lies in front of the vbmeta blob and of
the last 64 bytes. -/
theorem patchAvb_append (env : Env) (mapped : List UInt8) (behind : boot.flags.avb = true →
      front.length ≤ off.vbmeta ∧ front.length + 64 ≤ (front ++ rest).length) :
    ∃ rest', patchAvb env mapped boot off (front ++ rest) = front ++ rest' := by
  unfold patchAvb
  split
  · rename_i isAvb
    obtain ⟨vbmeta, footer⟩ := behind isAvb
    dsimp only
    rw [poke_append_right (by omega)]
    split
    · rw [poke_append_right (by omega)]
      exact ⟨_, rfl⟩
    · exact ⟨_, rfl⟩
  · exact ⟨rest, rfl⟩

/-- The new signature stays behind what lies in front of the tail. -/
theorem signImage_append (env : Env) (boot : BootImg) (behind : front.length ≤ off.tail) :
    ∃ rest', signImage env boot off (front ++ rest) = front ++ rest' := by
  unfold signImage
  split
  · dsimp only
    split
    · rw [take_append, take_of_length_le behind, append_assoc]
      exact ⟨_, rfl⟩
    · exact ⟨rest, rfl⟩
  · exact ⟨rest, rfl⟩

theorem patchVendor_eq (env : Env) (plain : NoLoader boot.flags) (out : List UInt8) :
    patchVendor env boot off out = out := by
  simp only [NoLoader, Flags.loaders, replicate, List.cons.injEq] at plain
  simp [patchVendor, plain]

/-- The patches after the header has been copied leave the front of the image
alone. -/
theorem lastPatches_append (env : Env) (mapped : List UInt8) (plain : NoLoader boot.flags)
    (tail : front.length ≤ off.tail)
    (vbmeta : boot.flags.avb = true →
      front.length ≤ off.vbmeta ∧ front.length + 64 ≤ (front ++ rest).length) :
    ∃ rest', signImage env boot off
      (patchVendor env boot off (patchAvb env mapped boot off (front ++ rest))) =
        front ++ rest' := by
  obtain ⟨restAvb, avb⟩ := patchAvb_append env mapped vbmeta
  rw [avb, patchVendor_eq env plain]
  exact signImage_append env boot tail

theorem copyHeader_eq (plain : NoLoader boot.flags) (header : writer.off.header = 0)
    {head : List UInt8} (out : writer.out = head ++ rest)
    (fits : writer.hdr.cls.hdrSize ≤ head.length) :
    copyHeader boot writer = (writer.hdr.raw ++ head.drop writer.hdr.cls.hdrSize) ++ rest := by
  have inside : 0 + writer.hdr.raw.length ≤ head.length := by
    rw [writer.hdr.length_raw]
    omega
  simp only [NoLoader, Flags.loaders, replicate, List.cons.injEq] at plain
  have notAmonet : boot.flags.amonet = false := plain.2.2.2.2.2.1
  rw [copyHeader, notAmonet, header, out]
  simp only [Bool.false_eq_true, if_false]
  rw [poke_append_left inside, poke_eq_of_le inside, Nat.zero_add, take_zero,
    nil_append, writer.hdr.length_raw]

end Patch

/-! ## The repacked image -/

section Repacked

variable {env : Env} {mapped head : List UInt8} {raw src : ImgHdr} {boot : BootImg}
  {table ramdisk : List UInt8}

  {files : Files} {before writer : Writer}

/-- Pieces behind the ramdisk. -/
def laterPieces (mapped : List UInt8) (raw : ImgHdr) (boot : BootImg) (files : Files)
    (table : List UInt8) : List Piece :=
  (blockPieces mapped raw boot files [] table).drop 2

theorem blockPieces_eq (mapped : List UInt8) (raw : ImgHdr) (boot : BootImg) (files : Files)
    (ramdisk table : List UInt8) :
    blockPieces mapped raw boot files ramdisk table = kernelPiece mapped boot files ::
        ramdiskPieceOf mapped boot ramdisk :: laterPieces mapped raw boot files table :=
  rfl

theorem laterPieces_plain {piece : Piece} (mem : piece ∈ laterPieces mapped raw boot files table) :
    piece.mtkHdr = [] ∧ piece.block ≠ .kernel ∧ piece.block ≠ .ramdisk := by
  simp only [laterPieces, blockPieces, drop_succ_cons, drop_zero, mem_cons,
    not_mem_nil, or_false] at mem
  rcases mem with rfl | rfl | rfl | rfl | rfl | rfl | rfl <;> simp

/-- With both MTK headers patched, the blocks are in their final form and the
new header has their sizes. -/
theorem patchMtks_spec (source : Source mapped raw src boot) (positive : 0 < raw.pageSize)
    (laid : Laid head raw (blockStarts mapped head raw boot files)
      (blockPieces mapped raw boot files ramdisk table) before)
    (tailed : Tailed before writer boot.flags.avb) :
    (∃ rest, (patchMtks boot writer).out = head ++ (pack raw.pageSize
          ((blockPieces mapped raw boot files ramdisk table).map Piece.patched) ++ rest)) ∧
      ImgHdr.Edits raw (patchMtks boot writer).hdr ∧
      (patchMtks boot writer).off = writer.off ∧
      ∀ piece ∈ blockPieces mapped raw boot files ramdisk table,
        (patchMtks boot writer).hdr.size piece.block = piece.patched.length % 2 ^ 32 := by
  obtain ⟨rest, appended⟩ := tailed.out
  have starts := tailed.starts.trans laid.starts
  have sizes : ∀ block, writer.hdr.size block = before.hdr.size block :=
    fun block => by rw [tailed.hdr]
  have sameClass : writer.hdr.cls = raw.cls := by rw [tailed.hdr, laid.edits.cls]
  have out : writer.out = head ++ (padded raw.pageSize (kernelPiece mapped boot files).bytes ++
      (padded raw.pageSize (ramdiskPieceOf mapped boot ramdisk).bytes ++
        (pack raw.pageSize ((laterPieces mapped raw boot files table).map Piece.bytes) ++ rest))) := by
    rw [← appended, laid.out, blockPieces_eq, map_cons, map_cons, pack_cons, pack_cons]
    simp only [append_assoc]
  have kernelAssignable : Block.kernel.sizeField ∉ ImgHdr.readOnly := by decide
  have ramdiskAssignable : Block.ramdisk.sizeField ∉ ImgHdr.readOnly := by decide
  obtain ⟨outKernel, sizeKernel, othersKernel, editsKernel, offKernel⟩ :=
    patchMtk_spec out (fun _ => (Prod.mk.inj starts).1) kernelAssignable
      ((sizes _).trans (laid.written _ mem_cons_self)) rfl
      fun isSet => ⟨(source.mtkKernel isSet).2,
        sameClass ▸ has_of_size_ne_zero (source.mtkKernel isSet).1⟩
  rw [block_kernelPiece] at outKernel sizeKernel othersKernel editsKernel offKernel
  have start : (patchMtk boot.flags.mtkKernel .kernel writer.off.kernel writer).off.ramdisk =
      (head ++ padded raw.pageSize (kernelPiece mapped boot files).patched).length := by
    rw [congrArg Offsets.ramdisk offKernel, (Prod.mk.inj starts).2, length_append,
      length_append, length_padded positive, length_padded positive, Piece.length_patched]
  have classKernel : (patchMtk boot.flags.mtkKernel .kernel writer.off.kernel writer).hdr.cls =
      raw.cls := editsKernel.cls.trans sameClass
  obtain ⟨outRamdisk, sizeRamdisk, othersRamdisk, editsRamdisk, offRamdisk⟩ :=
    patchMtk_spec (outKernel.trans (append_assoc _ _ _).symm) (fun _ => start) ramdiskAssignable
      ((othersKernel _ kernel_ne_ramdisk.symm).trans ((sizes _).trans
        (laid.written (ramdiskPieceOf mapped boot ramdisk) (by simp [blockPieces])))) rfl
      fun isSet => ⟨(source.mtkRamdisk isSet).2.2,
        classKernel ▸ has_of_size_ne_zero (source.mtkRamdisk isSet).1⟩
  have later : (laterPieces mapped raw boot files table).map Piece.bytes =
      (laterPieces mapped raw boot files table).map Piece.patched :=
    map_congr_left fun piece mem => (Piece.patched_of_nil (laterPieces_plain mem).1).symm
  refine ⟨⟨rest, ?_⟩, ?_, offRamdisk.trans offKernel, ?_⟩
  · rw [blockPieces_eq, map_cons, map_cons, pack_cons, pack_cons]
    simp only [append_assoc] at outRamdisk ⊢
    exact outRamdisk
  · exact (tailed.hdr ▸ laid.edits).trans (editsKernel.trans editsRamdisk)
  · intro piece mem
    rw [blockPieces_eq, mem_cons, mem_cons] at mem
    rcases mem with rfl | rfl | mem
    · exact (othersRamdisk _ kernel_ne_ramdisk).trans sizeKernel
    · exact sizeRamdisk
    · obtain ⟨plain, notKernel, notRamdisk⟩ := laterPieces_plain mem
      have counted := laid.written piece (by
        exact mem_cons_of_mem _ (mem_cons_of_mem _ mem))
      rw [Piece.patched_of_nil plain, Piece.bytes, plain]
      exact (othersRamdisk _ notRamdisk).trans ((othersKernel _ notKernel).trans
        ((sizes _).trans counted))

/-- The header `repack` starts from. -/
theorem edits_freshHdr (env : Env) (files : Files) (src : ImgHdr) :
    ImgHdr.Edits src (freshHdr env files src) := by
  have reset : ImgHdr.Edits src
      (((((src.setSize .kernel 0).setSize .ramdisk 0).setSize .second 0).setSize .dtb 0).setSize
        .bootconfig 0) :=
    ((((ImgHdr.Edits.set src (by decide) 0).trans (.set _ (by decide) 0)).trans
      (.set _ (by decide) 0)).trans (.set _ (by decide) 0)).trans (.set _ (by decide) 0)
  unfold freshHdr
  split
  · exact reset.trans (ImgHdr.edits_loadHdrFile env.stale _ _)
  · exact reset

theorem size_setSize_zero (hdr : ImgHdr) (reset block : Block) :
    (hdr.setSize reset 0).size block = if block = reset then 0 else hdr.size block := by
  by_cases same : block = reset
  · rw [if_pos same, same]
    by_cases has : ImgHdr.Has hdr.cls reset
    · exact ImgHdr.size_setSize_self has 0
    · exact ImgHdr.size_of_not_has (by rwa [ImgHdr.cls_setSize])
  · rw [if_neg same]
    exact hdr.size_setSize_of_ne (Ne.symm same) 0

/-- The sizes that are written anew start from zero. -/
theorem size_freshHdr (source : Source mapped raw src boot) (env : Env) (files : Files)
    (block : Block) : (freshHdr env files src).size block = resetSize raw block := by
  have noEdit : block.sizeField ∉ editable := by
    cases block <;> decide
  have loaded : (freshHdr env files src).size block =
      (((((src.setSize .kernel 0).setSize .ramdisk 0).setSize .second 0).setSize .dtb 0).setSize
        .bootconfig 0).size block := by
    unfold freshHdr
    split
    · exact congrArg ofLe (ImgHdr.field_loadHdrFile env.stale _ _ noEdit)
    · rfl
  rw [loaded]
  simp only [size_setSize_zero]
  cases block with
  | kernel | ramdisk | second | dtb | bootconfig => rfl
  | extra | recoveryDtbo | signature | vendorRamdiskTable =>
    exact source.size _ (by decide) (by decide)

/-- The header space ends on a page boundary and holds the header. -/
theorem dvd_hdrSpace (raw : ImgHdr) : raw.pageSize ∣ raw.hdrSpace := by
  unfold ImgHdr.hdrSpace
  split
  · exact dvd_alignTo _ _
  · exact Nat.dvd_refl _

/-- The page of a boot image has room for its header. -/
def PageFits (raw : ImgHdr) : Prop :=
  raw.cls.isVendor = false → raw.cls.hdrSize ≤ raw.pageSize

theorem PageFits.hdrSize_le_hdrSpace (fits : PageFits raw) (positive : 0 < raw.pageSize) :
    raw.cls.hdrSize ≤ raw.hdrSpace := by
  unfold ImgHdr.hdrSpace
  split
  · exact le_alignTo positive
  · rename_i notVendor
    exact fits (Bool.eq_false_iff.mpr notVendor)

/-- The first writer of `repack`. -/
theorem laid_fresh (source : Source mapped raw src boot) (env : Env) (files : Files)
    (head : List UInt8) :
    Laid head raw (0, 0) []
      { out := [] ++ head, hdr := freshHdr env files src, off := { header := 0 } } :=
  { out := (append_nil head).symm
    header := rfl
    starts := rfl
    edits := source.edits.trans (edits_freshHdr env files src)
    written := nofun
    pending := fun block _ => size_freshHdr source env files block }

theorem loaderHdr_eq (plain : NoLoader boot.flags) : loaderHdr mapped boot = .ok [] := by
  simp only [NoLoader, Flags.loaders, replicate, List.cons.injEq] at plain
  simp only [loaderHdr, plain]
  rfl

theorem length_out_patchMtk (flag : Bool) (block : Block) (start : Nat) (writer : Writer) :
    (patchMtk flag block start writer).out.length = writer.out.length := by
  unfold patchMtk
  split
  · exact length_poke _ _ _
  · rfl

theorem length_out_patchMtks (boot : BootImg) (writer : Writer) :
    (patchMtks boot writer).out.length = writer.out.length :=
  (length_out_patchMtk _ _ _ _).trans (length_out_patchMtk _ _ _ _)

/-- The patches in MTK headers do not move any block. -/
theorem length_pack_patched {page : Nat} (positive : 0 < page) (pieces : List Piece) :
    (pack page (pieces.map Piece.patched)).length =
      (pack page (pieces.map Piece.bytes)).length := by
  induction pieces with
  | nil => rfl
  | cons piece pieces ih =>
    rw [map_cons, map_cons, pack_cons, pack_cons, length_append,
      length_append, length_padded positive, length_padded positive, piece.length_patched,
      ih]

/-- A repacked image is the new header, the rest of its space, the blocks, and
whatever follows; the header has the sizes of the blocks. -/
structure Repacked (raw : ImgHdr) (pieces : List Piece) (hdr : ImgHdr) (out : List UInt8) :
    Prop where
  layout : ∃ fill rest, out = (hdr.raw ++ fill) ++
    (pack raw.pageSize (pieces.map Piece.patched) ++ rest) ∧
      (hdr.raw ++ fill).length = raw.hdrSpace
  edits : ImgHdr.Edits raw hdr
  sizes : ∀ piece ∈ pieces, hdr.size piece.block = piece.patched.length % 2 ^ 32

/-- What `repack` writes once the blocks are laid out. -/
theorem repackFrom_of_laid {skipComp : Bool} (source : Source mapped raw src boot) (env : Env)
    (map : List UInt8) (isMapped : mapped = env.mapped map) (positive : 0 < raw.pageSize)
    (page : PageFits raw) (vbmeta : VbmetaFits mapped boot)
    (blocks : ∀ {head writer}, raw.pageSize ∣ head.length → Laid head raw (0, 0) [] writer →
      ∃ before, writeBlocks env skipComp mapped boot src files writer = .ok before ∧
        Laid head raw (blockStarts mapped head raw boot files)
          (blockPieces mapped raw boot files ramdisk table) before) :
    ∃ out hdr, repackFrom env skipComp map files boot src = .ok out ∧
      Repacked raw (blockPieces mapped raw boot files ramdisk table) hdr out := by
  subst isMapped
  have inside : 0 + raw.hdrSpace ≤ (env.mapped map).length := by
    rw [Nat.zero_add]
    exact source.space
  let head := window (env.mapped map) 0 raw.hdrSpace
  have lengthHead : head.length = raw.hdrSpace := length_window inside
  have aligned : raw.pageSize ∣ head.length := lengthHead ▸ dvd_hdrSpace raw
  obtain ⟨before, blocksRan, laid⟩ := blocks aligned (laid_fresh source env files head)
  obtain ⟨after, tailRan, tailed⟩ := tailed_writeTail vbmeta src map.length
  obtain ⟨⟨rest, out⟩, edits, sameOff, sizes⟩ := patchMtks_spec source positive laid tailed
  let updated := updateHeader env boot (patchMtks boot after)
  let space := updated.hdr.raw ++ head.drop updated.hdr.cls.hdrSize
  let pieces := blockPieces (env.mapped map) raw boot files ramdisk table
  let packed := pack raw.pageSize (pieces.map Piece.patched)
  have samePack : packed.length = (pack raw.pageSize (pieces.map Piece.bytes)).length :=
    length_pack_patched positive pieces
  have editsUpdated : ImgHdr.Edits raw updated.hdr := edits.trans (edits_updateHeader env boot _)
  have sameOffsets : updated.off = after.off := sameOff
  have header : updated.off.header = 0 := by
    rw [sameOffsets, tailed.header, laid.header]
  have fits : updated.hdr.cls.hdrSize ≤ head.length := by
    rw [editsUpdated.cls, lengthHead]
    exact page.hdrSize_le_hdrSpace positive
  have lengthSpace : space.length = head.length := by
    rw [length_append, updated.hdr.length_raw, length_drop]
    omega
  have copied : copyHeader boot updated = (space ++ packed) ++ rest := by
    rw [copyHeader_eq source.loaders header out fits, append_assoc _ packed rest]
  have lengthFront : (space ++ packed).length = before.out.length := by
    rw [length_append, lengthSpace, laid.out, length_append, samePack]
  have lengthAll : ((space ++ packed) ++ rest).length = after.out.length := by
    have patched := length_out_patchMtks boot after
    rw [out, length_append, length_append] at patched
    rw [length_append, length_append, lengthSpace, Nat.add_assoc]
    exact patched
  have tail : (space ++ packed).length ≤ updated.off.tail := by
    rw [lengthFront, sameOffsets]
    exact tailed.tail
  have behind : boot.flags.avb = true → (space ++ packed).length ≤ updated.off.vbmeta ∧
      (space ++ packed).length + 64 ≤ ((space ++ packed) ++ rest).length := by
    rw [lengthFront, lengthAll, sameOffsets]
    exact tailed.vbmeta
  obtain ⟨restLast, last⟩ := lastPatches_append env (env.mapped map) source.loaders tail behind
  rw [← copied, append_assoc] at last
  refine ⟨_, updated.hdr, ?_, ⟨_, restLast, last, lengthSpace.trans lengthHead⟩, editsUpdated,
    fun piece mem => (size_updateHeader env boot _ piece.block).trans (sizes piece mem)⟩
  rw [repackFrom, loaderHdr_eq source.loaders, ok_bind, source.address,
    source.edits.hdrSpace, read_of_le inside, ok_bind]
  dsimp only [length_nil]
  rw [blocksRan, ok_bind, tailRan]
  rfl

/-- The header at the start of a file has the magic of its class. -/
theorem field_magic_of_readHdr (sourceHdr : SourceHdr mapped raw)
    (header : readHdr mapped = some raw) : raw.field .magic = raw.cls.magic := by
  have long := four_words_le_hdrSize raw.cls
  have front : raw.field .magic = mapped.take 8 := by
    rw [raw.field_magic, sourceHdr.raw_eq, take_take, Nat.min_eq_left (by omega)]
  rw [front]
  unfold readHdr at header
  split at header
  · rename_i isBoot
    have starts := (checkedMatch_iff.mp (bootMagic_of_checkFmt isBoot)).2
    have sameClass : raw.cls = bootClass mapped := by
      rw [← Option.some.inj header]
      rfl
    have notVendor : raw.cls.isVendor = false := by
      rw [sameClass]
      unfold bootClass aospClass
      split
      · rfl
      · split <;> rfl
    rw [HdrClass.magic, notVendor]
    exact (prefix_iff_eq_take.mp starts).symm
  · rename_i isVendor
    have starts := (checkedMatch_iff.mp (vendorBootMagic_of_checkFmt isVendor)).2
    have sameClass : raw.cls = vendorClass mapped := by
      rw [← Option.some.inj header]
      rfl
    have vendor : raw.cls.isVendor = true := by
      rw [sameClass]
      unfold vendorClass
      split <;> rfl
    rw [HdrClass.magic, vendor]
    exact (prefix_iff_eq_take.mp starts).symm
  · cases header

/-- A size that is none of the header versions leaves a header in version 0. -/
theorem aospClass_of_length {size : Nat} (other : size ∉ [1, 2, 3, 4]) : aospClass size = .v0 := by
  unfold aospClass
  split <;> simp_all

section ReadBack

variable {pieces : List Piece} {hdr : ImgHdr} {out : List UInt8}

/-- A repacked image starts with its new header, unless an extra blob turned
its version. -/
theorem Repacked.readHdr_eq (repacked : Repacked raw pieces hdr out)
    (sourceHdr : SourceHdr mapped raw) (header : readHdr mapped = some raw)
    (version : raw.cls = .v0 → aospClass (hdr.get .extraSize) = .v0) :
    readHdr out = some hdr := by
  obtain ⟨fill, rest, laidOut, -⟩ := repacked.layout
  have detected : hdr.detect = hdr.cls := repacked.edits.detect_eq_cls sourceHdr.detected version
  have magic : hdr.field .magic = hdr.cls.magic := by
    rw [repacked.edits.field .magic (by decide), repacked.edits.cls]
    exact field_magic_of_readHdr sourceHdr header
  rw [laidOut, append_assoc]
  exact readHdr_append detected magic _

/-- The walk over a repacked image whose blocks have sizes of 32 bits. -/
theorem Repacked.walk_eq (repacked : Repacked raw pieces hdr out)
    (positive : 0 < raw.pageSize) (readBack : readHdr out = some hdr)
    (all : pieces.map Piece.block = Block.all)
    (small : ∀ piece ∈ pieces, piece.patched.length < 2 ^ 32) :
    walk out = some (pieces.map fun piece =>
      (piece.patched, zeros (padding raw.pageSize piece.patched.length))) := by
  obtain ⟨fill, rest, laidOut, lengthSpace⟩ := repacked.layout
  have blockSizes : Block.all.map hdr.size = (pieces.map Piece.patched).map length := by
    rw [← all, map_map, map_map]
    apply map_congr_left
    intro piece mem
    exact (repacked.sizes piece mem).trans (Nat.mod_eq_of_lt (small piece mem))
  have aligned : raw.pageSize ∣ (hdr.raw ++ fill).length := lengthSpace ▸ dvd_hdrSpace raw
  rw [walk, readBack, Option.map_some, repacked.edits.pageSize, repacked.edits.hdrSpace,
    blockSizes, laidOut, ← lengthSpace, cut_pack positive aligned, map_map]
  rfl

end ReadBack

/-- Repacking with a file for every block of the source gives an image whose
own header leads to exactly these files, to the signature and the updated table
of the source, and to zeros between them.  The extra blob of a version 0 image
must not have the length of a header version, and a vbmeta blob has to be in the
source and as long as its footer. -/
theorem walk_repack (env : Env) (map : List UInt8) (files : Files) (boot : BootImg)
    (raw : ImgHdr) (accepted : Accepted env map boot) (plain : NoLoader boot.flags)
    (header : readHdr (env.mapped map) = some raw) (suitable : Suitable raw boot files)
    (page : PageFits raw)
    (version : raw.cls = .v0 → (files.extra.getD []).length ∉ [1, 2, 3, 4])
    (vbmeta : VbmetaFits (env.mapped map) boot) :
    ∃ out, repack env true map files = .ok out ∧ (out.length < 2 ^ 31 → walk out =
        some ((writtenPieces (env.mapped map) raw boot files).map fun piece =>
          (piece.patched, zeros (padding raw.pageSize piece.patched.length)))) := by
  obtain ⟨found, isHeader, -, described⟩ := accepted.source plain
  obtain rfl : found = raw := Option.some.inj (isHeader.symm.trans header)
  obtain ⟨src, source⟩ := described suitable.pagePositive
  obtain ⟨out, hdr, ran, repacked⟩ :=
    repackFrom_of_laid source env map rfl suitable.pagePositive page vbmeta
      fun aligned laid => laid_writeBlocks env source suitable aligned laid
  rw [← writtenPieces_eq_blockPieces] at repacked
  refine ⟨out, ?_, ?_⟩
  · rw [repack, accepted.bootImg_eq, ok_bind, source.hdr]
    exact ran
  · intro short
    have small : ∀ piece ∈ writtenPieces (env.mapped map) found boot files,
        piece.patched.length < 2 ^ 32 := by
      intro piece mem
      obtain ⟨fill, rest, laidOut, -⟩ := repacked.layout
      have packed : piece.patched.length ≤ (pack found.pageSize
          ((writtenPieces (env.mapped map) found boot files).map Piece.patched)).length :=
        length_le_length_pack (mem_map_of_mem mem)
      have whole := congrArg length laidOut
      rw [length_append, length_append, length_append] at whole
      omega
    have extraPiece : ⟨.extra, [], files.extra.getD []⟩ ∈
        writtenPieces (env.mapped map) found boot files := by
      simp [writtenPieces]
    have extraSize : hdr.get .extraSize = (files.extra.getD []).length :=
      (repacked.sizes _ extraPiece).trans (Nat.mod_eq_of_lt (small _ extraPiece))
    have readBack : readHdr out = some hdr :=
      repacked.readHdr_eq source.header header fun isV0 => by
        rw [extraSize]
        exact aospClass_of_length (version isV0)
    exact repacked.walk_eq suitable.pagePositive readBack rfl small

end Repacked

/-! ## A version 0 image with an extra blob -/

/-- A version 0 image with pages of 2048 bytes whose only block is an extra blob
of five bytes. -/
def extraImage : List UInt8 :=
  bootMagic ++ zeros 28 ++ [0, 8, 0, 0] ++ [5, 0, 0, 0]

theorem accepted_extraImage :
    ∃ boot, Accepted plainEnv extraImage boot ∧ boot.flags = {} ∧ boot.kernelDtb = {} := by
  have isAosp : checkFmt (plainEnv.mapped extraImage) extraImage.length = .aosp := by
    decide +kernel
  have evaluated : (match parseImage plainEnv extraImage {} 0 .aosp with
      | .ok (true, boot) => boot.flags == {} && boot.kernelDtb == {}
      | _ => false) = true := by
    decide +kernel
  split at evaluated
  · rename_i boot parsed
    rw [Bool.and_eq_true, beq_iff_eq, beq_iff_eq] at evaluated
    exact ⟨boot, ⟨.inl isAosp, by rw [isAosp]; exact parsed⟩, evaluated⟩
  · cases evaluated

theorem readHdr_extraImage :
    ∃ raw, readHdr (plainEnv.mapped extraImage) = some raw ∧ raw.cls = .v0 ∧
      raw.pageSize = 2048 ∧ raw.get .vendorRamdiskTableEntryNum = 0 ∧
      Block.all.map raw.size = [0, 0, 0, 5, 0, 0, 0, 0, 0] := by
  have evaluated : ((readHdr (plainEnv.mapped extraImage)).map fun raw =>
      (raw.cls, raw.pageSize, raw.get .vendorRamdiskTableEntryNum,
        Block.all.map raw.size)) = some (.v0, 2048, 0, [0, 0, 0, 5, 0, 0, 0, 0, 0]) := by
    decide +kernel
  obtain ⟨raw, found, fields⟩ := Option.map_eq_some_iff.mp evaluated
  simp only [Prod.mk.injEq] at fields
  exact ⟨raw, found, fields⟩

/-- Files that only have an extra blob suit this image. -/
theorem suitable_extraImage {raw : ImgHdr} {boot : BootImg} (extra : List UInt8)
    (flags : boot.flags = {}) (kernelDtb : boot.kernelDtb = {}) (pageSize : raw.pageSize = 2048)
    (entryNum : raw.get .vendorRamdiskTableEntryNum = 0)
    (sizes : Block.all.map raw.size = [0, 0, 0, 5, 0, 0, 0, 0, 0]) :
    Suitable raw boot { extra := some extra } := by
  simp only [Block.all, map_cons, List.cons.injEq] at sizes
  obtain ⟨kernel, ramdisk, second, extraSize, recoveryDtbo, dtb, signature, table, bootconfig⟩ :=
    sizes
  refine ⟨by omega, by rw [flags], ?_, by rw [entryNum, table, Nat.zero_mul], fun present =>
    absurd table present⟩
  constructor <;> simp [*]

/-- An extra blob of five bytes comes back. -/
theorem walk_repack_fiveBytes : ∃ boot raw out, Accepted plainEnv extraImage boot ∧
      readHdr (plainEnv.mapped extraImage) = some raw ∧
      repack plainEnv true extraImage { extra := some [7, 7, 7, 7, 7] } = .ok out ∧
      (out.length < 2 ^ 31 → walk out = some ((writtenPieces (plainEnv.mapped extraImage) raw boot
          { extra := some [7, 7, 7, 7, 7] }).map fun piece =>
            (piece.patched, zeros (padding raw.pageSize piece.patched.length)))) := by
  obtain ⟨boot, accepted, flags, kernelDtb⟩ := accepted_extraImage
  obtain ⟨raw, header, isV0, pageSize, entryNum, sizes⟩ := readHdr_extraImage
  have suitable := suitable_extraImage [7, 7, 7, 7, 7] flags kernelDtb pageSize entryNum sizes
  obtain ⟨out, ran, walked⟩ := walk_repack plainEnv extraImage
    { extra := some [7, 7, 7, 7, 7] } boot raw accepted (by rw [flags]; rfl) header suitable
    (by intro _; rw [isV0, pageSize]; decide) (fun _ => by decide)
    (by intro isAvb; rw [flags] at isAvb; cases isAvb)
  exact ⟨boot, raw, out, accepted, header, ran, walked⟩

/-- An extra blob of one byte makes the new header one of version 1, whose own
walk finds no extra blob. -/
theorem walk_repack_versionExtra :
    ∃ boot raw out, Accepted plainEnv extraImage boot ∧ NoLoader boot.flags ∧
      readHdr (plainEnv.mapped extraImage) = some raw ∧
      Suitable raw boot { extra := some [7] } ∧ PageFits raw ∧
      VbmetaFits (plainEnv.mapped extraImage) boot ∧
      repack plainEnv true extraImage { extra := some [7] } = .ok out ∧ out.length < 2 ^ 31 ∧
      (walk out).map (List.map Prod.fst) = some [[], [], [], [], [], [], [], [], []] := by
  obtain ⟨boot, accepted, flags, kernelDtb⟩ := accepted_extraImage
  obtain ⟨raw, header, isV0, pageSize, entryNum, sizes⟩ := readHdr_extraImage
  have suitable := suitable_extraImage [7] flags kernelDtb pageSize entryNum sizes
  have evaluated : (match repack plainEnv true extraImage { extra := some [7] } with
      | .ok out => decide (out.length < 2 ^ 31) &&
          (walk out).map (List.map Prod.fst) == some [[], [], [], [], [], [], [], [], []]
      | .error _ => false) = true := by
    decide +kernel
  split at evaluated
  · rename_i out ran
    rw [Bool.and_eq_true, decide_eq_true_iff, beq_iff_eq] at evaluated
    refine ⟨boot, raw, out, accepted, by rw [flags]; rfl, header, suitable, ?_, ?_, ran, evaluated⟩
    · intro _
      rw [isV0, pageSize]
      decide
    · intro isAvb
      rw [flags] at isAvb
      cases isAvb
  · cases evaluated

end Magisk.Boot.Image
