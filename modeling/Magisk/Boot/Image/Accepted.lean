import Magisk.Boot.Image.Parse
import Magisk.Result.Core

/-!
# What an accepted image looks like

`parse_image` returns a raw view of the source: a header that differs from the
one in the file in the kernel and ramdisk sizes only, block pointers whose
blocks lie inside the mapping, and flags whose pointers do as well.  `Kept`
collects what each step of the parse preserves.  A step that fills in another
member of the object has its case here and nowhere else.
-/

namespace Magisk.Boot.Image

open Bytes List Result

variable {size address : Nat}

/-! ## The blocks -/

/-- Blocks located one after the other end inside the mapping. -/
theorem getBlocks_spec {hdr : ImgHdr} {mapEnd : Nat} (positive : 0 < hdr.pageSize)
    {blocks : List Block} {off stop : Nat} {pointers located : Block → Nat}
    (distinct : blocks.Nodup)
    (ran : getBlocks hdr address mapEnd blocks off pointers = (true, stop, located)) :
    off ≤ stop ∧ (blocks ≠ [] → address + stop ≤ mapEnd) ∧
      (∀ block ∉ blocks, located block = pointers block) ∧
      ∀ block ∈ blocks, located block + hdr.size block ≤ mapEnd := by
  induction blocks generalizing off pointers with
  | nil =>
    obtain ⟨rfl, rfl⟩ := ran
    simp
  | cons block blocks ih =>
    obtain ⟨fresh, distinct⟩ := nodup_cons.mp distinct
    have aligned : off + hdr.size block ≤ alignTo (off + hdr.size block) hdr.pageSize :=
      le_alignTo positive
    simp only [getBlocks] at ran
    split at ran
    · cases ran
    · obtain ⟨reaches, ends, others, located_le⟩ := ih distinct ran
      have here : located block = address + off := by
        rw [others block fresh, Function.update_self]
      have onward : address + stop ≤ mapEnd := by
        by_cases last : blocks = []
        · subst last
          simp only [getBlocks, Prod.mk.injEq] at ran
          omega
        · exact ends last
      refine ⟨by omega, fun _ => onward, ?_, ?_⟩
      · intro other absent
        rw [mem_cons, not_or] at absent
        rw [others other absent.2, Function.update_of_ne absent.1]
      · intro other mem
        rcases mem_cons.mp mem with rfl | mem
        · omega
        · exact located_le other mem

/-! ## What the parse keeps -/

/-- The flags of vendor headers and loaders in front of the image. -/
def Flags.loaders (flags : Flags) : List Bool :=
  [flags.chromeos, flags.dhtb, flags.blob, flags.nookhd, flags.acclaim, flags.amonet]

/-- The state of a parse, relative to the header in the file and to the object
right after its blocks were located. -/
structure Kept (mapped : List UInt8) (raw : ImgHdr) (start : BootImg) (hdr : ImgHdr)
    (boot : BootImg) : Prop where
  edits : ImgHdr.Edits raw hdr
  size : ∀ block, block ≠ .kernel → block ≠ .ramdisk → hdr.size block = raw.size block
  noKernel : raw.size .kernel = 0 → hdr.size .kernel = 0
  block : ∀ block, block ≠ .kernel → block ≠ .ramdisk → boot.block block = start.block block
  payload : boot.payload = start.payload
  loaders : boot.flags.loaders = start.flags.loaders
  mtkKernel : boot.flags.mtkKernel = true →
    raw.size .kernel ≠ 0 ∧ boot.kHdr + 512 ≤ mapped.length
  mtkRamdisk : boot.flags.mtkRamdisk = true →
    raw.size .ramdisk ≠ 0 ∧ raw.size .vendorRamdiskTable = 0 ∧ boot.rHdr + 512 ≤ mapped.length
  kernelDtb : boot.kernelDtb.size ≠ 0 → raw.size .kernel ≠ 0
  footer : boot.flags.avb = true → boot.avbFooter + 64 ≤ mapped.length

namespace Kept

variable {mapped : List UInt8} {raw hdr : ImgHdr} {start boot : BootImg}

section

variable (kept : Kept mapped raw start hdr boot)

include kept

/-- Only the kernel size of the header changes. -/
theorem setKernelSize (present : raw.size .kernel ≠ 0) (value : Nat) :
    Kept mapped raw start (hdr.setSize .kernel value) boot :=
  { kept with
    noKernel := fun absent => absurd absent present
    edits := kept.edits.trans (.set hdr (by decide) value)
    size := fun block notKernel notRamdisk =>
      (hdr.size_setSize_of_ne (Ne.symm notKernel) value).trans
        (kept.size block notKernel notRamdisk) }

/-- Only the ramdisk size of the header changes. -/
theorem setRamdiskSize (value : Nat) : Kept mapped raw start (hdr.setSize .ramdisk value) boot :=
  { kept with
    edits := kept.edits.trans (.set hdr (by decide) value)
    size := fun block notKernel notRamdisk =>
      (hdr.size_setSize_of_ne (Ne.symm notRamdisk) value).trans
        (kept.size block notKernel notRamdisk)
    noKernel := fun absent =>
      (hdr.size_setSize_of_ne (by decide) value).trans (kept.noKernel absent) }

/-- A block pointer other than those of the kernel and the ramdisk is not
moved by moving one of them. -/
theorem update_block {moved : Block} (isMoved : moved = .kernel ∨ moved = .ramdisk) (address : Nat)
    (block : Block) (notKernel : block ≠ .kernel) (notRamdisk : block ≠ .ramdisk) :
    Function.update boot.block moved address block = start.block block := by
  have apart : block ≠ moved := by
    rintro rfl
    rcases isMoved with isKernel | isRamdisk
    · exact notKernel isKernel
    · exact notRamdisk isRamdisk
  rw [Function.update_of_ne apart]
  exact kept.block block notKernel notRamdisk

end

end Kept

/-! ## The kernel -/

section Kernel

variable {mapped : List UInt8} {raw hdr hdr' : ImgHdr} {start boot boot' : BootImg}

/-- A step that only touches the kernel. -/
structure KernelOnly (hdr : ImgHdr) (boot : BootImg) (hdr' : ImgHdr) (boot' : BootImg) :
    Prop where
  ramdiskSize : hdr'.size .ramdisk = hdr.size .ramdisk
  ramdisk : boot'.block .ramdisk = boot.block .ramdisk

theorem KernelOnly.trans {middle last : ImgHdr} {bootMiddle bootLast : BootImg}
    (first : KernelOnly hdr boot middle bootMiddle)
    (second : KernelOnly middle bootMiddle last bootLast) : KernelOnly hdr boot last bootLast :=
  ⟨second.ramdiskSize.trans first.ramdiskSize, second.ramdisk.trans first.ramdisk⟩

theorem kernel_ne_ramdisk : Block.kernel ≠ Block.ramdisk := by
  decide

section

variable (kept : Kept mapped raw start hdr boot)

include kept

theorem splitDtb_spec (present : raw.size .kernel ≠ 0) (size : Nat) (dtbOff : Option Nat) :
    Kept mapped raw start (splitDtb hdr boot size dtbOff).1 (splitDtb hdr boot size dtbOff).2 ∧
      KernelOnly hdr boot (splitDtb hdr boot size dtbOff).1 (splitDtb hdr boot size dtbOff).2 := by
  cases dtbOff with
  | none => exact ⟨kept, rfl, rfl⟩
  | some offset =>
    by_cases cutsOff : 0 < offset ∧ offset < 2 ^ 31
    · rw [splitDtb, if_pos cutsOff]
      exact ⟨{ kept.setKernelSize present offset with kernelDtb := fun _ => present },
        hdr.size_setSize_of_ne kernel_ne_ramdisk offset, rfl⟩
    · rw [splitDtb, if_neg cutsOff]
      exact ⟨kept, rfl, rfl⟩

theorem stripMtkKernel_spec (present : raw.size .kernel ≠ 0)
    (ran : stripMtkKernel mapped hdr boot = .ok (hdr', boot')) :
    Kept mapped raw start hdr' boot' ∧ KernelOnly hdr boot hdr' boot' := by
  unfold stripMtkKernel at ran
  split at ran
  · obtain ⟨header, headerRead, ran⟩ := bind_eq_ok ran
    obtain ⟨kFmt, -, ran⟩ := bind_eq_ok ran
    cases ran
    have inside := (read_eq_ok_iff.mp headerRead).1
    exact ⟨{ kept.setKernelSize present _ with
        block := kept.update_block (.inl rfl) _
        loaders := kept.loaders
        mtkKernel := fun _ => ⟨present, inside⟩ },
      hdr.size_setSize_of_ne kernel_ne_ramdisk _,
      Function.update_of_ne kernel_ne_ramdisk.symm (boot.block .kernel + 512) boot.block⟩
  · cases ran
    exact ⟨kept, rfl, rfl⟩

theorem parseZimage_spec (present : raw.size .kernel ≠ 0)
    (ran : parseZimage mapped hdr boot = .ok (hdr', boot')) :
    Kept mapped raw start hdr' boot' ∧ KernelOnly hdr boot hdr' boot' := by
  have keptHdr : Kept mapped raw start hdr { boot with zHdr := boot.block .kernel } := { kept with }
  obtain ⟨piggy, -, ran⟩ := bind_eq_ok ran
  cases piggy with
  | none =>
    cases ran
    exact ⟨keptHdr, rfl, rfl⟩
  | some hdrSz =>
    obtain ⟨bounds, -, ran⟩ := bind_eq_ok ran
    obtain ⟨offsets, -, ran⟩ := bind_eq_ok ran
    split at ran
    · cases ran
      exact ⟨{ keptHdr with }, rfl, rfl⟩
    · obtain ⟨kFmt, -, ran⟩ := bind_eq_ok ran
      cases ran
      exact ⟨{ keptHdr.setKernelSize present _ with
          block := kept.update_block (.inl rfl) _
          loaders := kept.loaders },
        hdr.size_setSize_of_ne kernel_ne_ramdisk _,
        Function.update_of_ne kernel_ne_ramdisk.symm (boot.block .kernel + hdrSz) boot.block⟩

theorem parseKernel_spec (sameSize : hdr.size .kernel = raw.size .kernel)
    (ran : parseKernel mapped hdr boot = .ok (hdr', boot')) :
    Kept mapped raw start hdr' boot' ∧ KernelOnly hdr boot hdr' boot' := by
  unfold parseKernel at ran
  split at ran
  · cases ran
    exact ⟨kept, rfl, rfl⟩
  · rename_i present
    rw [sameSize] at present
    obtain ⟨dtbOff, -, ran⟩ := bind_eq_ok ran
    obtain ⟨keptSplit, onlySplit⟩ := splitDtb_spec kept present (hdr.size .kernel) dtbOff
    generalize splitDtb hdr boot (hdr.size .kernel) dtbOff = parts at ran keptSplit onlySplit
    obtain ⟨hdrSplit, bootSplit⟩ := parts
    obtain ⟨kFmt, -, ran⟩ := bind_eq_ok ran
    obtain ⟨⟨hdrStripped, bootStripped⟩, stripped, ran⟩ := bind_eq_ok ran
    have keptFmt : Kept mapped raw start hdrSplit { bootSplit with kFmt := kFmt } :=
      { keptSplit with }
    obtain ⟨keptStripped, onlyStripped⟩ := stripMtkKernel_spec keptFmt present stripped
    have only := onlySplit.trans ⟨onlyStripped.ramdiskSize, onlyStripped.ramdisk⟩
    dsimp only at ran
    split at ran
    · obtain ⟨keptZimage, onlyZimage⟩ := parseZimage_spec keptStripped present ran
      exact ⟨keptZimage, only.trans onlyZimage⟩
    · cases ran
      exact ⟨keptStripped, only⟩

end

end Kernel

/-! ## The ramdisk -/

section Ramdisk

variable {mapped : List UInt8} {raw hdr hdr' : ImgHdr} {start boot boot' : BootImg}

theorem stripMtkRamdisk_spec (kept : Kept mapped raw start hdr boot)
    (present : raw.size .ramdisk ≠ 0) (noTable : raw.size .vendorRamdiskTable = 0)
    (ran : stripMtkRamdisk mapped hdr boot = .ok (hdr', boot')) :
    Kept mapped raw start hdr' boot' := by
  unfold stripMtkRamdisk at ran
  split at ran
  · obtain ⟨header, headerRead, ran⟩ := bind_eq_ok ran
    obtain ⟨rFmt, -, ran⟩ := bind_eq_ok ran
    cases ran
    have inside := (read_eq_ok_iff.mp headerRead).1
    exact { kept.setRamdiskSize _ with
      block := kept.update_block (.inr rfl) _
      loaders := kept.loaders
      mtkRamdisk := fun _ => ⟨present, noTable, inside⟩ }
  · cases ran
    exact kept

/-- The table of an image can be read, and every entry of it can be looked at. -/
def TableReadable (mapped : List UInt8) (hdr : ImgHdr) (boot : BootImg) : Prop :=
  ∃ entries, vendorRamdiskTbl mapped hdr boot = .ok entries ∧
    ∀ entry ∈ entries, ∃ format, entryFmt mapped boot entry = .ok format

/-- The table only depends on the header and the block pointers. -/
theorem TableReadable.congr (readable : TableReadable mapped hdr boot)
    (sameBlocks : boot'.block = boot.block) : TableReadable mapped hdr boot' := by
  unfold TableReadable vendorRamdiskTbl entryFmt at readable ⊢
  rw [sameBlocks]
  exact readable

theorem mapM_ok {α β : Type} {step : α → Except Abort β} {items : List α} {results : List β}
    (ran : items.mapM step = .ok results) : ∀ item ∈ items, ∃ result, step item = .ok result := by
  induction items generalizing results with
  | nil => simp
  | cons item items ih =>
    rw [mapM_cons] at ran
    obtain ⟨result, here, ran⟩ := bind_eq_ok ran
    obtain ⟨others, there, -⟩ := bind_eq_ok ran
    exact forall_mem_cons.mpr ⟨⟨result, here⟩, ih there⟩

/-- An image with a table whose ramdisk block is not empty has a readable
table. -/
theorem parseRamdisk_spec (kept : Kept mapped raw start hdr boot)
    (sameSize : hdr.size .ramdisk = raw.size .ramdisk)
    (ran : parseRamdisk mapped hdr boot = .ok (hdr', boot')) :
    Kept mapped raw start hdr' boot' ∧ (raw.size .vendorRamdiskTable ≠ 0 → raw.size .ramdisk ≠ 0 →
        TableReadable mapped hdr' boot') := by
  have sameTable : hdr.size .vendorRamdiskTable = raw.size .vendorRamdiskTable :=
    kept.size _ (by decide) (by decide)
  unfold parseRamdisk at ran
  rw [sameSize, sameTable] at ran
  split at ran
  · rename_i absent
    cases ran
    exact ⟨kept, fun _ present => absurd absent present⟩
  · rename_i present
    split at ran
    · obtain ⟨entries, table, ran⟩ := bind_eq_ok ran
      obtain ⟨formats, looked, ran⟩ := bind_eq_ok ran
      cases ran
      exact ⟨kept, fun _ _ => ⟨entries, table, mapM_ok looked⟩⟩
    · rename_i noTable
      obtain ⟨rFmt, -, ran⟩ := bind_eq_ok ran
      have keptFmt : Kept mapped raw start hdr { boot with rFmt := rFmt } := { kept with }
      exact ⟨stripMtkRamdisk_spec keptFmt present (not_not.mp noTable) ran,
        fun table _ => absurd table noTable⟩

end Ramdisk

/-! ## Behind the blocks -/

section Tail

variable {env : Env} {mapped : List UInt8} {raw hdr : ImgHdr} {start boot boot' : BootImg}

theorem parseExtra_spec (kept : Kept mapped raw start hdr boot)
    (ran : parseExtra mapped hdr boot = .ok boot') :
    Kept mapped raw start hdr boot' ∧ boot'.block = boot.block := by
  unfold parseExtra at ran
  split at ran
  · cases ran
    exact ⟨kept, rfl⟩
  · obtain ⟨eFmt, -, ran⟩ := bind_eq_ok ran
    cases ran
    exact ⟨{ kept with }, rfl⟩

theorem loaders_tailFlags (env : Env) (mapped : List UInt8) (boot : BootImg) :
    (tailFlags env mapped boot).loaders = boot.flags.loaders ∧
      (tailFlags env mapped boot).mtkKernel = boot.flags.mtkKernel ∧
      (tailFlags env mapped boot).mtkRamdisk = boot.flags.mtkRamdisk ∧
      (tailFlags env mapped boot).avb = boot.flags.avb := by
  unfold tailFlags
  dsimp only
  split_ifs <;> exact ⟨rfl, rfl, rfl, rfl⟩

theorem findAvb_spec (kept : Kept mapped raw start hdr boot)
    (ran : findAvb mapped boot = .ok boot') :
    Kept mapped raw start hdr boot' ∧ boot'.block = boot.block := by
  obtain ⟨footer, footerRead, ran⟩ := bind_eq_ok ran
  have inside := (read_eq_ok_iff.mp footerRead).1
  split at ran
  · obtain ⟨magic, -, ran⟩ := bind_eq_ok ran
    split at ran
    · cases ran
      exact ⟨{ kept with footer := fun _ => inside }, rfl⟩
    · cases ran
      exact ⟨{ kept with footer := fun _ => inside }, rfl⟩
  · cases ran
    exact ⟨kept, rfl⟩

theorem parseTail_spec (kept : Kept mapped raw start hdr boot)
    (ran : parseTail env mapped boot = .ok boot') :
    Kept mapped raw start hdr boot' ∧ boot'.block = boot.block := by
  unfold parseTail at ran
  split at ran
  · cases ran
    exact ⟨kept, rfl⟩
  · obtain ⟨sameLoaders, sameKernel, sameRamdisk, sameAvb⟩ := loaders_tailFlags env mapped boot
    have keptFlags : Kept mapped raw start hdr { boot with flags := tailFlags env mapped boot } :=
      { kept with
        loaders := sameLoaders.trans kept.loaders
        mtkKernel := fun isSet => kept.mtkKernel (sameKernel ▸ isSet)
        mtkRamdisk := fun isSet => kept.mtkRamdisk (sameRamdisk ▸ isSet)
        footer := fun isSet => kept.footer (sameAvb ▸ isSet) }
    have found := findAvb_spec keptFlags ran
    exact found

end Tail

/-! ## The zImage flag -/

section Zimage

variable {env : Env} {mapped : List UInt8} {hdr hdr' : ImgHdr} {boot boot' : BootImg}

/-- Only the kernel step sets the zImage flag. -/
theorem zimageKernel_parseRamdisk (ran : parseRamdisk mapped hdr boot = .ok (hdr', boot')) :
    boot'.flags.zimageKernel = boot.flags.zimageKernel := by
  unfold parseRamdisk at ran
  split at ran
  · cases ran
    rfl
  · split at ran
    · obtain ⟨entries, -, ran⟩ := bind_eq_ok ran
      obtain ⟨formats, -, ran⟩ := bind_eq_ok ran
      cases ran
      rfl
    · obtain ⟨rFmt, -, ran⟩ := bind_eq_ok ran
      unfold stripMtkRamdisk at ran
      split at ran
      · obtain ⟨header, -, ran⟩ := bind_eq_ok ran
        obtain ⟨rFmt, -, ran⟩ := bind_eq_ok ran
        cases ran
        rfl
      · cases ran
        rfl

theorem zimageKernel_parseExtra (ran : parseExtra mapped hdr boot = .ok boot') :
    boot'.flags.zimageKernel = boot.flags.zimageKernel := by
  unfold parseExtra at ran
  split at ran
  · cases ran
    rfl
  · obtain ⟨eFmt, -, ran⟩ := bind_eq_ok ran
    cases ran
    rfl

theorem zimageKernel_parseTail (ran : parseTail env mapped boot = .ok boot') :
    boot'.flags.zimageKernel = boot.flags.zimageKernel := by
  have same : (tailFlags env mapped boot).zimageKernel = boot.flags.zimageKernel := by
    unfold tailFlags
    dsimp only
    split_ifs <;> rfl
  unfold parseTail at ran
  split at ran
  · cases ran
    rfl
  · obtain ⟨footer, -, ran⟩ := bind_eq_ok ran
    split at ran
    · obtain ⟨magic, -, ran⟩ := bind_eq_ok ran
      split at ran
      · cases ran
        exact same
      · cases ran
        exact same
    · cases ran
      exact same

end Zimage

/-! ## The header -/

/-- The header at the start of the mapping, in the class its own bytes select. -/
structure SourceHdr (mapped : List UInt8) (raw : ImgHdr) : Prop where
  inside : raw.cls.hdrSize ≤ mapped.length
  raw_eq : raw.raw = mapped.take raw.cls.hdrSize
  detected : raw.detect = raw.cls

section Header

variable {mapped : List UInt8} {cls : HdrClass} {raw : ImgHdr} {type : FileFormat}

theorem four_words_le_hdrSize (cls : HdrClass) : 44 ≤ cls.hdrSize := by
  cases cls <;> decide

theorem bootClass_take (reaches : 44 ≤ size) : bootClass (mapped.take size) = bootClass mapped := by
  rw [bootClass, bootClass, window_take (by omega), window_take (by omega)]

theorem vendorClass_take (reaches : 44 ≤ size) :
    vendorClass (mapped.take size) = vendorClass mapped := by
  rw [vendorClass, vendorClass, window_take (by omega)]

theorem newHdr_spec (made : newHdr mapped 0 cls cls.hdrSize = .ok raw) :
    cls.hdrSize ≤ mapped.length ∧ raw = ImgHdr.copy cls (mapped.take cls.hdrSize) := by
  rw [newHdr, if_neg (Nat.lt_irrefl _)] at made
  obtain ⟨bytes, bytesRead, made⟩ := bind_eq_ok made
  obtain ⟨inside, rfl⟩ := read_eq_ok_iff.mp bytesRead
  cases made
  rw [Nat.zero_add] at inside
  exact ⟨inside, rfl⟩

theorem raw_copy_take (inside : cls.hdrSize ≤ mapped.length) :
    (ImgHdr.copy cls (mapped.take cls.hdrSize)).raw = mapped.take cls.hdrSize :=
  ImgHdr.copy_of_length (length_take_of_le inside)

theorem sourceHdr_of_vendor (made : newHdr mapped 0 (vendorClass mapped)
      (vendorClass mapped).hdrSize = .ok raw) :
    raw = ImgHdr.copy (vendorClass mapped) (mapped.take (vendorClass mapped).hdrSize) ∧
      SourceHdr mapped raw := by
  obtain ⟨inside, rfl⟩ := newHdr_spec made
  have isVendor : (vendorClass mapped).isVendor = true := by
    unfold vendorClass
    split <;> rfl
  refine ⟨rfl, inside, raw_copy_take inside, ?_⟩
  rw [ImgHdr.detect, raw_copy_take inside, vendorClass_take (four_words_le_hdrSize _)]
  exact if_pos isVendor

theorem sourceHdr_of_boot (isBoot : bootClass mapped = cls)
    (made : newHdr mapped 0 cls cls.hdrSize = .ok raw) :
    raw = ImgHdr.copy (bootClass mapped) (mapped.take (bootClass mapped).hdrSize) ∧
      SourceHdr mapped raw := by
  obtain ⟨inside, rfl⟩ := newHdr_spec made
  have notVendor : ¬ cls.isVendor = true := by
    rw [← isBoot]
    unfold bootClass aospClass
    split
    · decide
    · split <;> decide
  refine ⟨by rw [isBoot], inside, raw_copy_take inside, ?_⟩
  rw [ImgHdr.detect, raw_copy_take inside, bootClass_take (four_words_le_hdrSize _)]
  exact (if_neg notVendor).trans isBoot

/-- The object behind `parse_hdr` has no loader flag. -/
def NoLoader (flags : Flags) : Prop :=
  flags.loaders = replicate 6 false

/-- `parse_hdr` only finds a header and loaders. -/
theorem parseHdr_frame {address' : Nat} {boot boot' : BootImg}
    (ran : parseHdr mapped boot address type = .ok (address', boot')) :
    boot'.flags.mtkKernel = boot.flags.mtkKernel ∧
      boot'.flags.mtkRamdisk = boot.flags.mtkRamdisk ∧ boot'.flags.avb = boot.flags.avb ∧
      boot'.flags.zimageKernel = boot.flags.zimageKernel ∧ boot'.kernelDtb = boot.kernelDtb := by
  unfold parseHdr at ran
  dsimp only at ran
  split at ran
  · obtain ⟨hdr, -, ran⟩ := bind_eq_ok ran
    cases ran
    exact ⟨rfl, rfl, rfl, rfl, rfl⟩
  · repeat' split at ran
    all_goals
      obtain ⟨hdr, -, ran⟩ := bind_eq_ok ran
      cases ran
      exact ⟨rfl, rfl, rfl, rfl, rfl⟩

/-- Without a loader in front, `parse_hdr` takes the header at the start of the
file. -/
theorem parseHdr_spec {boot : BootImg} (ran : parseHdr mapped {} 0 type = .ok (address, boot))
    (plain : NoLoader boot.flags) (isHdr : boot.hdr = some raw) :
    address = 0 ∧ boot = { hdr := some raw } ∧ SourceHdr mapped raw ∧
      if type = .aospVendor then
        raw = ImgHdr.copy (vendorClass mapped) (mapped.take (vendorClass mapped).hdrSize)
      else raw = ImgHdr.copy (bootClass mapped) (mapped.take (bootClass mapped).hdrSize) := by
  unfold parseHdr at ran
  simp only [drop_zero] at ran
  split at ran
  · rename_i isVendor
    obtain ⟨hdr, made, ran⟩ := bind_eq_ok ran
    cases ran
    cases isHdr
    obtain ⟨copied, source⟩ := sourceHdr_of_vendor made
    rw [if_pos isVendor]
    exact ⟨rfl, rfl, source, copied⟩
  · rename_i notVendor
    rw [if_neg notVendor]
    split at ran
    · rename_i isPxa
      obtain ⟨hdr, made, ran⟩ := bind_eq_ok ran
      cases ran
      cases isHdr
      obtain ⟨copied, source⟩ := sourceHdr_of_boot (if_pos isPxa) made
      exact ⟨rfl, rfl, source, copied⟩
    · rename_i notPxa
      split at ran
      · obtain ⟨hdr, -, ran⟩ := bind_eq_ok ran
        cases ran
        cases plain
      · split at ran
        · obtain ⟨hdr, -, ran⟩ := bind_eq_ok ran
          cases ran
          cases plain
        · split at ran
          · obtain ⟨hdr, -, ran⟩ := bind_eq_ok ran
            cases ran
            cases plain
          · obtain ⟨hdr, made, ran⟩ := bind_eq_ok ran
            cases ran
            cases isHdr
            unfold makeAospHdr at made
            simp only [drop_zero] at made
            split at made
            · obtain ⟨hdr, made, same⟩ := bind_eq_ok made
              cases same
              obtain ⟨copied, source⟩ := sourceHdr_of_boot (if_neg notPxa) made
              exact ⟨rfl, rfl, source, copied⟩
            · cases made

end Header

/-! ## The image -/

/-- A boot image at the very start of the file. -/
structure Accepted (env : Env) (map : List UInt8) (boot : BootImg) : Prop where
  isBoot : checkFmt (env.mapped map) map.length = .aosp ∨
    checkFmt (env.mapped map) map.length = .aospVendor
  parsed : parseImage env map {} 0 (checkFmt (env.mapped map) map.length) = .ok (true, boot)

/-- What is known of an accepted image whose header in the file is `raw`. -/
structure Source (mapped : List UInt8) (raw src : ImgHdr) (boot : BootImg) : Prop where
  header : SourceHdr mapped raw
  hdr : boot.hdr = some src
  edits : ImgHdr.Edits raw src
  size : ∀ block, block ≠ .kernel → block ≠ .ramdisk → src.size block = raw.size block
  noKernel : raw.size .kernel = 0 → src.size .kernel = 0
  address : boot.payload.address = 0
  loaders : NoLoader boot.flags
  space : raw.hdrSpace ≤ mapped.length
  inside : ∀ block, block ≠ .kernel → block ≠ .ramdisk →
    boot.block block + raw.size block ≤ mapped.length
  mtkKernel : boot.flags.mtkKernel = true →
    raw.size .kernel ≠ 0 ∧ boot.kHdr + 512 ≤ mapped.length
  mtkRamdisk : boot.flags.mtkRamdisk = true →
    raw.size .ramdisk ≠ 0 ∧ raw.size .vendorRamdiskTable = 0 ∧ boot.rHdr + 512 ≤ mapped.length
  kernelDtb : boot.kernelDtb.size ≠ 0 → raw.size .kernel ≠ 0
  footer : boot.flags.avb = true → boot.avbFooter + 64 ≤ mapped.length
  table : raw.size .vendorRamdiskTable ≠ 0 → raw.size .ramdisk ≠ 0 →
    TableReadable mapped src boot

section Accepted

variable {env : Env} {map : List UInt8} {boot : BootImg} {buffer : List UInt8}

theorem length_mapped (env : Env) (map : List UInt8) : map.length ≤ (env.mapped map).length := by
  rw [Env.mapped, length_padded env.getpagesize_pos]
  exact le_alignTo env.getpagesize_pos

theorem bootMagic_of_checkFmt (isBoot : checkFmt buffer size = .aosp) :
    checkedMatch buffer size bootMagic = true := by
  by_contra notFound
  rw [checkFmt, if_neg notFound] at isBoot
  simp only [ite_eq_iff, reduceCtorEq, and_false, or_self] at isBoot

theorem vendorBootMagic_of_checkFmt (isVendor : checkFmt buffer size = .aospVendor) :
    checkedMatch buffer size vendorBootMagic = true := by
  by_contra notFound
  rw [checkFmt, if_neg notFound] at isVendor
  simp only [ite_eq_iff, reduceCtorEq, and_false, or_self] at isVendor

/-- A longer buffer still shows the magic. -/
theorem checkedMatch_mono {magic : List UInt8} {larger : Nat}
    (found : checkedMatch buffer size magic = true) (longer : size ≤ larger) :
    checkedMatch buffer larger magic = true := by
  rw [checkedMatch_iff] at found ⊢
  exact ⟨found.1.trans longer, found.2⟩

/-- The constructor stops at an image at the very start. -/
theorem Accepted.bootImg_eq (accepted : Accepted env map boot) : bootImg env map = .ok boot := by
  have nonempty : 0 < map.length := by
    rcases accepted.isBoot with isBoot | isVendor
    · have long := (checkedMatch_iff.mp (bootMagic_of_checkFmt isBoot)).1
      have eight : bootMagic.length = 8 := by decide
      omega
    · have long := (checkedMatch_iff.mp (vendorBootMagic_of_checkFmt isVendor)).1
      have eight : vendorBootMagic.length = 8 := by decide
      omega
  have parsed := accepted.parsed
  rw [bootImg, ← Nat.sub_add_cancel nonempty, scanImage, if_neg (by omega), drop_zero]
  rcases accepted.isBoot with isBoot | isVendor
  · rw [isBoot] at parsed ⊢
    simp only [parsed]
  · rw [isVendor] at parsed ⊢
    simp only [parsed]

/-- The header that starts the mapping is the one `parse_hdr` takes. -/
theorem Accepted.readHdr_eq (accepted : Accepted env map boot) {raw : ImgHdr}
    (copied : if checkFmt (env.mapped map) map.length = .aospVendor then
        raw = ImgHdr.copy (vendorClass (env.mapped map))
          ((env.mapped map).take (vendorClass (env.mapped map)).hdrSize)
      else raw = ImgHdr.copy (bootClass (env.mapped map))
        ((env.mapped map).take (bootClass (env.mapped map)).hdrSize)) :
    readHdr (env.mapped map) = some raw := by
  rcases accepted.isBoot with isBoot | isVendor
  · have again := checkFmt_of_bootMagic
      (checkedMatch_mono (bootMagic_of_checkFmt isBoot) (length_mapped env map))
    rw [isBoot] at copied
    rw [readHdr, again, copied]
  · have again := checkFmt_of_vendorBootMagic
      (checkedMatch_mono (vendorBootMagic_of_checkFmt isVendor) (length_mapped env map))
    rw [isVendor] at copied
    rw [readHdr, again, copied]

/-- An accepted image without a loader has a header in the file, and the object
describes blocks that lie inside the mapping. -/
theorem Accepted.source (accepted : Accepted env map boot) (plain : NoLoader boot.flags) :
    ∃ raw, readHdr (env.mapped map) = some raw ∧
      (raw.size .kernel = 0 → boot.flags.zimageKernel = false) ∧
      (0 < raw.pageSize → ∃ src, Source (env.mapped map) raw src boot) := by
  have ran := accepted.parsed
  obtain ⟨⟨address, found⟩, header, ran⟩ := bind_eq_ok ran
  dsimp only at ran
  split at ran
  · cases ran
  · rename_i raw isHdr
    split at ran
    · cases ran
    · rename_i off pointers located
      obtain ⟨⟨hdrKernel, bootKernel⟩, kernel, ran⟩ := bind_eq_ok ran
      obtain ⟨⟨hdrRamdisk, bootRamdisk⟩, ramdisk, ran⟩ := bind_eq_ok ran
      obtain ⟨bootExtra, extra, ran⟩ := bind_eq_ok ran
      obtain ⟨bootTail, tail, ran⟩ := bind_eq_ok ran
      cases ran
      obtain ⟨noKernel, noRamdisk, noAvb, noZimage, noDtb⟩ := parseHdr_frame header
      let start := (found.checkId raw).withBlocks address off (env.mapped map).length pointers
      have keptStart : Kept (env.mapped map) raw start raw start :=
        { edits := .refl raw
          size := fun _ _ _ => rfl
          noKernel := id
          block := fun _ _ _ => rfl
          payload := rfl
          loaders := rfl
          mtkKernel := fun isSet => absurd (noKernel.symm.trans isSet) (by decide)
          mtkRamdisk := fun isSet => absurd (noRamdisk.symm.trans isSet) (by decide)
          kernelDtb := fun present => absurd (congrArg View.size noDtb) present
          footer := fun isSet => absurd (noAvb.symm.trans isSet) (by decide) }
      obtain ⟨keptKernel, onlyKernel⟩ := parseKernel_spec keptStart rfl kernel
      obtain ⟨keptRamdisk, readable⟩ :=
        parseRamdisk_spec keptKernel onlyKernel.ramdiskSize ramdisk
      obtain ⟨keptExtra, blocksExtra⟩ := parseExtra_spec keptRamdisk extra
      obtain ⟨keptTail, blocksTail⟩ := parseTail_spec keptExtra tail
      have plainFound : NoLoader found.flags := keptTail.loaders.symm.trans plain
      obtain ⟨rfl, rfl, sourceHdr, copied⟩ := parseHdr_spec header plainFound isHdr
      have zimage : raw.size .kernel = 0 → bootTail.flags.zimageKernel = false := by
        intro absent
        rw [parseKernel, if_pos absent] at kernel
        cases kernel
        rw [zimageKernel_parseTail tail, zimageKernel_parseExtra extra,
          zimageKernel_parseRamdisk ramdisk]
        exact noZimage
      refine ⟨raw, accepted.readHdr_eq copied, zimage, fun positive => ⟨hdrRamdisk, ?_⟩⟩
      obtain ⟨reaches, ends, -, inside⟩ := getBlocks_spec positive (by decide) located
      have endsInside := ends (by decide)
      exact
        { header := sourceHdr
          hdr := rfl
          edits := keptTail.edits
          size := keptTail.size
          noKernel := keptTail.noKernel
          address := congrArg View.address keptTail.payload
          loaders := plain
          space := by omega
          inside := fun block notKernel notRamdisk =>
            keptTail.block block notKernel notRamdisk ▸ inside block block.mem_all
          mtkKernel := keptTail.mtkKernel
          mtkRamdisk := keptTail.mtkRamdisk
          kernelDtb := keptTail.kernelDtb
          footer := keptTail.footer
          table := fun table present =>
            (readable table present).congr (blocksTail.trans blocksExtra) }

end Accepted

end Magisk.Boot.Image
