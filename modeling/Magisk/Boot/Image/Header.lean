import Magisk.Boot.Image.Format
import Magisk.Bytes.Paged

/-!
# The polymorphic boot image header

`dyn_img_hdr` hides eight header layouts behind one set of accessors.  A layout
is a table from fields to byte ranges; a header is its class together with
exactly as many bytes as that class has.  A field the class does not have reads
as zero, and writing it goes to a junk variable, that is, nowhere.

The bytes that select the class when a header is read back are fields of the
table as well, so that one disjointness fact shows that setting any other field
keeps the class.  The exception is `extra_size` of a version 0 header, which
lies on top of `header_version`.
-/

namespace Magisk.Boot.Image

open List Bytes

variable {start count : Nat}

/-! ## Layouts -/

/-- The header classes. -/
inductive HdrClass where
  | v0
  | v1
  | v2
  | pxa
  | v3
  | v4
  | vndV3
  | vndV4
  deriving DecidableEq, Repr

instance : Fintype HdrClass :=
  Fintype.ofList [.v0, .v1, .v2, .pxa, .v3, .v4, .vndV3, .vndV4] (by rintro ⟨⟩ <;> decide)

/-- The fields the program accesses. -/
inductive Field where
  | magic
  | kernelSize
  | ramdiskSize
  | secondSize
  | unknown
  | pageSize
  | headerVersion
  | extraSize
  | osVersion
  | name
  | cmdline
  | id
  | extraCmdline
  | recoveryDtboSize
  | recoveryDtboOffset
  | headerSize
  | dtbSize
  | signatureSize
  | vendorRamdiskTableSize
  | vendorRamdiskTableEntryNum
  | vendorRamdiskTableEntrySize
  | bootconfigSize
  deriving DecidableEq, Repr

instance : Fintype Field :=
  Fintype.ofList [.magic, .kernelSize, .ramdiskSize, .secondSize, .unknown, .pageSize,
    .headerVersion, .extraSize, .osVersion, .name, .cmdline, .id, .extraCmdline,
    .recoveryDtboSize, .recoveryDtboOffset, .headerSize, .dtbSize, .signatureSize,
    .vendorRamdiskTableSize, .vendorRamdiskTableEntryNum, .vendorRamdiskTableEntrySize,
    .bootconfigSize] (by rintro ⟨⟩ <;> decide)

/-- `boot_img_hdr_v0`. -/
def spanV0 : Field → Option (Nat × Nat)
  | .magic => some (0, 8)
  | .kernelSize => some (8, 4)
  | .ramdiskSize => some (16, 4)
  | .secondSize => some (24, 4)
  | .pageSize => some (36, 4)
  | .extraSize => some (40, 4)
  | .osVersion => some (44, 4)
  | .name => some (48, 16)
  | .cmdline => some (64, 512)
  | .id => some (576, 32)
  | .extraCmdline => some (608, 1024)
  | _ => none

/-- `boot_img_hdr_v1`, whose accessors drop `extra_size` again. -/
def spanV1 : Field → Option (Nat × Nat)
  | .extraSize => none
  | .headerVersion => some (40, 4)
  | .recoveryDtboSize => some (1632, 4)
  | .recoveryDtboOffset => some (1636, 8)
  | .headerSize => some (1644, 4)
  | field => spanV0 field

/-- `boot_img_hdr_v2`. -/
def spanV2 : Field → Option (Nat × Nat)
  | .dtbSize => some (1648, 4)
  | field => spanV1 field

/-- `boot_img_hdr_pxa`. -/
def spanPxa : Field → Option (Nat × Nat)
  | .magic => some (0, 8)
  | .kernelSize => some (8, 4)
  | .ramdiskSize => some (16, 4)
  | .secondSize => some (24, 4)
  | .extraSize => some (32, 4)
  | .unknown => some (36, 4)
  | .pageSize => some (44, 4)
  | .name => some (48, 24)
  | .cmdline => some (72, 512)
  | .id => some (584, 32)
  | .extraCmdline => some (616, 1024)
  | _ => none

/-- `boot_img_hdr_v3`.  Its last reserved word takes the place in which the
older headers keep the page size. -/
def spanV3 : Field → Option (Nat × Nat)
  | .magic => some (0, 8)
  | .kernelSize => some (8, 4)
  | .ramdiskSize => some (12, 4)
  | .osVersion => some (16, 4)
  | .headerSize => some (20, 4)
  | .unknown => some (36, 4)
  | .headerVersion => some (40, 4)
  | .cmdline => some (44, 512)
  | .extraCmdline => some (556, 1024)
  | _ => none

/-- `boot_img_hdr_v4`. -/
def spanV4 : Field → Option (Nat × Nat)
  | .signatureSize => some (1580, 4)
  | field => spanV3 field

/-- `boot_img_hdr_vnd_v3`. -/
def spanVndV3 : Field → Option (Nat × Nat)
  | .magic => some (0, 8)
  | .headerVersion => some (8, 4)
  | .pageSize => some (12, 4)
  | .ramdiskSize => some (24, 4)
  | .cmdline => some (28, 512)
  | .extraCmdline => some (540, 1024)
  | .name => some (2080, 16)
  | .headerSize => some (2096, 4)
  | .dtbSize => some (2100, 4)
  | _ => none

/-- `boot_img_hdr_vnd_v4`. -/
def spanVndV4 : Field → Option (Nat × Nat)
  | .vendorRamdiskTableSize => some (2112, 4)
  | .vendorRamdiskTableEntryNum => some (2116, 4)
  | .vendorRamdiskTableEntrySize => some (2120, 4)
  | .bootconfigSize => some (2124, 4)
  | field => spanVndV3 field

variable {cls : HdrClass}

namespace HdrClass

/-- Offset and width of a field, if the class has it. -/
def span : HdrClass → Field → Option (Nat × Nat)
  | .v0 => spanV0
  | .v1 => spanV1
  | .v2 => spanV2
  | .pxa => spanPxa
  | .v3 => spanV3
  | .v4 => spanV4
  | .vndV3 => spanVndV3
  | .vndV4 => spanVndV4

/-- `hdr_size`. -/
def hdrSize : HdrClass → Nat
  | .v0 => 1632
  | .v1 => 1648
  | .v2 => 1660
  | .pxa => 1640
  | .v3 => 1580
  | .v4 => 1584
  | .vndV3 => 2112
  | .vndV4 => 2128

/-- `is_vendor`. -/
def isVendor : HdrClass → Bool
  | .vndV3 | .vndV4 => true
  | _ => false

/-- The ranges of two fields do not meet. -/
def apart (cls : HdrClass) (field other : Field) : Bool :=
  match cls.span field, cls.span other with
  | some (start, count), some (otherStart, otherCount) =>
    decide (start + count ≤ otherStart ∨ otherStart + otherCount ≤ start)
  | _, _ => true

theorem apart_of_ne : ∀ (cls : HdrClass) (field other : Field), field ≠ other →
    cls.apart field other = true := by
  decide +kernel

theorem span_inside : ∀ (cls : HdrClass) (field : Field),
    ∀ range ∈ cls.span field, range.1 + range.2 ≤ cls.hdrSize := by
  decide +kernel

/-- Where two fields of one class lie. -/
theorem span_apart {field other : Field} (different : field ≠ other) {otherStart otherCount : Nat}
    (here : cls.span field = some (start, count))
    (there : cls.span other = some (otherStart, otherCount)) :
    start + count ≤ otherStart ∨ otherStart + otherCount ≤ start := by
  have separated := apart_of_ne cls field other different
  rw [apart, here, there] at separated
  exact of_decide_eq_true separated

end HdrClass

/-! ## Headers -/

/-- A header of one of the classes, with exactly the bytes of that class. -/
structure ImgHdr where
  cls : HdrClass
  raw : List UInt8
  length_raw : raw.length = cls.hdrSize

namespace ImgHdr

variable {bytes : List UInt8}

/-- The constructor: a zeroed header filled from `bytes`. -/
def copy (cls : HdrClass) (bytes : List UInt8) : ImgHdr where
  cls := cls
  raw := (bytes ++ zeros cls.hdrSize).take cls.hdrSize
  length_raw := by
    rw [length_take, length_append, length_zeros]
    omega

/-- The bytes of a field, none if the class does not have it. -/
def field (hdr : ImgHdr) (field : Field) : List UInt8 :=
  match hdr.cls.span field with
  | some (start, count) => window hdr.raw start count
  | none => []

/-- The value of a numeric field. -/
def get (hdr : ImgHdr) (field : Field) : Nat :=
  ofLe (hdr.field field)

/-- Overwrite a field from its first byte on. -/
def put (hdr : ImgHdr) (field : Field) (bytes : List UInt8) : ImgHdr :=
  match hdr.cls.span field with
  | some (start, count) =>
    { hdr with
      raw := poke hdr.raw start (bytes.take count)
      length_raw := (length_poke _ _ _).trans hdr.length_raw }
  | none => hdr

/-- Assign a numeric field. -/
def set (hdr : ImgHdr) (field : Field) (value : Nat) : ImgHdr :=
  match hdr.cls.span field with
  | some (_, count) => hdr.put field (leBytes count value)
  | none => hdr

/-- `page_size`, a constant from version 3 on. -/
def pageSize (hdr : ImgHdr) : Nat :=
  match hdr.cls with
  | .v3 | .v4 => 4096
  | _ => hdr.get .pageSize

/-- `hdr_space`. -/
def hdrSpace (hdr : ImgHdr) : Nat :=
  if hdr.cls.isVendor then alignTo hdr.cls.hdrSize hdr.pageSize else hdr.pageSize

theorem copy_of_length (exact : bytes.length = cls.hdrSize) : (copy cls bytes).raw = bytes :=
  take_left' exact

section

variable (hdr : ImgHdr)

include hdr

@[simp]
theorem cls_put (field : Field) (bytes : List UInt8) : (hdr.put field bytes).cls = hdr.cls := by
  unfold put
  split <;> rfl

@[simp]
theorem cls_set (field : Field) (value : Nat) : (hdr.set field value).cls = hdr.cls := by
  unfold set
  split
  · exact cls_put _ _ _
  · rfl

variable {field other : Field}

/-- Writing one field leaves the others alone. -/
theorem field_put_of_ne (different : field ≠ other) (bytes : List UInt8) :
    (hdr.put field bytes).field other = hdr.field other := by
  unfold ImgHdr.field
  rw [cls_put]
  cases there : hdr.cls.span other with
  | none => rfl
  | some range =>
    obtain ⟨otherStart, otherCount⟩ := range
    cases here : hdr.cls.span field with
    | none => rw [put, here]
    | some range =>
      have separated := HdrClass.span_apart different here there
      rw [put, here]
      apply window_poke_of_disjoint
      rw [length_take]
      omega

/-- A field that was written in full is read back. -/
theorem field_put_self (here : hdr.cls.span field = some (start, count))
    (full : bytes.length = count) : (hdr.put field bytes).field field = bytes := by
  have inside := HdrClass.span_inside hdr.cls field (start, count) here
  have written : (hdr.put field bytes).raw = poke hdr.raw start bytes := by
    rw [put, here, ← full]
    exact congrArg (poke hdr.raw start) take_length
  rw [ImgHdr.field, cls_put, here]
  rw [written, ← full]
  apply window_poke_self
  rw [hdr.length_raw, full]
  exact inside

theorem field_set_of_ne (different : field ≠ other) (value : Nat) :
    (hdr.set field value).field other = hdr.field other := by
  unfold set
  split
  · exact field_put_of_ne hdr different _
  · rfl

theorem get_put_of_ne (different : field ≠ other) (bytes : List UInt8) :
    (hdr.put field bytes).get other = hdr.get other :=
  congrArg ofLe (field_put_of_ne hdr different bytes)

theorem get_set_of_ne (different : field ≠ other) (value : Nat) :
    (hdr.set field value).get other = hdr.get other :=
  congrArg ofLe (field_set_of_ne hdr different value)

/-- A numeric field keeps the low bytes of what is assigned to it. -/
theorem get_set_self (here : hdr.cls.span field = some (start, count)) (value : Nat) :
    (hdr.set field value).get field = value % 256 ^ count := by
  have assigned : hdr.set field value = hdr.put field (leBytes count value) := by
    rw [set, here]
  rw [get, assigned, field_put_self hdr here (length_leBytes count value), ofLe_leBytes]

end

/-- A field the class does not have reads as zero. -/
theorem get_of_span_eq_none {hdr : ImgHdr} {field : Field}
    (missing : hdr.cls.span field = none) : hdr.get field = 0 := by
  rw [get, ImgHdr.field, missing]
  rfl

end ImgHdr

/-! ## Blocks -/

/-- The blocks of an image, in the order in which they follow the header. -/
inductive Block where
  | kernel
  | ramdisk
  | second
  | extra
  | recoveryDtbo
  | dtb
  | signature
  | vendorRamdiskTable
  | bootconfig
  deriving DecidableEq, Repr

namespace Block

/-- The order of `get_block` in `parse_image`. -/
def all : List Block :=
  [.kernel, .ramdisk, .second, .extra, .recoveryDtbo, .dtb, .signature, .vendorRamdiskTable,
    .bootconfig]

theorem mem_all (block : Block) : block ∈ all := by
  cases block <;> decide

instance : Fintype Block :=
  Fintype.ofList all mem_all

/-- The header field with the size of a block. -/
def sizeField : Block → Field
  | .kernel => .kernelSize
  | .ramdisk => .ramdiskSize
  | .second => .secondSize
  | .extra => .extraSize
  | .recoveryDtbo => .recoveryDtboSize
  | .dtb => .dtbSize
  | .signature => .signatureSize
  | .vendorRamdiskTable => .vendorRamdiskTableSize
  | .bootconfig => .bootconfigSize

theorem sizeField_injective : Function.Injective sizeField := by
  decide

theorem span_sizeField : ∀ (cls : HdrClass) (block : Block),
    ∀ range ∈ cls.span block.sizeField, range.2 = 4 := by
  decide +kernel

end Block

namespace ImgHdr

/-- The size of a block. -/
def size (hdr : ImgHdr) (block : Block) : Nat :=
  hdr.get block.sizeField

/-- Assign the size of a block. -/
def setSize (hdr : ImgHdr) (block : Block) (value : Nat) : ImgHdr :=
  hdr.set block.sizeField value

@[simp]
theorem cls_setSize (hdr : ImgHdr) (block : Block) (value : Nat) :
    (hdr.setSize block value).cls = hdr.cls :=
  cls_set hdr _ value

variable {block : Block}

theorem size_setSize_of_ne (hdr : ImgHdr) {other : Block} (different : block ≠ other)
    (value : Nat) :
    (hdr.setSize block value).size other = hdr.size other :=
  get_set_of_ne hdr (Block.sizeField_injective.ne different) value

/-- The class has a size field for the block. -/
def Has (cls : HdrClass) (block : Block) : Prop :=
  (cls.span block.sizeField).isSome

instance (cls : HdrClass) (block : Block) : Decidable (Has cls block) :=
  inferInstanceAs (Decidable ((cls.span block.sizeField).isSome = true))

theorem size_of_not_has {hdr : ImgHdr} (missing : ¬ Has hdr.cls block) : hdr.size block = 0 :=
  get_of_span_eq_none (Option.not_isSome_iff_eq_none.mp missing)

theorem size_lt (hdr : ImgHdr) (block : Block) : hdr.size block < 2 ^ 32 := by
  cases here : hdr.cls.span block.sizeField with
  | none =>
    rw [size, get_of_span_eq_none here]
    decide
  | some range =>
    obtain ⟨start, count⟩ := range
    have four : count = 4 := Block.span_sizeField hdr.cls block (start, count) here
    have inside := HdrClass.span_inside hdr.cls block.sizeField (start, count) here
    have bound := ofLe_lt (window hdr.raw start count)
    rw [length_window (hdr.length_raw ▸ inside)] at bound
    rw [size, get, field, here]
    exact four ▸ bound

/-- Sizes are stored in 32 bits. -/
theorem size_setSize_self {hdr : ImgHdr} (has : Has hdr.cls block) (value : Nat) :
    (hdr.setSize block value).size block = value % 2 ^ 32 := by
  obtain ⟨⟨start, count⟩, here⟩ := Option.isSome_iff_exists.mp has
  have four : count = 4 := Block.span_sizeField hdr.cls block (start, count) here
  subst four
  exact get_set_self hdr here value

end ImgHdr

/-! ## The class of a header -/

/-- `make_aosp_hdr`: the class of a header by its version. -/
def aospClass (version : Nat) : HdrClass :=
  match version with
  | 1 => .v1
  | 2 => .v2
  | 3 => .v3
  | 4 => .v4
  | _ => .v0

theorem aospClass_ne_pxa (version : Nat) : aospClass version ≠ .pxa := by
  unfold aospClass
  split <;> decide

/-- The class `parse_hdr` gives to a header without a loader in front. -/
def bootClass (header : List UInt8) : HdrClass :=
  if 0x02000000 ≤ ofLe (window header 36 4) then .pxa
  else aospClass (ofLe (window header 40 4))

/-- The class `parse_hdr` gives to a vendor header. -/
def vendorClass (header : List UInt8) : HdrClass :=
  if ofLe (window header 8 4) = 4 then .vndV4 else .vndV3

/-- Read the header at the start of a file. -/
def readHdr (file : List UInt8) : Option ImgHdr :=
  match checkFmt file file.length with
  | .aosp => some (ImgHdr.copy (bootClass file) (file.take (bootClass file).hdrSize))
  | .aospVendor => some (ImgHdr.copy (vendorClass file) (file.take (vendorClass file).hdrSize))
  | _ => none

namespace ImgHdr

/-- The class the bytes of a header select. -/
def detect (hdr : ImgHdr) : HdrClass :=
  if hdr.cls.isVendor then vendorClass hdr.raw else bootClass hdr.raw

/-- The fields that select the class of a header. -/
def selectors : HdrClass → List Field
  | .v0 => [.pageSize, .extraSize]
  | .v1 | .v2 => [.pageSize, .headerVersion]
  | .pxa => [.unknown]
  | .v3 | .v4 => [.unknown, .headerVersion]
  | .vndV3 | .vndV4 => [.headerVersion]

/-- What the word in the place of `page_size` and the one in the place of
`header_version` say together. -/
theorem detect_eq (hdr : ImgHdr) : hdr.detect =
    match hdr.cls with
    | .v0 => if 0x02000000 ≤ hdr.get .pageSize then .pxa else aospClass (hdr.get .extraSize)
    | .v1 | .v2 =>
      if 0x02000000 ≤ hdr.get .pageSize then .pxa else aospClass (hdr.get .headerVersion)
    | .pxa =>
      if 0x02000000 ≤ hdr.get .unknown then .pxa
      else aospClass (ofLe (window hdr.raw 40 4))
    | .v3 | .v4 =>
      if 0x02000000 ≤ hdr.get .unknown then .pxa else aospClass (hdr.get .headerVersion)
    | .vndV3 | .vndV4 => if hdr.get .headerVersion = 4 then .vndV4 else .vndV3 := by
  obtain ⟨cls, raw, length_raw⟩ := hdr
  cases cls <;> rfl

/-- A header that agrees with a detected one on the selecting fields is
detected as well. -/
theorem detect_eq_cls_of_agree {hdr other : ImgHdr} (sameClass : other.cls = hdr.cls)
    (agree : ∀ field ∈ selectors hdr.cls, other.get field = hdr.get field)
    (detected : hdr.detect = hdr.cls) : other.detect = other.cls := by
  rw [detect_eq] at detected ⊢
  rw [sameClass]
  cases cls : hdr.cls with
  | v0 | v1 | v2 | v3 | v4 =>
    rw [cls] at agree detected
    simp only [selectors, mem_cons, forall_eq_or_imp] at agree
    simpa only [agree.1, agree.2] using detected
  | vndV3 | vndV4 =>
    rw [cls] at agree detected
    simp only [selectors, mem_cons, not_mem_nil, or_false] at agree
    simpa only [agree] using detected
  | pxa =>
    rw [cls] at agree detected
    simp only [selectors, mem_cons, not_mem_nil, or_false, forall_eq] at agree
    have large : 0x02000000 ≤ hdr.get .unknown := by
      by_contra small
      exact aospClass_ne_pxa _ ((if_neg small).symm.trans detected)
    rw [← agree] at large
    exact if_pos large

/-! ## Assignments -/

/-- The fields that have a reading accessor only. -/
def readOnly : List Field :=
  [.magic, .unknown, .pageSize, .headerVersion, .signatureSize, .vendorRamdiskTableSize,
    .vendorRamdiskTableEntryNum, .vendorRamdiskTableEntrySize]

/-- The second header comes from the first by assignments through accessors. -/
structure Edits (hdr other : ImgHdr) : Prop where
  cls : other.cls = hdr.cls
  field : ∀ field ∈ readOnly, other.field field = hdr.field field

namespace Edits

variable {hdr other last : ImgHdr}

theorem refl (hdr : ImgHdr) : Edits hdr hdr :=
  ⟨rfl, fun _ _ => rfl⟩

theorem trans (first : Edits hdr other) (second : Edits other last) : Edits hdr last :=
  ⟨second.cls.trans first.cls, fun field mem =>
    (second.field field mem).trans (first.field field mem)⟩

theorem put (hdr : ImgHdr) {field : Field} (assignable : field ∉ readOnly)
    (bytes : List UInt8) : Edits hdr (hdr.put field bytes) :=
  ⟨cls_put hdr field bytes, fun _ mem =>
    field_put_of_ne hdr (ne_of_mem_of_not_mem mem assignable).symm bytes⟩

theorem set (hdr : ImgHdr) {field : Field} (assignable : field ∉ readOnly) (value : Nat) :
    Edits hdr (hdr.set field value) :=
  ⟨cls_set hdr field value, fun _ mem =>
    field_set_of_ne hdr (ne_of_mem_of_not_mem mem assignable).symm value⟩

section

variable (edits : Edits hdr other)

include edits

theorem get {field : Field} (mem : field ∈ readOnly) : other.get field = hdr.get field :=
  congrArg ofLe (edits.field field mem)

theorem pageSize : other.pageSize = hdr.pageSize := by
  unfold ImgHdr.pageSize
  rw [edits.cls, edits.get (by decide)]

theorem hdrSpace : other.hdrSpace = hdr.hdrSpace := by
  rw [ImgHdr.hdrSpace, ImgHdr.hdrSpace, edits.cls, edits.pageSize]

/-- Assignments keep the class, unless the extra size of a version 0 header
becomes one of the later versions. -/
theorem detect_eq_cls (detected : hdr.detect = hdr.cls)
    (version : hdr.cls = .v0 → aospClass (other.get .extraSize) = .v0) :
    other.detect = other.cls := by
  by_cases isV0 : hdr.cls = .v0
  · have small : ¬ 0x02000000 ≤ hdr.get .pageSize := by
      intro large
      rw [detect_eq, isV0] at detected
      exact absurd ((if_pos large).symm.trans detected) (by decide)
    rw [detect_eq, edits.cls, isV0]
    rw [← edits.get (by decide)] at small
    exact (if_neg small).trans (version isV0)
  · apply detect_eq_cls_of_agree edits.cls _ detected
    intro field mem
    apply edits.get
    cases cls : hdr.cls with
    | v0 => exact absurd cls isV0
    | v1 | v2 | pxa | v3 | v4 | vndV3 | vndV4 =>
      rw [cls] at mem
      revert field
      decide

end

end Edits

end ImgHdr

end Magisk.Boot.Image
