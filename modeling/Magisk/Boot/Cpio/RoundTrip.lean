import Magisk.Boot.Cpio.Core
import Magisk.Map.Core

/-!
# Reading back a dumped archive

The writer is first rewritten as concatenation: from a four-byte aligned
position, one entry appends a self-contained record.  Reading that record at
the same position consumes exactly it, and the trailer is followed either by
nothing or by zero padding and the next archive.
-/

namespace Magisk.Boot.Cpio

open List Bytes Base

variable {before : List UInt8} {cpio : Cpio} {named rest : List (String × CpioEntry)}
  {values : List Nat} {s : DumpState} {index : Nat}

/-! ## Header fields -/

@[simp]
theorem x8u_hex (value : Nat) : x8u (hex 8 value) = .ok value := by
  simp [x8u, readHex_hexDigits]

/-- Fixed-width chunks are recovered from their concatenation by position. -/
private theorem take_drop_flatMap {α : Type} {width : Nat} {f : α → List UInt8} {items : List α}
    (widths : ∀ item ∈ items, (f item).length = width) {item : α}
    (found : items[index]? = some item) :
    ((items.flatMap f).drop (width * index)).take width = f item := by
  induction items generalizing index with
  | nil => simp at found
  | cons first rest ih =>
    have firstWidth := widths first mem_cons_self
    cases index with
    | zero =>
      cases found
      simp [← firstWidth]
    | succ index =>
      have restFound : rest[index]? = some item := by simpa using found
      have position : width * (index + 1) = (f first).length + width * index := by
        rw [firstWidth, Nat.mul_succ, Nat.add_comm]
      rw [flatMap_cons, position, drop_append, drop_eq_nil_of_le (by omega), Nat.add_sub_cancel_left]
      exact ih (fun other mem => widths other (mem_cons_of_mem first mem)) restFound

/-- Numbers that fit an eight-digit field. -/
def FieldsFit (values : List Nat) : Prop :=
  ∀ value ∈ values, value < 2 ^ 32

private theorem length_field (fit : FieldsFit values) :
    ∀ value ∈ values, (hex 8 value).length = 8 := by
  intro value mem
  exact length_hex (by decide) (fit value mem)

private theorem length_flatMap_hex (fit : FieldsFit values) :
    (values.flatMap (hex 8)).length = 8 * values.length := by
  induction values with
  | nil => rfl
  | cons value rest ih =>
    have restFit : FieldsFit rest := fun other mem => fit other (mem_cons_of_mem value mem)
    rw [flatMap_cons, length_append, ih restFit, length_cons, length_field fit value mem_cons_self]
    omega

/-- The field at `index` of a formatted header. -/
private theorem header_field (fit : FieldsFit values) {value : Nat}
    (found : values[index]? = some value) :
    ((magic ++ values.flatMap (hex 8)).drop (6 + 8 * index)).take 8 = hex 8 value := by
  have skipMagic : (magic ++ values.flatMap (hex 8)).drop (6 + 8 * index) =
      (values.flatMap (hex 8)).drop (8 * index) := by
    rw [← drop_drop]
    rfl
  rw [skipMagic]
  exact take_drop_flatMap (length_field fit) found

section Header

variable {inode mode uid gid nlink mtime filesize devmajor devminor rdevmajor rdevminor namesize
  check : Nat}

theorem length_header (fit : FieldsFit [inode, mode, uid, gid, nlink, mtime, filesize, devmajor,
      devminor, rdevmajor, rdevminor, namesize, check]) :
    (header inode mode uid gid nlink mtime filesize devmajor devminor rdevmajor rdevminor
      namesize check).length = hdrSz := by
  rw [header, length_append, length_flatMap_hex fit]
  rfl

/-- Reinterpreting a formatted header gives back its formatted numbers. -/
theorem fromBytes_header (fit : FieldsFit [inode, mode, uid, gid, nlink, mtime, filesize,
      devmajor, devminor, rdevmajor, rdevminor, namesize, check]) :
    CpioHeader.fromBytes (header inode mode uid gid nlink mtime filesize devmajor devminor
      rdevmajor rdevminor namesize check) =
    { magic := magic
      ino := hex 8 inode
      mode := hex 8 mode
      uid := hex 8 uid
      gid := hex 8 gid
      nlink := hex 8 nlink
      mtime := hex 8 mtime
      filesize := hex 8 filesize
      devmajor := hex 8 devmajor
      devminor := hex 8 devminor
      rdevmajor := hex 8 rdevmajor
      rdevminor := hex 8 rdevminor
      namesize := hex 8 namesize
      check := hex 8 check } := by
  unfold CpioHeader.fromBytes header
  simp only [CpioHeader.mk.injEq]
  refine ⟨rfl, ?_, ?_, ?_, ?_, ?_, ?_, ?_, ?_, ?_, ?_, ?_, ?_, ?_⟩ <;>
    exact header_field fit rfl

end Header

/-! ## The written record -/

/-- The writer's header for an entry. -/
def entryHeader (inode : Nat) (name : String) (entry : CpioEntry) : List UInt8 :=
  header inode entry.mode.toNat entry.uid.toNat entry.gid.toNat 1 0 entry.data.length 0 0
    entry.rdevmajor.toNat entry.rdevminor.toNat ((utf8 name).length + 1) 0

/-- The padding that brings `length` bytes to a multiple of four. -/
def padding (length : Nat) : List UInt8 :=
  zeros (align4 length - length)

/-- The self-contained record of one entry. -/
def record (inode : Nat) (name : String) (entry : CpioEntry) : List UInt8 :=
  entryHeader inode name entry ++ ((utf8 name ++ [0]) ++
    (padding (hdrSz + ((utf8 name).length + 1)) ++ (entry.data ++ padding entry.data.length)))

/-- An entry whose numbers the eight-digit fields can hold and whose name the
reader does not treat specially. -/
structure Storable (name : String) (entry : CpioEntry) : Prop where
  noNul : 0 ∉ utf8 name
  notDot : name ≠ "."
  notDotDot : name ≠ ".."
  notTrailer : name ≠ trailer
  nameFits : (utf8 name).length + 1 < 2 ^ 32
  dataFits : entry.data.length < 2 ^ 32
  rdevmajorFits : entry.rdevmajor.toNat < 2 ^ 32
  rdevminorFits : entry.rdevminor.toNat < 2 ^ 32

section Record

variable {inode : Nat} {name : String} {entry : CpioEntry}

theorem Storable.fieldsFit (storable : Storable name entry) (inodeFits : inode < 2 ^ 32) :
    FieldsFit [inode, entry.mode.toNat, entry.uid.toNat, entry.gid.toNat, 1, 0,
      entry.data.length, 0, 0, entry.rdevmajor.toNat, entry.rdevminor.toNat,
      (utf8 name).length + 1, 0] := by
  intro value mem
  simp only [mem_cons, not_mem_nil, or_false] at mem
  have modeFits := entry.mode.toNat_lt
  have uidFits := entry.uid.toNat_lt
  have gidFits := entry.gid.toNat_lt
  have := storable.nameFits
  have := storable.dataFits
  have := storable.rdevmajorFits
  have := storable.rdevminorFits
  omega

theorem length_entryHeader (storable : Storable name entry) (inodeFits : inode < 2 ^ 32) :
    (entryHeader inode name entry).length = hdrSz :=
  length_header (storable.fieldsFit inodeFits)

theorem length_padding (length : Nat) : length + (padding length).length = align4 length := by
  have := le_align4 length
  simp only [padding, length_zeros]
  omega

theorem length_record (storable : Storable name entry) (inodeFits : inode < 2 ^ 32) :
    (record inode name entry).length =
      align4 (hdrSz + ((utf8 name).length + 1)) + align4 entry.data.length := by
  have namePadding := length_padding (hdrSz + ((utf8 name).length + 1))
  have dataPadding := length_padding entry.data.length
  simp only [record, length_append, length_entryHeader storable inodeFits, length_singleton]
  omega

theorem dvd_length_record (storable : Storable name entry) (inodeFits : inode < 2 ^ 32) :
    4 ∣ (record inode name entry).length := by
  rw [length_record storable inodeFits]
  exact Nat.dvd_add (dvd_alignTo _ 4) (dvd_alignTo _ 4)

theorem align4_add {start length : Nat} (aligned : 4 ∣ start) :
    align4 (start + length) = start + align4 length :=
  alignTo_add_of_dvd (by decide) aligned

theorem dvd_align4 (length : Nat) : 4 ∣ align4 length := dvd_alignTo length 4

/-- From an aligned position, writing an entry appends its record. -/
theorem dumpEntry_eq (storable : Storable name entry) (inodeFits : s.inode < 2 ^ 32)
    (aligned : 4 ∣ s.pos) :
    dumpEntry s (name, entry) =
      ⟨s.file ++ record s.inode name entry, s.pos + (record s.inode name entry).length,
        s.inode + 1⟩ := by
  have headerLength := length_entryHeader storable inodeFits
  have nameEnd : s.pos + hdrSz + (utf8 name).length + 1 =
      s.pos + (hdrSz + ((utf8 name).length + 1)) := by omega
  have dataStart := Nat.dvd_add aligned (dvd_align4 (hdrSz + ((utf8 name).length + 1)))
  have padLength : ∀ start length : Nat,
      start + align4 length - (start + length) = align4 length - length := by omega
  simp only [dumpEntry, DumpState.write, DumpState.pad]
  rw [← entryHeader, headerLength, length_singleton, nameEnd, align4_add aligned,
    padLength, align4_add dataStart, padLength, length_record storable inodeFits]
  simp only [record, padding, append_assoc, Nat.add_assoc]

/-! ## Reading a record -/

/-- A name field followed by its padding is read back, and the reader stands
behind the padding. -/
private theorem loadStep_header {fields after nameBytes : List UInt8} {hdr : CpioHeader}
    {name : String} (entries : Entries) (fieldsLength : fields.length = hdrSz)
    (fieldsEq : CpioHeader.fromBytes fields = hdr) (magicEq : hdr.magic = magic)
    (namesize : x8u hdr.namesize = .ok nameBytes.length)
    (named : Utf8CStr.fromBytes nameBytes = .ok name) :
    loadStep (before ++ (fields ++ (nameBytes ++ after))) before.length entries =
      loadNamed (before ++ (fields ++ (nameBytes ++ after)))
        (align4 (before.length + hdrSz + nameBytes.length)) hdr name entries := by
  have headerSlice : slice (before ++ (fields ++ (nameBytes ++ after))) before.length
      (before.length + hdrSz) = .ok fields :=
    slice_append before fields _ rfl (by rw [fieldsLength])
  have nameSlice : slice (before ++ (fields ++ (nameBytes ++ after))) (before.length + hdrSz)
      (before.length + hdrSz + nameBytes.length) = .ok nameBytes := by
    rw [← append_assoc]
    refine slice_append (before ++ fields) nameBytes after ?_ ?_ <;>
      simp [fieldsLength]
  simp only [loadStep, headerSlice, bind, Except.bind, fieldsEq, magicEq, if_true, namesize,
    nameSlice, named]

theorem loadEntry_eq {data : List UInt8} (after : List UInt8) {pos : Nat}
    (storable : Storable name entry) (inodeFits : inode < 2 ^ 32) (posEq : pos = before.length)
    (aligned : 4 ∣ pos) (dataEq : data = before ++ (entry.data ++ after)) :
    loadEntry data pos (CpioHeader.fromBytes (entryHeader inode name entry)) =
      .ok (entry, pos + align4 entry.data.length) := by
  have contents : slice data pos (pos + entry.data.length) = .ok entry.data := by
    rw [dataEq]
    exact slice_append before entry.data after posEq (by rw [posEq])
  rw [entryHeader, fromBytes_header (storable.fieldsFit inodeFits), ← align4_add aligned]
  simp [loadEntry, contents, Except.bind, pure, Except.pure]

/-- Reading a record at its own aligned position inserts exactly its entry. -/
theorem loadStep_record (storable : Storable name entry) (inodeFits : inode < 2 ^ 32)
    (after : List UInt8) (aligned : 4 ∣ before.length) (entries : Entries) :
    loadStep (before ++ (record inode name entry ++ after)) before.length entries =
      .ok (.next (before.length + (record inode name entry).length)
        (entries.insert name entry)) := by
  have headerLength := length_entryHeader storable inodeFits
  have hdrEq := fromBytes_header (storable.fieldsFit inodeFits)
  rw [← entryHeader] at hdrEq
  have split : before ++ (record inode name entry ++ after) =
      before ++ (entryHeader inode name entry ++ ((utf8 name ++ [0]) ++
        (padding (hdrSz + ((utf8 name).length + 1)) ++
          (entry.data ++ (padding entry.data.length ++ after))))) := by
    simp only [record, append_assoc]
  have dataPos : align4 (before.length + hdrSz + (utf8 name ++ [0]).length) =
      before.length + align4 (hdrSz + ((utf8 name).length + 1)) := by
    rw [Nat.add_assoc, align4_add aligned]
    simp
  rw [split, loadStep_header entries headerLength rfl (by rw [hdrEq]) (by simp [hdrEq])
    (Utf8CStr.fromBytes_utf8_append_nul storable.noNul), dataPos]
  have ordinary : ¬ (name = "." ∨ name = "..") := by
    rintro (dot | dotDot)
    · exact storable.notDot dot
    · exact storable.notDotDot dotDot
  have dataAligned := Nat.dvd_add aligned (dvd_align4 (hdrSz + ((utf8 name).length + 1)))
  have prefixLength : before.length + align4 (hdrSz + ((utf8 name).length + 1)) =
      (before ++ (entryHeader inode name entry ++ ((utf8 name ++ [0]) ++
        padding (hdrSz + ((utf8 name).length + 1))))).length := by
    have := length_padding (hdrSz + ((utf8 name).length + 1))
    simp only [length_append, headerLength, length_singleton]
    omega
  rw [loadNamed, if_neg ordinary, if_neg storable.notTrailer,
    loadEntry_eq (padding entry.data.length ++ after) storable inodeFits prefixLength dataAligned
      (by simp only [append_assoc]),
    length_record storable inodeFits, Nat.add_assoc]
  rfl

end Record

/-! ## Reading the trailer -/

/-- The trailer record from an aligned position. -/
def trailerRecord (inode : Nat) : List UInt8 :=
  header inode 0o755 0 0 1 0 0 0 0 0 0 11 0 ++ ((utf8 trailer ++ [0]) ++ padding (hdrSz + 11))

variable {inode : Nat}

private theorem trailer_fieldsFit (inodeFits : inode < 2 ^ 32) :
    FieldsFit [inode, 0o755, 0, 0, 1, 0, 0, 0, 0, 0, 0, 11, 0] := by
  intro value mem
  simp only [mem_cons, not_mem_nil, or_false] at mem
  omega

theorem length_trailerRecord (inodeFits : inode < 2 ^ 32) : (trailerRecord inode).length = 124 := by
  simp only [trailerRecord, length_append, length_header (trailer_fieldsFit inodeFits)]
  rfl

theorem dumpTrailer_file (inodeFits : s.inode < 2 ^ 32) (aligned : 4 ∣ s.pos) :
    (dumpTrailer s).file = s.file ++ trailerRecord s.inode := by
  have headerLength := length_header (trailer_fieldsFit inodeFits)
  have nameBytes : utf8 "TRAILER!!!\x00" = utf8 trailer ++ [0] := by decide
  have nameEnd : s.pos + hdrSz + (utf8 trailer ++ [0]).length = s.pos + (hdrSz + 11) := by
    rw [Nat.add_assoc]
    rfl
  have padLength : s.pos + align4 (hdrSz + 11) - (s.pos + (hdrSz + 11)) =
      align4 (hdrSz + 11) - (hdrSz + 11) := by omega
  simp only [dumpTrailer, DumpState.write, DumpState.pad]
  rw [headerLength, nameBytes, nameEnd, align4_add aligned, padLength]
  simp only [trailerRecord, padding, append_assoc]

/-- At the trailer the reader searches the rest of the buffer for a header. -/
theorem loadStep_trailerRecord (inodeFits : inode < 2 ^ 32) (after : List UInt8)
    (aligned : 4 ∣ before.length) (entries : Entries) :
    loadStep (before ++ (trailerRecord inode ++ after)) before.length entries =
      .ok (match find magic after with
        | some x => .next (before.length + 124 + x) entries
        | none => .break entries) := by
  have hdrEq := fromBytes_header (trailer_fieldsFit inodeFits)
  have split : before ++ (trailerRecord inode ++ after) =
      before ++ (header inode 0o755 0 0 1 0 0 0 0 0 0 11 0 ++ ((utf8 trailer ++ [0]) ++
        (padding (hdrSz + 11) ++ after))) := by
    simp only [trailerRecord, append_assoc]
  have restPos : align4 (before.length + hdrSz + (utf8 trailer ++ [0]).length) =
      before.length + 124 := by
    rw [Nat.add_assoc, align4_add aligned]
    rfl
  have rest : sliceFrom (before ++ (trailerRecord inode ++ after)) (before.length + 124) =
      .ok after := by
    rw [← append_assoc]
    exact sliceFrom_append _ after (by simp [length_trailerRecord inodeFits])
  rw [split, loadStep_header entries (length_header (trailer_fieldsFit inodeFits)) rfl
    (by rw [hdrEq]) (by rw [hdrEq]; exact x8u_hex 11)
    (Utf8CStr.fromBytes_utf8_append_nul (by decide)), restPos, ← split]
  rw [loadNamed, if_neg (by decide), if_pos rfl, rest]
  simp only [bind, Except.bind, pure, Except.pure]
  cases find magic after <;> rfl

/-! ## Whole archives -/

/-- The records of consecutive entries, numbered from `inode`. -/
def records : Nat → List (String × CpioEntry) → List UInt8
  | _, [] => []
  | inode, (name, entry) :: rest => record inode name entry ++ records (inode + 1) rest

/-- The entries of a list can be stored with inode numbers from `inode` on. -/
def AllStorable (inode : Nat) (named : List (String × CpioEntry)) : Prop :=
  (∀ item ∈ named, Storable item.1 item.2) ∧ inode + named.length < 2 ^ 32

theorem AllStorable.head {name : String} {entry : CpioEntry}
    (all : AllStorable inode ((name, entry) :: rest)) : Storable name entry ∧ inode < 2 ^ 32 := by
  have bound := all.2
  exact ⟨all.1 _ mem_cons_self, by omega⟩

theorem AllStorable.tail {item : String × CpioEntry} (all : AllStorable inode (item :: rest)) :
    AllStorable (inode + 1) rest := by
  have bound := all.2
  simp only [length_cons] at bound
  exact ⟨fun other mem => all.1 other (mem_cons_of_mem item mem), by omega⟩

theorem dvd_length_records (all : AllStorable inode named) : 4 ∣ (records inode named).length := by
  induction named generalizing inode with
  | nil => exact Nat.dvd_zero 4
  | cons item rest ih =>
    obtain ⟨storable, inodeFits⟩ := all.head
    rw [records, length_append]
    exact Nat.dvd_add (dvd_length_record storable inodeFits) (ih all.tail)

theorem foldl_dumpEntry (all : AllStorable s.inode named) (aligned : 4 ∣ s.pos) :
    named.foldl dumpEntry s =
      ⟨s.file ++ records s.inode named, s.pos + (records s.inode named).length,
        s.inode + named.length⟩ := by
  induction named generalizing s with
  | nil => simp [records]
  | cons item rest ih =>
    obtain ⟨storable, inodeFits⟩ := all.head
    rw [foldl_cons, dumpEntry_eq storable inodeFits aligned, ih all.tail
      (Nat.dvd_add aligned (dvd_length_record storable inodeFits))]
    simp only [records, append_assoc, length_append, length_cons, Nat.add_assoc, Nat.add_comm 1]

/-- The reading loop runs through consecutive records, inserting their entries
in order. -/
theorem loadLoop_records (after : List UInt8) (all : AllStorable inode named)
    (aligned : 4 ∣ before.length) (entries : Entries) :
    loadLoop (before ++ (records inode named ++ after)) before.length entries =
      loadLoop (before ++ (records inode named ++ after))
        (before.length + (records inode named).length)
        (entries.insertMany named) := by
  induction named generalizing inode before entries with
  | nil => simp [records]
  | cons item rest ih =>
    obtain ⟨name, entry⟩ := item
    obtain ⟨storable, inodeFits⟩ := all.head
    have inside : before.length <
        (before ++ (records inode ((name, entry) :: rest) ++ after)).length := by
      have positive : 0 < hdrSz := by decide
      have := length_entryHeader storable inodeFits
      simp only [records, record, length_append]
      omega
    have step : loadStep (before ++ (records inode ((name, entry) :: rest) ++ after))
        before.length entries = .ok (.next (before.length + (record inode name entry).length)
          (entries.insert name entry)) := by
      rw [records, append_assoc]
      exact loadStep_record storable inodeFits _ aligned entries
    have regroup : before ++ (records inode ((name, entry) :: rest) ++ after) =
        (before ++ record inode name entry) ++ (records (inode + 1) rest ++ after) := by
      simp only [records, append_assoc]
    have recordAligned : 4 ∣ (before ++ record inode name entry).length := by
      rw [length_append]
      exact Nat.dvd_add aligned (dvd_length_record storable inodeFits)
    have remaining := ih all.tail recordAligned (entries.insert name entry)
    rw [loadLoop_of_next inside step, regroup, ← length_append, remaining,
      Std.ExtTreeMap.insertMany_cons]
    simp only [records, length_append, Nat.add_assoc]

/-- A dumped archive whose trailer record stands between `before` and `after`. -/
private theorem loadLoop_archive (after : List UInt8) (all : AllStorable inode named)
    (aligned : 4 ∣ before.length) (entries : Entries) :
    loadLoop (before ++ (records inode named ++ (trailerRecord (inode + named.length) ++ after)))
        before.length entries =
      match find magic after with
      | some x => loadLoop
          (before ++ (records inode named ++ (trailerRecord (inode + named.length) ++ after)))
          (before.length + (records inode named).length + 124 + x) (entries.insertMany named)
      | none => .ok ⟨entries.insertMany named⟩ := by
  have trailerLength := length_trailerRecord all.2
  have recordsAligned : 4 ∣ (before ++ records inode named).length := by
    rw [length_append]
    exact Nat.dvd_add aligned (dvd_length_records all)
  have step := loadStep_trailerRecord all.2 after recordsAligned (entries.insertMany named)
  rw [loadLoop_records _ all aligned, ← append_assoc, ← length_append]
  have inside : (before ++ records inode named).length < (before ++ records inode named ++
        (trailerRecord (inode + named.length) ++ after)).length := by
    simp only [length_append]
    omega
  cases search : find magic after with
  | some x =>
    rw [search] at step
    exact loadLoop_of_next inside step
  | none =>
    rw [search] at step
    exact loadLoop_of_break inside step

/-- An archive every entry of which can be stored, with inode numbers to
spare. -/
structure Dumpable (cpio : Cpio) : Prop where
  count : cpio.entries.size < 2 ^ 32 - 300000
  storable : ∀ name entry, cpio.entries[name]? = some entry → Storable name entry

section

variable (dumpable : Dumpable cpio)

include dumpable

theorem Dumpable.allStorable : AllStorable 300000 cpio.entries.toList := by
  constructor
  · rintro ⟨name, entry⟩ mem
    exact dumpable.storable name entry (Std.ExtTreeMap.mem_toList_iff_getElem?_eq_some.mp mem)
  · have := dumpable.count
    rw [Std.ExtTreeMap.length_toList]
    omega

/-- The file is the records in name order, closed by the trailer. -/
theorem dump_eq : dump cpio = records 300000 cpio.entries.toList ++
      trailerRecord (300000 + cpio.entries.toList.length) := by
  have all := dumpable.allStorable
  have folded := foldl_dumpEntry (s := ⟨[], 0, 300000⟩) all (Nat.dvd_zero 4)
  rw [dump, folded, dumpTrailer_file all.2]
  · rfl
  · simpa using dvd_length_records all

theorem dvd_length_dump : 4 ∣ (dump cpio).length := by
  have all := dumpable.allStorable
  rw [dump_eq dumpable, length_append, length_trailerRecord all.2]
  exact Nat.dvd_add (dvd_length_records all) (by decide)

/-- Every dump starts with the magic of a header. -/
theorem magic_isPrefix_dump : magic <+: dump cpio := by
  rw [dump_eq dumpable]
  cases cpio.entries.toList with
  | nil =>
    exact prefix_append _ _
  | cons item rest =>
    exact prefix_append _ _

/-- Reading a dump that follows aligned data adds its entries to those already
read, and then searches whatever follows it. -/
private theorem loadLoop_dump (before after : List UInt8) (aligned : 4 ∣ before.length)
    (entries : Entries) :
    loadLoop (before ++ (dump cpio ++ after)) before.length entries =
      match find magic after with
      | some x => loadLoop (before ++ (dump cpio ++ after))
          (before.length + (dump cpio).length + x) (entries.insertMany cpio.entries.toList)
      | none => .ok ⟨entries.insertMany cpio.entries.toList⟩ := by
  have all := dumpable.allStorable
  have archive := loadLoop_archive after all aligned entries
  rw [dump_eq dumpable, append_assoc, archive, length_append,
    length_trailerRecord all.2, ← Nat.add_assoc]

/-- Reading back what was dumped gives the same archive. -/
theorem loadFromData_dump_eq : loadFromData (dump cpio) = .ok cpio := by
  have emptyFind : find magic [] = none := by decide
  have single := loadLoop_dump dumpable [] [] (Nat.dvd_zero 4) ∅
  rw [emptyFind] at single
  simpa [loadFromData, Map.empty_insertMany_toList] using single

end

/-- Reading back what was dumped gives the same archive, and reading two
archives separated by whole words of zero padding gives the first overridden
by the second. -/
theorem loadFromData_dump (a : Cpio) (dumpableA : Dumpable a) : loadFromData (dump a) = .ok a ∧
      ∀ (b : Cpio) (k : Nat), Dumpable b → ∃ both : Cpio,
          loadFromData (dump a ++ zeros (4 * k) ++ dump b) = .ok both ∧
          ∀ name : String, both.entries[name]? = b.entries[name]?.or a.entries[name]? := by
  have emptyFind : find magic [] = none := by decide
  constructor
  · exact loadFromData_dump_eq dumpableA
  · intro b k dumpableB
    refine ⟨⟨a.entries.insertMany b.entries.toList⟩, ?_, fun name =>
      Map.getElem?_insertMany_toList a.entries b.entries name⟩
    have zeroFree : (0x30 : UInt8) ∉ zeros (4 * k) := by
      intro mem
      exact absurd (eq_zero_of_mem_zeros mem) (by decide)
    have skipped : find magic (zeros (4 * k) ++ dump b) = some (zeros (4 * k)).length :=
      find_append_of_notMem zeroFree (magic_isPrefix_dump dumpableB)
    have first := loadLoop_dump dumpableA [] (zeros (4 * k) ++ dump b) (Nat.dvd_zero 4) ∅
    rw [skipped] at first
    have secondAligned : 4 ∣ (dump a ++ zeros (4 * k)).length := by
      rw [length_append, length_zeros]
      exact Nat.dvd_add (dvd_length_dump dumpableA) (Nat.dvd_mul_right 4 k)
    have second := loadLoop_dump dumpableB (dump a ++ zeros (4 * k)) [] secondAligned a.entries
    rw [emptyFind] at second
    simp only [nil_append, length_nil, Nat.zero_add, append_nil,
      Map.empty_insertMany_toList, ← length_append, ← append_assoc] at first second
    rw [loadFromData, first, second]

/-- An archive whose name and contents both look like archive structure. -/
def confusing : Cpio :=
  ⟨(∅ : Entries).insert "070701"
    { mode := 0o100644, uid := 0, gid := 0, rdevmajor := 0, rdevminor := 0,
      data := utf8 "TRAILER!!!" }⟩

theorem loadFromData_dump_confusing :
    Dumpable confusing ∧ loadFromData (dump confusing) = .ok confusing ∧ ∃ both : Cpio,
        loadFromData (dump confusing ++ zeros 8 ++ dump confusing) = .ok both ∧
        ∀ name : String,
          both.entries[name]? = confusing.entries[name]?.or confusing.entries[name]? := by
  have dumpable : Dumpable confusing := by
    refine ⟨by decide, fun name entry found => ?_⟩
    rw [confusing, Std.ExtTreeMap.getElem?_insert] at found
    split at found
    · rename_i equal
      cases Std.LawfulEqCmp.eq_of_compare equal
      cases found
      constructor <;> decide
    · simp at found
  exact ⟨dumpable, (loadFromData_dump confusing dumpable).1,
    (loadFromData_dump confusing dumpable).2 confusing 2 dumpable⟩

end Magisk.Boot.Cpio
