import Magisk.Base.Core
import Magisk.Bytes.Hex
import Magisk.Result.Core

/-!
# The newc archive reader and writer

`Cpio` is the in-memory ramdisk of `cpio.rs`: a name-ordered map of entries.
`loadFromData` walks a byte buffer header by header; `dump` writes the map in
name order, closes it with the trailer record, and pads every name and every
file to four bytes.

Positions are natural numbers.  Both loops keep the source's running `pos`,
since the padding depends on the absolute position and not on the record.
-/

namespace Magisk.Boot

open Std (ExtTreeMap)
open Bytes Base Result

/-- One archive member. `mode`, `uid` and `gid` are 32-bit; device numbers are
`dev_t`. -/
structure CpioEntry where
  mode : UInt32
  uid : UInt32
  gid : UInt32
  rdevmajor : UInt64
  rdevminor : UInt64
  data : List UInt8
  deriving DecidableEq, Repr

/-- `BTreeMap<String, Box<CpioEntry>>`. -/
abbrev Entries := Std.ExtTreeMap String CpioEntry

/-- An archive held in memory. -/
@[ext]
structure Cpio where
  entries : Entries

namespace Cpio

variable {data : List UInt8} {pos next : Nat} {name : String} {found : Entries} {cpio : Cpio}

/-- The empty archive. -/
def new : Cpio :=
  ⟨∅⟩

/-! ## Header fields -/

/-- The ASCII fields of a newc header, in file order. -/
structure CpioHeader where
  magic : List UInt8
  ino : List UInt8
  mode : List UInt8
  uid : List UInt8
  gid : List UInt8
  nlink : List UInt8
  mtime : List UInt8
  filesize : List UInt8
  devmajor : List UInt8
  devminor : List UInt8
  rdevmajor : List UInt8
  rdevminor : List UInt8
  namesize : List UInt8
  check : List UInt8
  deriving DecidableEq, Repr

/-- `size_of::<CpioHeader>()`. -/
def hdrSz : Nat :=
  110

/-- The magic of every header, `b"070701"`. -/
def magic : List UInt8 :=
  [0x30, 0x37, 0x30, 0x37, 0x30, 0x31]

/-- Name of the record that closes an archive. -/
def trailer : String :=
  "TRAILER!!!"

/-- Reinterpret the bytes of a header. -/
def CpioHeader.fromBytes (bytes : List UInt8) : CpioHeader :=
  let field := fun index => (bytes.drop (6 + 8 * index)).take 8
  { magic := bytes.take 6
    ino := field 0
    mode := field 1
    uid := field 2
    gid := field 3
    nlink := field 4
    mtime := field 5
    filesize := field 6
    devmajor := field 7
    devminor := field 8
    rdevmajor := field 9
    rdevminor := field 10
    namesize := field 11
    check := field 12 }

/-- Parse an eight-digit hexadecimal field. -/
def x8u (field : List UInt8) : LoggedResult Nat :=
  match fromUtf8 field with
  | none => .error (.logged "bad cpio header")
  | some text =>
    match readHex 0 text.toList with
    | none => .error (.logged "bad cpio header")
    | some value => .ok value

/-- Round a position up to four bytes. -/
def align4 (x : Nat) : Nat :=
  alignTo x 4

/-! ## Reading -/

/-- Where the reading loop goes after one record. -/
inductive Continue where
  /-- Keep reading at `pos`. -/
  | next (pos : Nat) (entries : Entries)
  /-- The last trailer was seen. -/
  | break (entries : Entries)

/-- Read the numbers and the contents of the entry whose data starts at `pos`. -/
def loadEntry (data : List UInt8) (pos : Nat) (hdr : CpioHeader) :
    LoggedResult (CpioEntry × Nat) := do
  let fileSz ← x8u hdr.filesize
  let entry : CpioEntry :=
    { mode := (← x8u hdr.mode).toUInt32
      uid := (← x8u hdr.uid).toUInt32
      gid := (← x8u hdr.gid).toUInt32
      rdevmajor := (← x8u hdr.rdevmajor).toUInt64
      rdevminor := (← x8u hdr.rdevminor).toUInt64
      data := ← slice data pos (pos + fileSz) }
  return (entry, align4 (pos + fileSz))

/-- Act on a record by its name; `pos` is already past the padded name. -/
def loadNamed (data : List UInt8) (pos : Nat) (hdr : CpioHeader) (name : String)
    (entries : Entries) : LoggedResult Continue :=
  if name = "." ∨ name = ".." then
    .ok (.next pos entries)
  else if name = trailer then do
    match find magic (← sliceFrom data pos) with
    | some x => return .next (pos + x) entries
    | none => return .break entries
  else do
    let (entry, next) ← loadEntry data pos hdr
    return .next next (entries.insert name entry)

/-- One iteration of the reading loop. -/
def loadStep (data : List UInt8) (pos : Nat) (entries : Entries) : LoggedResult Continue := do
  let hdr := CpioHeader.fromBytes (← slice data pos (pos + hdrSz))
  if hdr.magic = magic then
    let pos := pos + hdrSz
    let nameSz ← x8u hdr.namesize
    let name ← Utf8CStr.fromBytes (← slice data pos (pos + nameSz))
    loadNamed data (align4 (pos + nameSz)) hdr name entries
  else
    throw (.logged "invalid cpio magic")

theorem le_align4 (x : Nat) : x ≤ align4 x :=
  le_alignTo (by decide)

variable {hdr : CpioHeader}

theorem loadEntry_le {entry : CpioEntry} (loaded : loadEntry data pos hdr = .ok (entry, next)) :
    pos ≤ next := by
  obtain ⟨fileSz, _, loaded⟩ := bind_eq_ok_iff.mp loaded
  iterate 6 obtain ⟨_, _, loaded⟩ := bind_eq_ok_iff.mp loaded
  cases loaded
  exact (Nat.le_add_right pos fileSz).trans (le_align4 _)

theorem loadNamed_le {entries : Entries}
    (step : loadNamed data pos hdr name entries = .ok (.next next found)) : pos ≤ next := by
  unfold loadNamed at step
  split at step
  · cases step
    exact le_rfl
  · split at step
    · obtain ⟨rest, _, step⟩ := bind_eq_ok_iff.mp step
      split at step
      · cases step
        exact Nat.le_add_right _ _
      · cases step
    · obtain ⟨⟨entry, entryEnd⟩, loaded, step⟩ := bind_eq_ok_iff.mp step
      cases step
      exact loadEntry_le loaded

/-- An iteration that continues has consumed at least a header. -/
theorem loadStep_lt {entries : Entries}
    (step : loadStep data pos entries = .ok (.next next found)) :
    pos < next := by
  obtain ⟨headerBytes, _, step⟩ := bind_eq_ok_iff.mp step
  simp only at step
  split at step
  · obtain ⟨nameSz, _, step⟩ := bind_eq_ok_iff.mp step
    obtain ⟨nameBytes, _, step⟩ := bind_eq_ok_iff.mp step
    obtain ⟨name, _, step⟩ := bind_eq_ok_iff.mp step
    have aligned := le_align4 (pos + hdrSz + nameSz)
    have advanced := loadNamed_le step
    have headerPositive : 0 < hdrSz := by decide
    omega
  · contradiction

/-- The reading loop from `pos` on. -/
def loadLoop (data : List UInt8) (pos : Nat) (entries : Entries) : LoggedResult Cpio :=
  if _inside : pos < data.length then
    match _step : loadStep data pos entries with
    | .error fault => .error fault
    | .ok (.break entries) => .ok ⟨entries⟩
    | .ok (.next next entries) => loadLoop data next entries
  else
    .ok ⟨entries⟩
termination_by data.length - pos
decreasing_by
  have advanced := loadStep_lt _step
  omega

theorem loadLoop_of_next {entries : Entries} (inside : pos < data.length)
    (step : loadStep data pos entries = .ok (.next next found)) :
    loadLoop data pos entries = loadLoop data next found := by
  rw [loadLoop, dif_pos inside]
  split <;> simp_all

theorem loadLoop_of_break {entries : Entries} (inside : pos < data.length)
    (step : loadStep data pos entries = .ok (.break found)) :
    loadLoop data pos entries = .ok ⟨found⟩ := by
  rw [loadLoop, dif_pos inside]
  split <;> simp_all

/-- `Cpio::load_from_data`. -/
def loadFromData (data : List UInt8) : LoggedResult Cpio :=
  loadLoop data 0 ∅

/-! ## Names of a loaded archive -/

/-- No name contains a NUL. -/
def NulFree (entries : Entries) : Prop :=
  ∀ name ∈ entries, 0 ∉ utf8 name

/-! ## Writing -/

/-- The output file together with the writer's own counters. -/
structure DumpState where
  file : List UInt8
  pos : Nat
  inode : Nat

/-- `file.write`, which writes its whole buffer. -/
def DumpState.write (s : DumpState) (buf : List UInt8) : DumpState :=
  { s with file := s.file ++ buf, pos := s.pos + buf.length }

/-- `file.write_zeros(align_4(pos) - pos)` followed by `pos = align_4(pos)`. -/
def DumpState.pad (s : DumpState) : DumpState :=
  { s with file := s.file ++ zeros (align4 s.pos - s.pos), pos := align4 s.pos }

/-- The formatted header line. -/
def header (inode mode uid gid nlink mtime filesize devmajor devminor rdevmajor rdevminor
    namesize check : Nat) : List UInt8 :=
  magic ++ [inode, mode, uid, gid, nlink, mtime, filesize, devmajor, devminor, rdevmajor,
    rdevminor, namesize, check].flatMap (hex 8)

/-- Write one named entry. -/
def dumpEntry (s : DumpState) (named : String × CpioEntry) : DumpState :=
  let (name, entry) := named
  let s := s.write (header s.inode entry.mode.toNat entry.uid.toNat entry.gid.toNat 1 0
    entry.data.length 0 0 entry.rdevmajor.toNat entry.rdevminor.toNat
    ((utf8 name).length + 1) 0)
  let s := ((s.write (utf8 name)).write [0]).pad
  let s := (s.write entry.data).pad
  { s with inode := s.inode + 1 }

/-- Write the trailer record. -/
def dumpTrailer (s : DumpState) : DumpState :=
  let s := s.write (header s.inode 0o755 0 0 1 0 0 0 0 0 0 11 0)
  (s.write (utf8 "TRAILER!!!\x00")).pad

/-- The bytes `Cpio::dump` leaves in its file. -/
def dump (cpio : Cpio) : List UInt8 :=
  (dumpTrailer (cpio.entries.toList.foldl dumpEntry ⟨[], 0, 300000⟩)).file

end Cpio

end Magisk.Boot
