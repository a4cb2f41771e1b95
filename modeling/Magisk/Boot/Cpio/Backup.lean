import Magisk.Boot.Cpio.Commands
import Magisk.Map.Core

/-!
# Backup and restore

`backup` compares the current archive with an original one in name order and
stores what is needed to undo the difference below `.backup/`: original entries
that changed or vanished, and the list of names that appeared.  `restore` reads
that directory back.

The `xz` coder is a parameter, since the archive code only relies on decoding
undoing encoding.
-/

namespace Magisk.Boot

open Std (ExtTreeMap)
open Bytes Base Text

/-- The compressor behind `get_encoder(FileFormat::XZ, ..)` and its decoder. -/
structure Xz where
  encode : List UInt8 → Option (List UInt8)
  decode : List UInt8 → Option (List UInt8)

/-- Encoding always succeeds and decoding undoes it. -/
def Xz.Lossless (xz : Xz) : Prop :=
  ∀ data, ∃ packed, xz.encode data = some packed ∧ xz.decode packed = some data

/-- `S_IFMT`, the file type bits of a mode. -/
def sIfmt : UInt32 :=
  0o170000

/-- `S_IFREG`. -/
def sIfreg : UInt32 :=
  0o100000

/-- `S_IFDIR`. -/
def sIfdir : UInt32 :=
  0o040000

namespace CpioEntry

/-- A regular file. -/
def Regular (entry : CpioEntry) : Prop :=
  entry.mode &&& sIfmt = sIfreg

instance (entry : CpioEntry) : Decidable entry.Regular :=
  inferInstanceAs (Decidable (_ = _))

/-- `CpioEntry::compress`; `none` stands for returning false with the entry
unchanged. -/
def compress (xz : Xz) (entry : CpioEntry) : Option CpioEntry :=
  if entry.Regular then
    (xz.encode entry.data).map fun data => { entry with data := data }
  else
    none

/-- `CpioEntry::decompress`. -/
def decompress (xz : Xz) (entry : CpioEntry) : Option CpioEntry :=
  if entry.Regular then
    (xz.decode entry.data).map fun data => { entry with data := data }
  else
    none

end CpioEntry

namespace Cpio

/-! ## The comparison loop -/

/-- What one round of the comparison decides. -/
inductive Action where
  | backup (name : String) (entry : CpioEntry)
  | record (name : String)
  | noop

/-- The actions of the comparison loop, in order.  `left` is what remains of
the original archive, `right` of the current one; an entry that was put back is
still at the head of its list. -/
def actions : List (String × CpioEntry) → List (String × CpioEntry) → List Action
  | (ln, le) :: left, (rn, re) :: right =>
    match compare ln rn with
    | .lt => .backup ln le :: actions left ((rn, re) :: right)
    | .gt => .record rn :: actions ((ln, le) :: left) right
    | .eq => (if re.data ≠ le.data then .backup ln le else .noop) :: actions left right
  | (ln, le) :: left, [] => .backup ln le :: actions left []
  | [], (rn, _) :: right => .record rn :: actions [] right
  | [], [] => []
termination_by left right => left.length + right.length

/-- The two collections the loop fills. -/
structure Saved where
  backups : Entries
  rmList : String

/-- Where, and in which form, an original entry is kept. -/
def storedAs (xz : Xz) (skipCompress : Bool) (name : String) (entry : CpioEntry) :
    String × CpioEntry :=
  match if skipCompress then none else entry.compress xz with
  | some packed => (".backup/" ++ name ++ ".xz", packed)
  | none => (".backup/" ++ name, entry)

/-- Perform one action. -/
def Saved.apply (xz : Xz) (skipCompress : Bool) (saved : Saved) : Action → Saved
  | .backup name entry =>
    let (backup, entry) := storedAs xz skipCompress name entry
    { saved with backups := saved.backups.insert backup entry }
  | .record name => { saved with rmList := saved.rmList ++ (name ++ "\x00") }
  | .noop => saved

/-- An entry of mode `mode` owned by root. -/
def plainEntry (mode : UInt32) (data : List UInt8) : CpioEntry :=
  { mode := mode, uid := 0, gid := 0, rdevmajor := 0, rdevminor := 0, data := data }

/-- The members of the backup directory, the removal list among them. -/
def Saved.directory (saved : Saved) : Entries :=
  if saved.rmList ≠ "" then
    saved.backups.insert ".backup/.rmlist" (plainEntry sIfreg (utf8 saved.rmList))
  else
    saved.backups

/-- `Cpio::backup` once the original archive is loaded. -/
def backupAgainst (xz : Xz) (cpio o : Cpio) (skipCompress : Bool) : Cpio :=
  let o := o.rm ".backup" true
  let cpio := cpio.rm ".backup" true
  let initial : Saved := ⟨(∅ : Entries).insert ".backup" (plainEntry sIfdir []), ""⟩
  let saved := (actions o.entries.toList cpio.entries.toList).foldl (Saved.apply xz skipCompress)
    initial
  ⟨cpio.entries.insertMany saved.directory.toList⟩

/-- `Cpio::backup` with the bytes of the original archive's file. -/
def backup (xz : Xz) (cpio : Cpio) (origin : List UInt8) (skipCompress : Bool) :
    LoggedResult Cpio := do
  let o ← loadFromData origin
  return backupAgainst xz cpio o skipCompress

/-! ## Restoring -/

/-- The original name and contents of a kept entry. -/
def restoredAs (xz : Xz) (name : String) (entry : CpioEntry) : String × CpioEntry :=
  match if endsWith name ".xz" then entry.decompress xz else none with
  | some entry => (dropFirst (dropLast name 3) 8, entry)
  | none => (dropFirst name 8, entry)

/-- Sort one extracted entry of the backup directory. -/
def Saved.extract (xz : Xz) (saved : Saved) (named : String × CpioEntry) : Saved :=
  let (name, entry) := named
  if name = ".backup/.rmlist" then
    match fromUtf8 entry.data with
    | some text => { saved with rmList := saved.rmList ++ text }
    | none => saved
  else if name ≠ ".backup/.magisk" then
    let (newName, entry) := restoredAs xz name entry
    { saved with backups := saved.backups.insert newName entry }
  else
    saved

/-- The entries `restore` extracts. -/
def extracted (entries : Entries) : List (String × CpioEntry) :=
  entries.toList.filter fun named => startsWith named.1 ".backup/"

/-- Undo the recorded difference on an archive without its backup directory. -/
def Saved.putBack (saved : Saved) (cpio : Cpio) : Cpio :=
  if saved.rmList = "" ∧ saved.backups.isEmpty then
    ⟨∅⟩
  else
    let names := (split (Char.ofNat 0) saved.rmList).filter (· ≠ "")
    let cpio := names.foldl (fun cpio name => cpio.rm name false) cpio
    ⟨cpio.entries.insertMany saved.backups.toList⟩

/-- `Cpio::restore`, which never fails. -/
def restore (xz : Xz) (cpio : Cpio) : Cpio :=
  let saved := (extracted cpio.entries).foldl (Saved.extract xz) ⟨∅, ""⟩
  let kept : Cpio := ⟨cpio.entries.filter fun name _ => !startsWith name ".backup/"⟩
  saved.putBack (kept.rm ".backup" false)

end Cpio

end Magisk.Boot
