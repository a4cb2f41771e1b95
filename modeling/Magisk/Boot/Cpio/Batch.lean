import Magisk.Boot.Cpio.Backup
import Magisk.Boot.Cpio.RoundTrip

/-!
# Command batches

`cpio_commands` loads an archive, performs a list of commands on it in memory and
writes it back once, after the last one.  `exists`, `ls` and `test` answer through
the exit status of the program: they end the run where they stand, before the
archive is written.

The operating system and the argument parser are parameters.  Paths are handed
to the system as bytes, since long ones are cut in buffers of 4096 bytes.
-/

namespace Magisk.Boot

open Std (ExtTreeMap)
open List Bytes Base Text

/-- `S_IFLNK`. -/
def sIflnk : UInt32 :=
  0o120000

/-- `S_IFBLK`. -/
def sIfblk : UInt32 :=
  0o060000

/-- `S_IFCHR`. -/
def sIfchr : UInt32 :=
  0o020000

/-! ## The operating system -/

/-- A path as the system receives it. -/
abbrev Path := List UInt8

/-- The file types `add` tells apart. -/
inductive FileKind where
  | file
  | symlink
  | blockDevice
  | charDevice
  | other
  deriving DecidableEq, Repr

/-- What `lstat` tells of a file; the device number is already split. -/
structure FileAttr where
  kind : FileKind
  rdevmajor : UInt64
  rdevminor : UInt64
  deriving DecidableEq, Repr

/-- A computation that acts on the files and may fail. -/
abbrev Act (World : Type) := ExceptT Fault (StateM World)

/-- The system calls of the archive code.  A file that was created holds what was
written; an empty file cannot be mapped. -/
structure Os (World : Type) where
  pathExists : World → Path → Bool
  mapFile : World → Path → LoggedResult (List UInt8)
  getAttr : World → Path → LoggedResult FileAttr
  readToEnd : World → Path → LoggedResult (List UInt8)
  mkdir : Path → UInt32 → Act World Unit
  createFile : Path → UInt32 → List UInt8 → Act World Unit
  createSymlink : Path → Path → Act World Unit
  mknod : Path → UInt32 → UInt32 → UInt32 → StateM World Unit
  fileCreate : World → Path → List UInt8 → LoggedResult World
  var : String → Option String
  mapFile_fileCreate : ∀ {before after : World} {path : Path} {bytes : List UInt8},
    bytes ≠ [] → fileCreate before path bytes = .ok after → mapFile after path = .ok bytes

/-- `Utf8CStrBuf::push_str` on a buffer of 4096 bytes, which keeps one for the NUL. -/
def pushStr (buf text : Path) : Path :=
  buf ++ text.take (4095 - buf.length)

/-- `append_path`. -/
def appendPath (buf path : Path) : Path :=
  let buf := if path.head? = some 0x2f then [] else buf
  let buf := if buf ≠ [] ∧ buf.getLast? ≠ some 0x2f then pushStr buf [0x2f] else buf
  pushStr buf path

/-- Components that do not count at the end of a path. -/
def trimPieces (pieces : List String) : List String :=
  match pieces with
  | [] => []
  | first :: rest =>
    first :: (rest.reverse.dropWhile fun piece => piece = "" ∨ piece = ".").reverse

/-- `Path::parent`: the path without its last component. -/
def parentDir (path : String) : Option String :=
  let pieces := trimPieces (split '/' path)
  if pieces = [""] then
    none
  else
    match trimPieces pieces.dropLast with
    | [""] => some "/"
    | rest => some ("/".intercalate rest)

namespace Os

variable {World : Type}

/-- `Utf8CStr::mkdirs`: every directory on the way. -/
def mkdirs (os : Os World) (path : Path) (mode : UInt32) : Act World Unit :=
  let components := (path.splitOn 0x2f).filter (· ≠ [])
  let start := if path.head? = some 0x2f then appendPath [] [0x2f] else []
  let steps := (components.scanl appendPath start).tail
  steps.forM fun path => os.mkdir path mode

/-- `check_env`. -/
def checkEnv (os : Os World) (name : String) : Bool :=
  os.var name = some "true"

end Os

namespace Cpio

variable {World : Type} {cmds : List String} {loaded cpio : Cpio}

/-! ## Commands that ask -/

/-- `Cpio::exists`. -/
def existsEntry (cpio : Cpio) (path : String) : Bool :=
  cpio.entries.contains (normPath path)

/-- `Cpio::test`: 2 for unsupported archives, 1 for patched ones. -/
def test (cpio : Cpio) : Nat :=
  if ["sbin/launch_daemonsu.sh", "sbin/su", "init.xposed.rc",
      "boot/sbin/launch_daemonsu.sh"].any cpio.existsEntry then
    2
  else if [".backup/.magisk", "init.magisk.rc", "overlay/init.magisk.rc"].any
      cpio.existsEntry then
    1
  else
    0

/-- `Cpio::extract_entry`. -/
def extractEntry (os : Os World) (cpio : Cpio) (path out : String) : Act World Unit := do
  match cpio.entries[path]? with
  | none => throw (.logged "No such file")
  | some entry =>
    match parentDir out with
    | some dir => os.mkdirs (pushStr [] (utf8 dir)) 0o755
    | none => pure ()
    let mode := entry.mode &&& 0o777
    let kind := entry.mode &&& sIfmt
    if kind = sIfdir then
      os.mkdir (utf8 out) mode
    else if kind = sIfreg then
      os.createFile (utf8 out) mode entry.data
    else if kind = sIflnk then
      match fromUtf8 entry.data with
      | none => throw .strErr
      | some _ => os.createSymlink (utf8 out) (pushStr [] entry.data)
    else if kind = sIfblk ∨ kind = sIfchr then
      if entry.rdevmajor.toNat < 2 ^ 32 ∧ entry.rdevminor.toNat < 2 ^ 32 then
        os.mknod (utf8 out) entry.mode entry.rdevmajor.toUInt32 entry.rdevminor.toUInt32
      else
        throw (.logged "out of range integral type conversion attempted")
    else
      throw (.logged "unknown entry type")

/-- `Cpio::extract`: one entry to a path, or every entry to its own name. -/
def extract (os : Os World) (cpio : Cpio) (path out : Option String) : Act World Unit :=
  match path, out with
  | some path, some out => extractEntry os cpio (normPath path) out
  | _, _ => cpio.entries.keys.forM fun path =>
    if path = "." ∨ path = ".." then pure () else extractEntry os cpio path path

/-! ## Commands that edit -/

/-- The entry `add` makes of a file; links are read as what they point to. -/
def addedEntry (os : Os World) (w : World) (mode : UInt32) (file : Path) :
    LoggedResult CpioEntry := do
  let attr ← os.getAttr w file
  match attr.kind with
  | .file | .symlink => return plainEntry (mode ||| sIfreg) (← os.readToEnd w file)
  | .blockDevice => return ⟨mode ||| sIfblk, 0, 0, attr.rdevmajor, attr.rdevminor, []⟩
  | .charDevice => return ⟨mode ||| sIfchr, 0, 0, attr.rdevmajor, attr.rdevminor, []⟩
  | .other => throw (.logged "unsupported file type")

/-- `Cpio::add`. -/
def add (os : Os World) (w : World) (cpio : Cpio) (mode : UInt32) (path file : String) :
    LoggedResult Cpio :=
  if endsWith path "/" then
    .error (.logged "path cannot end with / for add")
  else do
    let entry ← addedEntry os w mode (utf8 file)
    return ⟨cpio.entries.insert (normPath path) entry⟩

/-- `Cpio::mkdir`. -/
def mkdir (cpio : Cpio) (mode : UInt32) (dir : String) : Cpio :=
  ⟨cpio.entries.insert (normPath dir) (plainEntry (mode ||| sIfdir) [])⟩

/-- `Cpio::ln`. -/
def ln (cpio : Cpio) (src dst : String) : Cpio :=
  ⟨cpio.entries.insert (normPath dst) (plainEntry sIflnk (utf8 (normPath src)))⟩

/-- `Cpio::mv`. -/
def mv (cpio : Cpio) (source dest : String) : LoggedResult Cpio :=
  match cpio.entries[normPath source]? with
  | none => .error (.logged ("No such entry " ++ source))
  | some entry => .ok ⟨(cpio.entries.erase (normPath source)).insert (normPath dest) entry⟩

/-- `match_patterns!`: the length of the option at the head of a buffer, with the
comma before it and the value behind it. -/
def matchPatterns (patterns : List (List UInt8)) (buf : List UInt8) : Option Nat :=
  let comma := if buf.head? = some 0x2c then 1 else 0
  match patterns.find? (·.isPrefixOf (buf.drop comma)) with
  | none => none
  | some pattern =>
    let len := comma + pattern.length
    let b := buf.drop len
    if b.head? = some 0x3d then
      some (len + (b.takeWhile fun c => c ∉ [0x20, 0x0a, 0x00]).length)
    else
      some len

/-- `remove_pattern`, cut to the size it returns.  A match has at least one byte. -/
def removePattern (patterns : List (List UInt8)) : List UInt8 → List UInt8
  | [] => []
  | byte :: rest =>
    match matchPatterns patterns (byte :: rest) with
    | some len => removePattern patterns (rest.drop (len - 1))
    | none => byte :: removePattern patterns rest
termination_by buf => buf.length

/-- `patch_verity`. -/
def patchVerity : List UInt8 → List UInt8 :=
  removePattern (["verifyatboot", "verify", "avb_keys", "avb", "support_scfs",
    "fsverity"].map utf8)

/-- `patch_encryption`. -/
def patchEncryption : List UInt8 → List UInt8 :=
  removePattern (["forceencrypt", "forcefdeorfbe", "fileencryption"].map utf8)

/-- What `patch` leaves of one entry; `none` when it is removed. -/
def patchEntry (keepVerity keepForceEncrypt : Bool) (name : String) (entry : CpioEntry) :
    Option CpioEntry :=
  let fstab := (!keepVerity || !keepForceEncrypt) && decide entry.Regular &&
    !startsWith name ".backup" && !startsWith name "twrp" && !startsWith name "recovery" &&
    startsWith name "fstab"
  if !keepVerity && !fstab && name = "verity_key" then
    none
  else
    let data := if !keepVerity && fstab then patchVerity entry.data else entry.data
    let data := if !keepForceEncrypt && fstab then patchEncryption data else data
    some { entry with data := data }

/-- `Cpio::patch`. -/
def patch (os : Os World) (cpio : Cpio) : Cpio :=
  ⟨cpio.entries.filterMap
    (patchEntry (os.checkEnv "KEEPVERITY") (os.checkEnv "KEEPFORCEENCRYPT"))⟩

/-! ## The batch -/

/-- `CpioAction`. -/
inductive CpioAction where
  | test
  | restore
  | patch
  | existsEntry (path : String)
  | backup (origin : String) (skipCompress : Bool)
  | remove (path : String) (recursive : Bool)
  | move (source dest : String)
  | extract (paths : List String)
  | makeDir (mode : UInt32) (dir : String)
  | link (src dst : String)
  | add (mode : UInt32) (path file : String)
  | list (path : String) (recursive : Bool)
  deriving DecidableEq, Repr

/-- Why the argument parser did not return a command. -/
structure EarlyExit where
  output : String
  isHelp : Bool

/-- The argument parser of a command line. -/
abbrev FromArgs := List String → Except EarlyExit CpioAction

/-- How the program ends. -/
inductive Exit where
  | ok
  | error (fault : Fault)
  | exit (code : Nat)
  deriving DecidableEq, Repr

/-- A command, or loading or writing the archive, failed. -/
def Exit.Failed : Exit → Prop
  | .error _ => True
  | _ => False

/-- Where the command loop is after a command. -/
inductive Flow (World : Type) where
  | next (cpio : Cpio) (w : World)
  | stop (exit : Exit) (w : World)

/-- What a command that ends the program exits with. -/
def CpioAction.answer (cpio : Cpio) : CpioAction → Option Exit
  | .test => some (.exit cpio.test)
  | .existsEntry path => some (if cpio.existsEntry path then .ok else .error (.logged ""))
  | .list _ _ => some .ok
  | _ => none

/-- What a command does to the archive and the files. -/
def CpioAction.edit (os : Os World) (xz : Xz) (cpio : Cpio) (w : World) :
    CpioAction → LoggedResult Cpio × World
  | .test | .existsEntry _ | .list _ _ => (.ok cpio, w)
  | .restore => (.ok (cpio.restore xz), w)
  | .patch => (.ok (cpio.patch os), w)
  | .backup origin skipCompress =>
    (do cpio.backup xz (← os.mapFile w (utf8 origin)) skipCompress, w)
  | .remove path recursive => (.ok (cpio.rm path recursive), w)
  | .move source dest => (cpio.mv source dest, w)
  | .makeDir mode dir => (.ok (cpio.mkdir mode dir), w)
  | .link src dst => (.ok (cpio.ln src dst), w)
  | .add mode path file => (cpio.add os w mode path file, w)
  | .extract paths =>
    if paths ≠ [] ∧ paths.length ≠ 2 then
      (.error (.logged "invalid arguments"), w)
    else
      match (cpio.extract os paths[0]? paths[1]?).run w with
      | (.ok (), w) => (.ok cpio, w)
      | (.error fault, w) => (.error fault, w)

/-- One command of the loop. -/
def perform (os : Os World) (xz : Xz) (action : CpioAction) (cpio : Cpio) (w : World) :
    Flow World :=
  match action.answer cpio with
  | some exit => .stop exit w
  | none =>
    match action.edit os xz cpio w with
    | (.ok cpio, w) => .next cpio w
    | (.error fault, w) => .stop (.error fault) w

/-- The words of a command line. -/
def words (cmd : String) : List String :=
  (split ' ' cmd).filter (· ≠ "")

/-- The command loop; lines that start with `#` are skipped. -/
def commandLoop (os : Os World) (xz : Xz) (fromArgs : FromArgs) :
    List String → Cpio → World → Flow World
  | [], cpio, w => .next cpio w
  | cmd :: cmds, cpio, w =>
    if startsWith cmd "#" then
      commandLoop os xz fromArgs cmds cpio w
    else
      match fromArgs (words cmd) with
      | .error early => .stop (.exit (if early.isHelp then 0 else 1)) w
      | .ok action =>
        match perform os xz action cpio w with
        | .next cpio w => commandLoop os xz fromArgs cmds cpio w
        | .stop exit w => .stop exit w

/-- The archive a batch starts from; a missing file is the empty one. -/
def load (os : Os World) (w : World) (file : Path) : LoggedResult Cpio :=
  if os.pathExists w file then do loadFromData (← os.mapFile w file) else .ok new

/-- Write the archive back when the loop came to its end. -/
def finish (os : Os World) (file : Path) : Flow World → Exit × World
  | .stop exit w => (exit, w)
  | .next cpio w =>
    match os.fileCreate w file cpio.dump with
    | .ok w => (.ok, w)
    | .error fault => (.error fault, w)

/-- `cpio_commands`. -/
def cpioCommands (os : Os World) (xz : Xz) (fromArgs : FromArgs) (file : Path)
    (cmds : List String) (w : World) : Exit × World :=
  match load os w file with
  | .ok cpio => finish os file (commandLoop os xz fromArgs cmds cpio w)
  | .error fault => (.error fault, w)

/-! ## What a batch does to the archive file -/

/-- The command ends the program. -/
def CpioAction.answers : CpioAction → Bool
  | .test | .existsEntry _ | .list _ _ => true
  | _ => false

/-- All commands applied in order, the answering ones without effect. -/
def applyAll (os : Os World) (xz : Xz) :
    List CpioAction → Cpio → World → LoggedResult Cpio × World
  | [], cpio, w => (.ok cpio, w)
  | action :: rest, cpio, w =>
    match action.edit os xz cpio w with
    | (.ok cpio, w) => applyAll os xz rest cpio w
    | (.error fault, w) => (.error fault, w)

/-- What can be seen of the archive file. -/
def archive (os : Os World) (file : Path) (w : World) : Bool × LoggedResult (List UInt8) :=
  (os.pathExists w file, os.mapFile w file)

/-- The lines of a batch are the given commands, up to comments. -/
def Reads (fromArgs : FromArgs) (cmds : List String) (actions : List CpioAction) : Prop :=
  (cmds.filter fun cmd => !startsWith cmd "#").map (fun cmd => fromArgs (words cmd)) =
    actions.map .ok

/-- No `extract` that the loop reaches writes to the archive file. -/
def Spares (os : Os World) (xz : Xz) (file : Path) :
    List CpioAction → Cpio → World → Prop
  | [], _, _ => True
  | action :: rest, cpio, w =>
    action.answers = false →
      (∀ paths, action = .extract paths →
        archive os file (action.edit os xz cpio w).2 = archive os file w) ∧
      ∀ edited after, action.edit os xz cpio w = (.ok edited, after) →
        Spares os xz file rest edited after

variable {os : Os World} {xz : Xz} {fromArgs : FromArgs} {file : Path} {action query : CpioAction}
  {w : World} {actions before after : List CpioAction}

theorem answer_eq_none_iff (cpio : Cpio) : action.answer cpio = none ↔ action.answers = false := by
  cases action <;> simp [CpioAction.answer, CpioAction.answers]

/-- Only `extract` touches files. -/
theorem archive_edit (spared : ∀ paths, action = .extract paths →
      archive os file (action.edit os xz cpio w).2 = archive os file w) :
    archive os file (action.edit os xz cpio w).2 = archive os file w := by
  cases action with
  | extract paths => exact spared paths rfl
  | _ => rfl

/-- The loop over commands that are already parsed. -/
def actionLoop (os : Os World) (xz : Xz) : List CpioAction → Cpio → World → Flow World
  | [], cpio, w => .next cpio w
  | action :: rest, cpio, w =>
    match perform os xz action cpio w with
    | .next cpio w => actionLoop os xz rest cpio w
    | .stop exit w => .stop exit w

theorem commandLoop_eq (reads : Reads fromArgs cmds actions) (cpio : Cpio) (w : World) :
    commandLoop os xz fromArgs cmds cpio w = actionLoop os xz actions cpio w := by
  induction cmds generalizing actions cpio w with
  | nil =>
    cases actions with
    | nil => rfl
    | cons action rest => simp [Reads] at reads
  | cons cmd cmds ih =>
    by_cases comment : startsWith cmd "#" = true
    · rw [commandLoop, if_pos comment]
      apply ih
      simpa [Reads, comment] using reads
    · rw [commandLoop, if_neg comment]
      cases actions with
      | nil => simp [Reads, comment] at reads
      | cons action rest =>
        simp only [Reads, comment, Bool.not_false, filter_cons_of_pos, map_cons,
          List.cons.injEq] at reads
        rw [reads.1, actionLoop]
        dsimp only
        cases perform os xz action cpio w with
        | next cpio w => exact ih reads.2 cpio w
        | stop exit w => rfl

/-- Commands that do not answer are applied one after another. -/
theorem actionLoop_append (os : Os World) (xz : Xz) (rest : List CpioAction)
    (silent : ∀ action ∈ before, action.answers = false) (cpio : Cpio) (w : World) :
    actionLoop os xz (before ++ rest) cpio w =
      match applyAll os xz before cpio w with
      | (.ok cpio, w) => actionLoop os xz rest cpio w
      | (.error fault, w) => .stop (.error fault) w := by
  induction before generalizing cpio w with
  | nil => rfl
  | cons action before ih =>
    have quiet := (answer_eq_none_iff cpio).mpr (silent action mem_cons_self)
    rw [cons_append, actionLoop, applyAll, perform, quiet]
    rcases edited : action.edit os xz cpio w with ⟨result, after⟩
    cases result with
    | error fault => rfl
    | ok cpio =>
      exact ih (fun other mem => silent other (mem_cons_of_mem action mem)) cpio after

/-- Spared by every `extract`, the file is what it was. -/
theorem archive_applyAll {rest : List CpioAction}
    (silent : ∀ action ∈ before, action.answers = false)
    (spares : Spares os xz file (before ++ rest) cpio w) :
    archive os file (applyAll os xz before cpio w).2 = archive os file w := by
  induction before generalizing cpio w with
  | nil => rfl
  | cons action before ih =>
    rcases spares (silent action mem_cons_self) with ⟨spared, later⟩
    have kept := archive_edit spared
    rw [applyAll]
    rcases edited : action.edit os xz cpio w with ⟨result, after⟩
    rw [edited] at kept
    cases result with
    | error fault => exact kept
    | ok cpio =>
      have rest := ih (fun other mem => silent other (mem_cons_of_mem action mem))
        (later cpio after edited)
      exact rest.trans kept

theorem dump_ne_nil (cpio : Cpio) : cpio.dump ≠ [] := by
  simp [dump, dumpTrailer, DumpState.write, DumpState.pad, header, magic]

/-- A batch that answers nothing writes the result of its commands. -/
theorem cpioCommands_of_silent (xz : Xz) (reads : Reads fromArgs cmds actions)
    (silent : ∀ action ∈ actions, action.answers = false) (start : load os w file = .ok loaded) :
    cpioCommands os xz fromArgs file cmds w =
      match applyAll os xz actions loaded w with
      | (.ok result, after) => finish os file (.next result after)
      | (.error fault, after) => (.error fault, after) := by
  have looped := actionLoop_append os xz [] silent loaded w
  rw [append_nil] at looped
  rw [cpioCommands, start]
  dsimp only
  rw [commandLoop_eq reads, looped]
  rcases applyAll os xz actions loaded w with ⟨result, after⟩
  cases result with
  | ok result => rfl
  | error fault => rfl

/-- A batch ends at its first answering command. -/
theorem cpioCommands_of_answers (xz : Xz) (reads : Reads fromArgs cmds (before ++ query :: after))
    (silent : ∀ action ∈ before, action.answers = false) (answers : query.answers = true)
    (start : load os w file = .ok loaded) :
    ∃ exit, (∀ result between, applyAll os xz before loaded w = (.ok result, between) →
        query.answer result = some exit) ∧
      cpioCommands os xz fromArgs file cmds w = (exit, (applyAll os xz before loaded w).2) := by
  have looped := actionLoop_append os xz (query :: after) silent loaded w
  rw [cpioCommands, start]
  dsimp only
  rw [commandLoop_eq reads, looped]
  rcases applyAll os xz before loaded w with ⟨result, between⟩
  cases result with
  | error fault => exact ⟨.error fault, nofun, rfl⟩
  | ok result =>
    have spoken : query.answer result ≠ none := by
      rw [Ne, answer_eq_none_iff, answers]
      exact Bool.noConfusion
    obtain ⟨exit, said⟩ := Option.ne_none_iff_exists'.mp spoken
    refine ⟨exit, ?_, ?_⟩
    · rintro other world same
      cases same
      exact said
    · dsimp only
      rw [actionLoop, perform, said]
      rfl

/-- What a batch does to the archive file: nothing when it fails or ends with an
answer, and otherwise it stores the result of all its commands. -/
structure WritesOnce (os : Os World) (xz : Xz) (file : Path) (actions : List CpioAction)
    (w : World) (outcome : Exit × World) : Prop where
  failed : outcome.1.Failed → archive os file outcome.2 = archive os file w
  answered : ∀ before query after, actions = before ++ query :: after →
    (∀ action ∈ before, action.answers = false) → query.answers = true →
      archive os file outcome.2 = archive os file w ∧
      ∀ loaded result between, load os w file = .ok loaded →
        applyAll os xz before loaded w = (.ok result, between) →
          query.answer result = some outcome.1 ∧ outcome.2 = between
  completed : (∀ action ∈ actions, action.answers = false) → outcome.1 = .ok →
    ∃ loaded result between, load os w file = .ok loaded ∧
      applyAll os xz actions loaded w = (.ok result, between) ∧
      os.mapFile outcome.2 file = .ok result.dump
  succeeds : (∀ action ∈ actions, action.answers = false) →
    ∀ loaded result between written, load os w file = .ok loaded →
      applyAll os xz actions loaded w = (.ok result, between) →
        os.fileCreate between file result.dump = .ok written → outcome = (.ok, written)

/-- A batch that answers leaves the file alone. -/
theorem archive_of_answers (reads : Reads fromArgs cmds (before ++ query :: after))
    (silent : ∀ action ∈ before, action.answers = false) (answers : query.answers = true)
    (start : load os w file = .ok loaded)
    (spares : Spares os xz file (before ++ query :: after) loaded w) :
    archive os file (cpioCommands os xz fromArgs file cmds w).2 = archive os file w := by
  obtain ⟨exit, _, ran⟩ := cpioCommands_of_answers xz reads silent answers start
  rw [ran]
  exact archive_applyAll silent spares

/-- A batch that answers nothing leaves the file alone when it fails. -/
theorem archive_of_silent (reads : Reads fromArgs cmds actions)
    (silent : ∀ action ∈ actions, action.answers = false) (start : load os w file = .ok loaded)
    (spares : Spares os xz file actions loaded w)
    (failed : (cpioCommands os xz fromArgs file cmds w).1.Failed) :
    archive os file (cpioCommands os xz fromArgs file cmds w).2 = archive os file w := by
  have padded : Spares os xz file (actions ++ []) loaded w := by rwa [append_nil]
  have kept := archive_applyAll silent padded
  rw [cpioCommands_of_silent xz reads silent start] at failed ⊢
  rcases applied : applyAll os xz actions loaded w with ⟨result, between⟩
  rw [applied] at kept failed
  cases result with
  | error fault => exact kept
  | ok result =>
    dsimp only [finish] at failed ⊢
    cases created : os.fileCreate between file result.dump with
    | error fault => exact kept
    | ok written =>
      rw [created] at failed
      exact failed.elim

/-- Either no command answers, or there is a first one that does. -/
theorem silent_or_answers (actions : List CpioAction) :
    (∀ action ∈ actions, action.answers = false) ∨
      ∃ before query after, actions = before ++ query :: after ∧
        (∀ action ∈ before, action.answers = false) ∧ query.answers = true := by
  cases first : actions.find? CpioAction.answers with
  | none => exact Or.inl fun action mem => by simpa using find?_eq_none.mp first action mem
  | some query =>
    rcases find?_eq_some_iff_append.mp first with ⟨answers, before, after, split, silent⟩
    exact Or.inr ⟨before, query, after, split, fun action mem => by simpa using silent action mem,
      answers⟩

/-- A batch of commands leaves the archive file alone unless it runs to its end,
and then the file holds the result of all of them. -/
theorem writesOnce_cpioCommands {World : Type} (os : Os World) (xz : Xz) (fromArgs : FromArgs)
    (file : Path) (cmds : List String) (actions : List CpioAction) (w : World)
    (reads : Reads fromArgs cmds actions)
    (spares : ∀ loaded, load os w file = .ok loaded → Spares os xz file actions loaded w) :
    WritesOnce os xz file actions w (cpioCommands os xz fromArgs file cmds w) := by
  cases start : load os w file with
  | error fault =>
    have unread : cpioCommands os xz fromArgs file cmds w = (.error fault, w) := by
      rw [cpioCommands, start]
    rw [unread]
    constructor
    · exact fun _ => rfl
    · exact fun _ _ _ _ _ _ => ⟨rfl, fun _ _ _ loaded => by rw [start] at loaded; cases loaded⟩
    · exact fun _ ended => by cases ended
    · exact fun _ _ _ _ _ loaded => by rw [start] at loaded; cases loaded
  | ok loaded =>
    have spared := spares loaded start
    constructor
    · intro failed
      rcases silent_or_answers actions with silent | ⟨before, query, after, rfl, silent, answers⟩
      · exact archive_of_silent reads silent start spared failed
      · exact archive_of_answers reads silent answers start spared
    · rintro before query after rfl silent answers
      refine ⟨archive_of_answers reads silent answers start spared, ?_⟩
      intro other result between same applied
      cases start.symm.trans same
      obtain ⟨exit, said, ran⟩ := cpioCommands_of_answers xz reads silent answers start
      rw [ran, applied]
      exact ⟨said result between applied, rfl⟩
    · intro silent ended
      rw [cpioCommands_of_silent xz reads silent start] at ended ⊢
      rcases applied : applyAll os xz actions loaded w with ⟨result, between⟩
      rw [applied] at ended
      cases result with
      | error fault => cases ended
      | ok result =>
        refine ⟨loaded, result, between, start, applied, ?_⟩
        dsimp only [finish] at ended ⊢
        cases created : os.fileCreate between file result.dump with
        | error fault =>
          rw [created] at ended
          cases ended
        | ok written => exact os.mapFile_fileCreate (dump_ne_nil result) created
    · intro silent other result between written same applied created
      cases start.symm.trans same
      rw [cpioCommands_of_silent xz reads silent start, applied]
      dsimp only [finish]
      rw [created]

/-! ## Lost edits -/

/-- The file stores the archive: it is its dump, or it is read as it. -/
def Holds (os : Os World) (file : Path) (w : World) (cpio : Cpio) : Prop :=
  os.mapFile w file = .ok cpio.dump ∨ load os w file = .ok cpio

/-- Either nothing happens to the file, or all commands do. -/
structure AllOrNothing (os : Os World) (xz : Xz) (file : Path) (actions : List CpioAction)
    (w : World) (outcome : Exit × World) : Prop where
  failed : outcome.1.Failed → archive os file outcome.2 = archive os file w
  succeeded : ¬ outcome.1.Failed →
    ∃ loaded result between, load os w file = .ok loaded ∧
      applyAll os xz actions loaded w = (.ok result, between) ∧
      Holds os file outcome.2 result

/-- Files in one directory, the latest first. -/
abbrev Flat := List (Path × List UInt8)

/-- The contents of a file. -/
def Flat.read (w : Flat) (path : Path) : LoggedResult (List UInt8) :=
  match w.lookup path with
  | some bytes => .ok bytes
  | none => .error (.logged "No such file or directory")

/-- A system with one directory of regular files. -/
def flatOs : Os Flat where
  pathExists w path := (w.lookup path).isSome
  mapFile w path := w.read path
  getAttr w path := do
    let _ ← w.read path
    return ⟨.file, 0, 0⟩
  readToEnd w path := w.read path
  mkdir _ _ := throw (.logged "Read-only file system")
  createFile path _ data := modify ((path, data) :: ·)
  createSymlink _ _ := throw (.logged "Operation not permitted")
  mknod _ _ _ _ := pure ()
  fileCreate w path bytes := .ok ((path, bytes) :: w)
  var _ := none
  mapFile_fileCreate := by
    rintro before after path bytes _ created
    cases created
    simp [Flat.read]

/-- A coder that stores. -/
def storedXz : Xz :=
  ⟨some, some⟩

/-- Five command lines as the parser reads them. -/
def sampleArgs : FromArgs
  | ["mkdir", "755", dir] => .ok (.makeDir 0o755 dir)
  | ["exists", path] => .ok (.existsEntry path)
  | ["add", "644", path, file] => .ok (.add 0o644 path file)
  | ["extract", path, out] => .ok (.extract [path, out])
  | ["mv", source, dest] => .ok (.move source dest)
  | _ => .error ⟨"Unrecognized argument", false⟩

/-- An empty archive `ramdisk.cpio` beside a file `in`. -/
def sampleFiles : Flat :=
  [(utf8 "ramdisk.cpio", dump new), (utf8 "in", [1])]

theorem reads_mkdir : Reads sampleArgs ["mkdir 755 d"] [.makeDir 0o755 "d"] := by
  rfl

theorem reads_mkdir_exists : Reads sampleArgs ["mkdir 755 d", "exists d"]
    [.makeDir 0o755 "d", .existsEntry "d"] := by
  rfl

theorem reads_extract : Reads sampleArgs ["add 644 a in", "extract a ramdisk.cpio", "mv b c"]
    [.add 0o644 "a" "in", .extract ["a", "ramdisk.cpio"], .move "b" "c"] := by
  rfl

theorem dumpable_new : Dumpable new := ⟨by decide, fun name entry found => by simp [new] at found⟩

theorem load_sampleFiles : load flatOs sampleFiles (utf8 "ramdisk.cpio") = .ok new :=
  loadFromData_dump_eq dumpable_new

/-- The archive `mkdir 755 d` makes of the empty one. -/
theorem getElem?_mkdir_new (name : String) : (new.mkdir 0o755 "d").entries[name]? =
      if "d" = name then some (plainEntry (0o755 ||| sIfdir) []) else none := by
  have normal : normPath "d" = "d" := by decide
  simp [mkdir, normal, new, ExtTreeMap.getElem?_insert]

theorem dumpable_mkdir_new : Dumpable (new.mkdir 0o755 "d") := by
  refine ⟨by decide, fun name entry found => ?_⟩
  rw [getElem?_mkdir_new] at found
  split at found
  · rename_i same
    cases same
    cases found
    constructor <;> decide
  · cases found

theorem mkdir_new_ne : new.mkdir 0o755 "d" ≠ new := by
  intro same
  have found := getElem?_mkdir_new "d"
  rw [same] at found
  simp [new] at found

/-- The directory is made and written. -/
theorem writesOnce_cpioCommands_mkdir :
    WritesOnce flatOs storedXz (utf8 "ramdisk.cpio") [.makeDir 0o755 "d"] sampleFiles
        (cpioCommands flatOs storedXz sampleArgs (utf8 "ramdisk.cpio") ["mkdir 755 d"]
          sampleFiles) ∧
      (cpioCommands flatOs storedXz sampleArgs (utf8 "ramdisk.cpio") ["mkdir 755 d"]
          sampleFiles).1 = .ok := by
  have promised := writesOnce_cpioCommands flatOs storedXz sampleArgs (utf8 "ramdisk.cpio")
    ["mkdir 755 d"] [.makeDir 0o755 "d"] sampleFiles reads_mkdir
    (fun loaded _ _ => ⟨nofun, fun _ _ _ => trivial⟩)
  refine ⟨promised, ?_⟩
  rw [promised.succeeds (by decide) new _ _ _ load_sampleFiles rfl rfl]

theorem dump_new_ne : dump new ≠ [1] := by
  decide +kernel

/-- `exists` after `mkdir` ends the run with success and the directory is lost; a
file extracted over the archive stays there when the next command fails. -/
theorem not_allOrNothing_samples :
    (Reads sampleArgs ["mkdir 755 d", "exists d"] [.makeDir 0o755 "d", .existsEntry "d"] ∧
      ¬ AllOrNothing flatOs storedXz (utf8 "ramdisk.cpio")
        [.makeDir 0o755 "d", .existsEntry "d"] sampleFiles
        (cpioCommands flatOs storedXz sampleArgs (utf8 "ramdisk.cpio")
          ["mkdir 755 d", "exists d"] sampleFiles)) ∧
      Reads sampleArgs ["add 644 a in", "extract a ramdisk.cpio", "mv b c"]
        [.add 0o644 "a" "in", .extract ["a", "ramdisk.cpio"], .move "b" "c"] ∧
      ¬ AllOrNothing flatOs storedXz (utf8 "ramdisk.cpio")
        [.add 0o644 "a" "in", .extract ["a", "ramdisk.cpio"], .move "b" "c"] sampleFiles
        (cpioCommands flatOs storedXz sampleArgs (utf8 "ramdisk.cpio")
          ["add 644 a in", "extract a ramdisk.cpio", "mv b c"] sampleFiles) := by
  refine ⟨⟨reads_mkdir_exists, ?_⟩, reads_extract, ?_⟩
  · intro claimed
    have silent : ∀ action ∈ [CpioAction.makeDir 0o755 "d"], action.answers = false := by decide
    obtain ⟨exit, said, ran⟩ := cpioCommands_of_answers storedXz reads_mkdir_exists
      silent rfl load_sampleFiles
    have found : (new.mkdir 0o755 "d").existsEntry "d" = true := by
      simp [existsEntry, mkdir]
    have answered : some (if (new.mkdir 0o755 "d").existsEntry "d" then Exit.ok else
        .error (.logged "")) = some exit := said _ _ rfl
    cases answered
    rw [ran] at claimed
    obtain ⟨loaded, result, between, start, applied, holds⟩ := claimed.succeeded id
    cases load_sampleFiles.symm.trans start
    cases applied
    have readBack : load flatOs sampleFiles (utf8 "ramdisk.cpio") = .ok (new.mkdir 0o755 "d") := by
      rcases holds with dumped | read
      · have same : (new.mkdir 0o755 "d").dump = new.dump := (Except.ok.inj dumped).symm
        rw [← loadFromData_dump_eq dumpable_mkdir_new, same]
        rfl
      · exact read
    exact mkdir_new_ne (Except.ok.inj (readBack.symm.trans load_sampleFiles))
  · intro claimed
    have silent : ∀ action ∈ [CpioAction.add 0o644 "a" "in", .extract ["a", "ramdisk.cpio"],
        .move "b" "c"], action.answers = false := by decide
    have ran := cpioCommands_of_silent storedXz reads_extract silent load_sampleFiles
    rw [ran] at claimed
    have kept : (Except.ok [1] : LoggedResult (List UInt8)) = .ok new.dump :=
      congrArg Prod.snd (claimed.failed trivial)
    exact dump_new_ne (Except.ok.inj kept).symm

end Cpio

end Magisk.Boot
