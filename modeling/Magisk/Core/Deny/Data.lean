import Magisk.Interleaving.Lock
import Magisk.Text.Core

/-!
# The denylist and its requests

The daemon keeps the denylist in two tables: package names with their process
names, and app ids with views of the package names.  The second one is an index
into the first, filled with the app id that the data directory showed when a
package was added or the tables were scanned.  One lock guards both tables, and
the requests are programs over them.
-/

namespace Magisk.Core.Deny

open Interleaving

/-- `ISOLATED_MAGIC`. -/
def isolatedMagic : String := "isolated"

/-- `DenyResponse`. -/
inductive DenyResponse where
  | OK
  | ENFORCED
  | NOT_ENFORCED
  | ITEM_EXIST
  | ITEM_NOT_EXIST
  | INVALID_PKG
  | NO_NS
  | ERROR
  deriving DecidableEq

/-! ## App ids -/

/-- What the app data directory shows: its entries read as user ids, and the
owner of a package's directory below one of them. -/
structure DataDir where
  users : List Int
  stUid : Int → String → Option UInt32

/-- `to_app_id` of the owner of a directory. -/
def toAppId (uid : UInt32) : Int :=
  uid.toNat % 100000

namespace DataDir

/-- `get_app_id` for known users. -/
def appId (dir : DataDir) (pkg : String) : Int :=
  match dir.users.findSome? fun user => dir.stUid user pkg with
  | some uid => toAppId uid
  | none => 0

/-- `get_app_id`. -/
def getAppId (dir : DataDir) (pkg : String) : Int :=
  if pkg = isolatedMagic then -1 else dir.appId pkg

end DataDir

/-! ## The tables -/

/-- A node of `pkg_to_procs`, at its address. -/
structure Package where
  node : Nat
  name : String
  procs : List String
  deriving DecidableEq

/-- A `string_view` of the key of a node. -/
structure View where
  node : Nat
  text : String
  deriving DecidableEq

def Package.view (package : Package) : View :=
  { node := package.node, text := package.name }

/-- Both tables, each of which is there or not, and the address of the next
node.  The index is kept as the pairs of an app id and a view. -/
structure DenyData where
  pkgToProcs : Option (List Package) := none
  appIdToPkgs : Option (List (Int × View)) := none
  nextNode : Nat := 0
  deriving DecidableEq

namespace DenyData

def packages (data : DenyData) : List Package :=
  data.pkgToProcs.getD []

def index (data : DenyData) : List (Int × View) :=
  data.appIdToPkgs.getD []

/-- `pkg_to_procs.find`. -/
def find (data : DenyData) (pkg : String) : Option Package :=
  data.packages.find? fun package => decide (package.name = pkg)

/-- Whether a process is listed for a package. -/
def lists (data : DenyData) (pkg proc : String) : Bool :=
  match data.find pkg with
  | some package => package.procs.contains proc
  | none => false

/-- `pkg_to_procs[pkg].emplace(proc)` for a process that is not listed. -/
def emplace (data : DenyData) (pkg proc : String) : DenyData :=
  match data.find pkg with
  | some _ =>
    { data with
      pkgToProcs := some <| data.packages.map fun package =>
        if package.name = pkg then { package with procs := package.procs ++ [proc] }
        else package }
  | none =>
    { data with
      pkgToProcs := some (data.packages ++ [⟨data.nextNode, pkg, [proc]⟩])
      nextNode := data.nextNode + 1 }

/-- `pkg_to_procs.erase`. -/
def erase (data : DenyData) (pkg : String) : DenyData :=
  { data with pkgToProcs := some <| data.packages.filter fun package => package.name ≠ pkg }

/-- `it->second.erase(proc)`. -/
def eraseProc (data : DenyData) (pkg proc : String) : DenyData :=
  { data with
    pkgToProcs := some <| data.packages.map fun package =>
      if package.name = pkg then { package with procs := package.procs.erase proc } else package }

/-- Record a view under an app id, unless its text is recorded there. -/
def record (data : DenyData) (appId : Int) (view : View) : DenyData :=
  if data.index.any fun item => item.1 = appId ∧ item.2.text = view.text then data
  else { data with appIdToPkgs := some (data.index ++ [(appId, view)]) }

/-- Remove a text from those under an app id. -/
def forget (data : DenyData) (appId : Int) (text : String) : DenyData :=
  { data with
    appIdToPkgs := some <| data.index.filter fun item =>
      ¬ (item.1 = appId ∧ item.2.text = text) }

/-- Whether a view points to the key of a node that is there. -/
def holds (data : DenyData) (view : View) : Bool :=
  data.packages.any fun package => package.view = view

/-- The loop of `is_deny_target` over the views of one app id.  A view that
dangles, and a name that is not found, are faults. -/
def anyLists (data : DenyData) (process : String) : List View → Option Bool
  | [] => some false
  | view :: views =>
    if data.holds view then
      match data.find view.text with
      | none => none
      | some package =>
        if package.procs.contains process then some true else data.anyLists process views
    else none

/-- The lookups of `is_deny_target`; `none` is a fault. -/
def isTarget (data : DenyData) (uid : Int32) (process : String) : Option Bool :=
  let appId := uid.toInt.tmod 100000
  if 90000 ≤ appId then
    match data.find isolatedMagic with
    | some package => some (package.procs.any fun proc => Text.startsWith process proc)
    | none => some false
  else
    data.anyLists process ((data.index.filter fun item => item.1 = appId).map Prod.snd)

end DenyData

/-! ## The functions on the tables -/

/-- The functions that make accesses to the tables. -/
inductive Site where
  | updateAppId
  | addHideSet
  | scanDenyApps
  | clearData
  | ensureData
  | addList
  | rmList
  | lsList
  | isDenyTarget
  deriving DecidableEq

/-- A function on the tables. -/
abbrev DenyProgram := Program DenyData Site

/-- `update_app_id`. -/
def updateAppId (appId : Int) (view : View) (remove : Bool) : DenyProgram Unit :=
  if appId ≤ 0 then pure ()
  else if remove then Program.change .updateAppId fun data => data.forget appId view.text
  else Program.change .updateAppId fun data => data.record appId view

/-- `add_hide_set`, without the processes it kills: whether the process is new. -/
def addHideSet (pkg proc : String) : DenyProgram Bool :=
  Program.exchange .addHideSet
    (fun data => if data.lists pkg proc then data else data.emplace pkg proc)
    fun data => !data.lists pkg proc

/-- The loop of `scan_deny_apps`: the packages whose rows it deletes. -/
def scanLoop (dir : DataDir) : List Package → DenyProgram (List String)
  | [] => pure []
  | package :: rest =>
    if package.name = isolatedMagic then
      scanLoop dir rest
    else if dir.appId package.name = 0 then do
      Program.change .scanDenyApps fun data => data.erase package.name
      let removed ← scanLoop dir rest
      return package.name :: removed
    else do
      updateAppId (dir.appId package.name) package.view false
      scanLoop dir rest

/-- `scan_deny_apps`: drop packages that are not installed and fill the index
anew. -/
def scanDenyApps (dir : DataDir) : DenyProgram (List String) := do
  let index ← Program.look .scanDenyApps DenyData.appIdToPkgs
  if index.isNone then return []
  else
    Program.change .scanDenyApps fun data => { data with appIdToPkgs := some [] }
    let packages ← Program.look .scanDenyApps DenyData.packages
    scanLoop dir packages

/-- What `ensure_data` finds: the rows that the query delivers, whether it
succeeds, and the data directory. -/
structure Load where
  rows : List (String × String)
  succeeds : Bool
  dir : DataDir

/-- `clear_data`. -/
def clearData : DenyProgram Unit :=
  Program.change .clearData fun data => { data with pkgToProcs := none, appIdToPkgs := none }

/-- The callback of the query, row by row. -/
def addRows : List (String × String) → DenyProgram Unit
  | [] => pure ()
  | row :: rows => do
      let _ ← addHideSet row.1 row.2
      addRows rows

/-- `ensure_data`: whether the tables are there, and the packages whose rows are
deleted. -/
def ensureData (load : Load) : DenyProgram (Bool × List String) := do
  let packages ← Program.look .ensureData DenyData.pkgToProcs
  if packages.isSome then return (true, [])
  else
    Program.change .ensureData fun data => { data with pkgToProcs := some [] }
    addRows load.rows
    if load.succeeds then
      Program.change .ensureData fun data => { data with appIdToPkgs := some [] }
      let removed ← scanDenyApps load.dir
      return (true, removed)
    else
      clearData
      return (false, [])

/-! ## The requests -/

/-- The characters of a name, `isalnum(c) || c == '_'`. -/
def isNameChar (c : Char) : Bool :=
  c.isAlphanum || c == '_'

/-- The loop of `validate` over a package name. -/
def validPkg (valid : Bool) : List Char → Bool
  | [] => valid
  | c :: rest =>
    if isNameChar c then validPkg valid rest
    else if c = '.' then validPkg true rest
    else false

/-- The loop of `validate` over a process name of an isolated service. -/
def validIsolated : List Char → Bool
  | [] => true
  | c :: rest =>
    if isNameChar c || c == '.' then validIsolated rest
    else c == ':'

/-- `validate`. -/
def validate (pkg proc : String) : Bool :=
  if pkg = isolatedMagic then validIsolated proc.toList
  else
    validPkg false pkg.toList &&
      proc.toList.all fun c => isNameChar c || c == ':' || c == '.'

/-- The characters that fit into `room` bytes. -/
def cutTo (room : Nat) : List Char → List Char
  | [] => []
  | c :: rest => if c.utf8Size ≤ room then c :: cutTo (room - c.utf8Size) rest else []

/-- `ssprintf` into a buffer of 4096 bytes. -/
def ssprintf (text : String) : String :=
  if text.utf8ByteSize < 4096 then text else String.ofList (cutTo 4095 text.toList)

/-- The statements on the denylist table. -/
inductive Statement where
  | insert (pkg proc : String)
  | deletePackage (pkg : String)
  | deleteProc (pkg proc : String)
  deriving DecidableEq

/-- `'%s'` in a format. -/
def quote (name : String) : String :=
  "'" ++ name ++ "'"

def insertInto : String := "INSERT INTO denylist (package_name, process) VALUES("

def deleteFrom : String := "DELETE FROM denylist WHERE package_name="

def andProcess : String := " AND process="

/-- The text of a statement before it is cut to the buffer. -/
def Statement.text : Statement → String
  | .insert pkg proc => insertInto ++ quote pkg ++ ", " ++ quote proc ++ ")"
  | .deletePackage pkg => deleteFrom ++ quote pkg
  | .deleteProc pkg proc => deleteFrom ++ quote pkg ++ andProcess ++ quote proc

/-- The statement as it is executed. -/
def Statement.sql (statement : Statement) : String :=
  ssprintf statement.text

/-- How a request leaves its critical section: with a response, or with a
statement to execute. -/
inductive Outcome where
  | respond (response : DenyResponse)
  | exec (statement : Statement)
  | target (found : Option Bool)
  deriving DecidableEq

/-- The requests, with what they read outside the tables. -/
inductive Request where
  | addList (pkg proc : String) (load : Load) (dir : DataDir)
  | rmList (pkg proc : String) (load : Load) (dir : DataDir)
  | lsList (load : Load) (dir : DataDir)
  | enableDeny (enforced mntNs procfs : Bool) (load : Load)
  | isDenyTarget (uid : Int32) (process : String) (load : Load)
  | zygoteRestart (dir : DataDir)

/-- Leave the critical section of a request. -/
def leave (removed : List String) (outcome : Outcome) : DenyProgram (List String × Outcome) := do
  Program.release
  return (removed, outcome)

/-- The critical section of `add_list`. -/
def addItem (pkg proc : String) (load : Load) (dir : DataDir) :
    DenyProgram (List String × Outcome) := do
  Program.acquire
  let (there, removed) ← ensureData load
  if there then
    if dir.getAppId pkg = 0 then leave removed (.respond .INVALID_PKG)
    else
      let added ← addHideSet pkg proc
      if added then
        let found ← Program.look .addList fun data => data.find pkg
        match found with
        | some package =>
          updateAppId (dir.getAppId pkg) package.view false
          leave removed (.exec (.insert pkg proc))
        | none => leave removed (.respond .ERROR)
      else leave removed (.respond .ITEM_EXIST)
  else leave removed (.respond .ERROR)

/-- The process that `add_list` adds. -/
def procOr (pkg proc : String) : String :=
  if proc = "" then pkg else proc

/-- `add_list` up to its statement. -/
def addList (pkg proc : String) (load : Load) (dir : DataDir) :
    DenyProgram (List String × Outcome) :=
  if validate pkg (procOr pkg proc) then addItem pkg (procOr pkg proc) load dir
  else return ([], .respond .INVALID_PKG)

/-- The removal of a package's node by `rm_list`. -/
def rmPackage (package : Package) (dir : DataDir) : DenyProgram Unit := do
  updateAppId (dir.getAppId package.name) package.view true
  Program.change .rmList fun data => data.erase package.name

/-- `rm_list` up to its statement. -/
def rmList (pkg proc : String) (load : Load) (dir : DataDir) :
    DenyProgram (List String × Outcome) := do
  Program.acquire
  let (there, removed) ← ensureData load
  if there then
    let found ← Program.look .rmList fun data => data.find pkg
    match found with
    | none => leave removed (.respond .ITEM_NOT_EXIST)
    | some package =>
      if proc = "" then
        rmPackage package dir
        leave removed (.exec (.deletePackage pkg))
      else if package.procs.contains proc then
        Program.change .rmList fun data => data.eraseProc pkg proc
        if package.procs.erase proc = [] then rmPackage package dir
        leave removed (.exec (.deleteProc pkg proc))
      else leave removed (.respond .ITEM_NOT_EXIST)
  else leave removed (.respond .ERROR)

/-- `ls_list`, without the names it writes to the client. -/
def lsList (load : Load) (dir : DataDir) : DenyProgram (List String × Outcome) := do
  Program.acquire
  let (there, removed) ← ensureData load
  if there then
    let dropped ← scanDenyApps dir
    let _ ← Program.look .lsList DenyData.packages
    leave (removed ++ dropped) (.respond .OK)
  else leave removed (.respond .ERROR)

/-- `enable_deny`, as far as the tables are concerned. -/
def enableDeny (enforced mntNs procfs : Bool) (load : Load) :
    DenyProgram (List String × Outcome) :=
  if enforced then return ([], .respond .OK)
  else do
    Program.acquire
    if mntNs then
      if procfs then
        let (there, removed) ← ensureData load
        leave removed (.respond (if there then .OK else .ERROR))
      else leave [] (.respond .ERROR)
    else leave [] (.respond .NO_NS)

/-- `is_deny_target`. -/
def isDenyTarget (uid : Int32) (process : String) (load : Load) :
    DenyProgram (List String × Outcome) := do
  Program.acquire
  let (there, removed) ← ensureData load
  if there then
    let found ← Program.look .isDenyTarget fun data => data.isTarget uid process
    leave removed (.target found)
  else leave removed (.target (some false))

/-- What the daemon runs for a request.  A restart of zygote scans the tables
without the lock. -/
def program : Request → DenyProgram (List String × Outcome)
  | .addList pkg proc load dir => addList pkg proc load dir
  | .rmList pkg proc load dir => rmList pkg proc load dir
  | .lsList load dir => lsList load dir
  | .enableDeny enforced mntNs procfs load => enableDeny enforced mntNs procfs load
  | .isDenyTarget uid process load => isDenyTarget uid process load
  | .zygoteRestart dir => do
      let removed ← scanDenyApps dir
      return (removed, .respond .OK)

end Magisk.Core.Deny
