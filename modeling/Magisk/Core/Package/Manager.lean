import Magisk.Core.Su.Daemon
import Magisk.Interleaving.Core

/-!
# The manager app

The daemon looks for its manager app on behalf of a user.  It remembers one
repackaged package with its app id for all users, and for each user the file
that the last lookup ended with, so that it can answer again as long as that
file is unchanged.  Every result names the package of the database, or the
original package if the database has none, as long as no user's remembered
dyn APK outlives the repackaged package.
-/

namespace Magisk.Core

open Interleaving

/-! ## What a lookup reads -/

/-- `APP_PACKAGE_NAME`. -/
def appPackageName : String := "com.topjohnwu.magisk"

/-- An APK: the certificate of its signer and the version code in its comment. -/
structure Apk where
  cert : List UInt8
  versionCode : Int32

/-- `read_certificate`: nothing for an APK that is too old. -/
def readCertificate (apk : Apk) (version : Int32) : List UInt8 :=
  if 0 ≤ version ∧ apk.versionCode < version then [] else apk.cert

/-- The files that a lookup may end with. -/
inductive TrackedPath where
  | nowhere
  | packagesXml
  | dyn (user : Int32) (pkg : String)
  | apk (path : String)
  deriving DecidableEq

/-- The build, the files of the device and the failures of the database during
a lookup. -/
structure LookupEnv where
  checkSignature : Bool
  magiskVerCode : Int32
  isEmulator : Bool
  queryFails : Bool
  removalFails : Bool
  findApkPath : String → Option String
  openApk : String → Option Apk
  openDyn : Int32 → String → Option (Apk × Option UInt32)
  packageUid : Int32 → String → Option UInt32
  ctime : TrackedPath → Option Nat

/-- `TrackedFile`. -/
structure TrackedFile where
  path : TrackedPath
  timestamp : Nat
  deriving DecidableEq

namespace TrackedFile

/-- `TrackedFile::new`. -/
def new (env : LookupEnv) (path : TrackedPath) : TrackedFile :=
  match env.ctime path with
  | some timestamp => { path, timestamp }
  | none => { path := .nowhere, timestamp := 0 }

/-- `is_same`. -/
def isSame (env : LookupEnv) (file : TrackedFile) : Bool :=
  if file.path = .nowhere then false
  else
    match env.ctime file.path with
    | some timestamp => timestamp = file.timestamp
    | none => false

end TrackedFile

/-! ## The lookup -/

/-- `Status`. -/
inductive ApkStatus where
  | installed
  | notInstalled
  | certMismatch
  deriving DecidableEq

/-- `ManagerInfo`, without the stub APK that it may install. -/
structure ManagerInfo where
  trustedCert : List UInt8 := []
  repackagedAppId : Int32 := -1
  repackagedPkg : String := ""
  repackagedCert : List UInt8 := []
  trackedFiles : Int32 → Option TrackedFile := fun _ => none

namespace ManagerInfo

/-- `tracked_files.insert`. -/
def track (info : ManagerInfo) (env : LookupEnv) (user : Int32) (path : TrackedPath) :
    ManagerInfo :=
  { info with trackedFiles := Function.update info.trackedFiles user (some (.new env path)) }

/-- `check_dyn`. -/
def checkDyn (info : ManagerInfo) (env : LookupEnv) (user : Int32) (pkg : String) :
    ApkStatus × ManagerInfo :=
  match env.openDyn user pkg with
  | none => (.notInstalled, info)
  | some (apk, owner) =>
    let uid : Int32 :=
      match owner with
      | some uid => uid.toInt32
      | none => -1
    let cert := readCertificate apk env.magiskVerCode
    if (cert = [] ∨ cert ≠ info.trustedCert) ∧ env.checkSignature = true then
      (.certMismatch, info)
    else
      (.installed, { info with repackagedAppId := toAppId uid }.track env user (.dyn user pkg))

/-- `check_stub`. -/
def checkStub (info : ManagerInfo) (env : LookupEnv) (user : Int32) (pkg : String) :
    ApkStatus × ManagerInfo :=
  match env.findApkPath pkg with
  | none => (.notInstalled, info)
  | some path =>
    match env.openApk path with
    | none => (.notInstalled, info)
    | some apk =>
      let cert := readCertificate apk (-1)
      if cert = [] ∨ (pkg = info.repackagedPkg ∧ cert ≠ info.repackagedCert) then
        (.certMismatch, info)
      else
        (.installed,
          { info with repackagedPkg := pkg, repackagedCert := cert }.track env user (.apk path))

/-- `check_orig`. -/
def checkOrig (info : ManagerInfo) (env : LookupEnv) (user : Int32) : ApkStatus × ManagerInfo :=
  match env.findApkPath appPackageName with
  | none => (.notInstalled, info)
  | some path =>
    match env.openApk path with
    | none => (.notInstalled, info)
    | some apk =>
      let cert := readCertificate apk env.magiskVerCode
      if (cert = [] ∨ cert ≠ info.trustedCert) ∧ env.checkSignature = true then
        (.certMismatch, info)
      else
        (.installed, info.track env user (.apk path))

end ManagerInfo

/-- `get_package_uid`. -/
def LookupEnv.getPackageUid (env : LookupEnv) (user : Int32) (pkg : String) : Int32 :=
  match env.packageUid user pkg with
  | some uid => uid.toInt32
  | none => -1

/-- What a lookup returns, the package in the database and the manager info that
it leaves, and whether it installs the stub. -/
structure Lookup where
  uid : Int32
  pkg : String
  db : String
  info : ManagerInfo
  installsStub : Bool := false

namespace ManagerInfo

/-- The uid of the repackaged app. -/
def repackagedUid (info : ManagerInfo) (user : Int32) : Int32 :=
  user * aidUserOffset + info.repackagedAppId

/-- The result for the repackaged app, if its dyn APK is there. -/
def dynLookup (info : ManagerInfo) (env : LookupEnv) (user : Int32) (pkg db : String) : Lookup :=
  match info.checkDyn env user pkg with
  | (.installed, next) =>
    { uid := next.repackagedUid user, pkg := next.repackagedPkg, db, info := next }
  | (_, next) => { uid := -1, pkg := "", db, info := next }

/-- The result for the original app. -/
def origLookup (info : ManagerInfo) (env : LookupEnv) (user : Int32) (db : String) : Lookup :=
  if env.getPackageUid user appPackageName < 0 then { uid := -1, pkg := "", db, info }
  else { uid := env.getPackageUid user appPackageName, pkg := appPackageName, db, info }

/-- The answer of `get_manager` while the tracked file is unchanged. -/
def sameLookup (info : ManagerInfo) (env : LookupEnv) (user : Int32) (install : Bool)
    (db : String) : TrackedPath → Lookup
  | .packagesXml =>
    { uid := -1, pkg := "", db, info, installsStub := install && !env.isEmulator }
  | .dyn _ _ => { uid := info.repackagedUid user, pkg := info.repackagedPkg, db, info }
  | _ =>
    if info.repackagedPkg ≠ "" then info.dynLookup env user info.repackagedPkg db
    else info.origLookup env user db

/-- `get_manager` once no repackaged app is left. -/
def lookupOrig (info : ManagerInfo) (env : LookupEnv) (user : Int32) (install : Bool)
    (db : String) : Lookup :=
  let cleared := { info with repackagedPkg := "", repackagedCert := [] }
  match cleared.checkOrig env user with
  | (.installed, next) => next.origLookup env user db
  | (status, next) =>
    { uid := -1
      pkg := ""
      db
      info := next.track env user .packagesXml
      installsStub := (install || status = .certMismatch) && !env.isEmulator }

/-- `get_manager` after the tracked file was found changed or missing. -/
def freshLookup (info : ManagerInfo) (env : LookupEnv) (user : Int32) (install : Bool)
    (dbPkg db : String) : Lookup :=
  if dbPkg ≠ "" then
    let removed := if env.removalFails then db else ""
    match info.checkStub env user dbPkg with
    | (.installed, next) => next.dynLookup env user dbPkg db
    | (.notInstalled, next) => next.lookupOrig env user install removed
    | (.certMismatch, next) => next.lookupOrig env user true removed
  else info.lookupOrig env user install db

/-- `get_manager`. -/
def getManager (info : ManagerInfo) (env : LookupEnv) (user : Int32) (install : Bool)
    (db : String) : Lookup :=
  let dbPkg := if env.queryFails then "" else db
  let info :=
    if dbPkg ≠ info.repackagedPkg then
      { info with trackedFiles := Function.update info.trackedFiles user none }
    else info
  match info.trackedFiles user with
  | some file =>
    if file.isSame env then info.sameLookup env user install db file.path
    else info.freshLookup env user install dbPkg db
  | none => info.freshLookup env user install dbPkg db

end ManagerInfo

/-! ## Runs -/

/-- The package in the database and what the daemon remembers. -/
structure ManagerState where
  db : String := ""
  info : ManagerInfo := {}

/-- A lookup, a change of the database, or the certificate of the stub APK being
read. -/
inductive ManagerEvent where
  | getManager (user : Int32) (install : Bool) (env : LookupEnv)
  | setDb (pkg : String)
  | preserveStubApk (cert : List UInt8)

/-- Lookups for any users, among arbitrary changes of the database and of the
device. -/
def managerSystem (db : String) : System ManagerState ManagerEvent where
  initial := { db }
  step state
    | .getManager user install env =>
      let result := state.info.getManager env user install state.db
      some { db := result.db, info := result.info }
    | .setDb pkg => some { state with db := pkg }
    | .preserveStubApk cert =>
      some { state with info := { state.info with trustedCert := cert } }

/-- A result with a uid names the package of the database, or the original one
if the database has none. -/
def Lookup.Identified (result : Lookup) : Prop :=
  0 ≤ result.uid →
    result.pkg ≠ "" ∧
      (result.pkg = result.db ∨ (result.pkg = appPackageName ∧ result.db = ""))

/-- Every lookup identifies its manager. -/
def Identifies (state : ManagerState) : ManagerEvent → Prop
  | .getManager user install env =>
    (state.info.getManager env user install state.db).Identified
  | _ => True

/-- The database answers the queries of a lookup. -/
def Reliable (_ : ManagerState) : ManagerEvent → Prop
  | .getManager _ _ env => env.queryFails = false ∧ env.removalFails = false
  | _ => True

/-- The user's tracked file is a dyn APK that is still there, but its package
has been forgotten on behalf of another user. -/
structure Orphaned (state : ManagerState) (user : Int32) (env : LookupEnv) : Prop where
  noPackage : state.db = ""
  forgotten : state.info.repackagedPkg = ""
  tracked : ∃ file owner pkg, state.info.trackedFiles user = some file ∧ file.isSame env = true ∧
    file.path = .dyn owner pkg
  hasUid : 0 ≤ state.info.repackagedUid user

/-- No lookup finds an orphaned dyn APK. -/
def NotOrphaned (state : ManagerState) : ManagerEvent → Prop
  | .getManager user _ env => ¬ Orphaned state user env
  | _ => True

namespace ManagerInfo

variable {info : ManagerInfo} {env : LookupEnv} {user : Int32} {install : Bool}

/-! ## The results of a lookup -/

theorem identified_of_negative {result : Lookup} (negative : result.uid = -1) :
    result.Identified := by
  intro nonnegative
  rw [negative] at nonnegative
  exact absurd nonnegative (by decide)

theorem repackagedPkg_checkDyn (info : ManagerInfo) (env : LookupEnv) (user : Int32)
    (pkg : String) : (info.checkDyn env user pkg).2.repackagedPkg = info.repackagedPkg := by
  rw [checkDyn]
  split
  · rfl
  · dsimp only
    split <;> rfl

theorem identified_dynLookup {pkg db : String} (present : db ≠ "")
    (repackaged : info.repackagedPkg = db) : (info.dynLookup env user pkg db).Identified := by
  have kept := info.repackagedPkg_checkDyn env user pkg
  rw [dynLookup]
  split
  · rename_i next installed
    rw [installed] at kept
    have named : next.repackagedPkg = db := kept.trans repackaged
    exact fun _ => ⟨ne_of_eq_of_ne named present, .inl named⟩
  · exact identified_of_negative rfl

theorem identified_origLookup (info : ManagerInfo) (env : LookupEnv) (user : Int32) :
    (info.origLookup env user "").Identified := by
  have named : appPackageName ≠ "" := by decide
  rw [origLookup]
  split
  · exact identified_of_negative rfl
  · exact fun _ => ⟨named, .inr ⟨rfl, rfl⟩⟩

theorem identified_lookupOrig (info : ManagerInfo) (env : LookupEnv) (user : Int32)
    (install : Bool) : (info.lookupOrig env user install "").Identified := by
  rw [lookupOrig]
  split
  · exact identified_origLookup _ env user
  · exact identified_of_negative rfl

theorem repackagedPkg_of_checkStub {pkg : String} {next : ManagerInfo}
    (installed : info.checkStub env user pkg = (.installed, next)) : next.repackagedPkg = pkg := by
  rw [checkStub] at installed
  split at installed
  · cases installed
  · split at installed
    · cases installed
    · dsimp only at installed
      split at installed
      · cases installed
      · cases installed
        rfl

/-- A lookup that starts anew, with a database that answers. -/
theorem identified_freshLookup (reliable : env.removalFails = false) (db : String) :
    (info.freshLookup env user install db db).Identified := by
  rw [freshLookup]
  split
  · rename_i present
    dsimp only
    rw [reliable]
    split
    · rename_i next installed
      exact identified_dynLookup present (repackagedPkg_of_checkStub installed)
    · exact identified_lookupOrig _ env user install
    · exact identified_lookupOrig _ env user true
  · rename_i absent
    rw [not_not.mp absent]
    exact identified_lookupOrig _ env user install

/-- A lookup that finds its file unchanged. -/
theorem identified_sameLookup_iff {db : String} (current : db = info.repackagedPkg)
    {path : TrackedPath} :
    (info.sameLookup env user install db path).Identified ↔
      ¬ (db = "" ∧ (∃ owner pkg, path = .dyn owner pkg) ∧ 0 ≤ info.repackagedUid user) := by
  rw [sameLookup.eq_def]
  split
  · refine iff_of_true (identified_of_negative rfl) ?_
    rintro ⟨_, ⟨owner, pkg, same⟩, _⟩
    cases same
  · rename_i owner pkg
    constructor
    · rintro identified ⟨empty, _, hasUid⟩
      exact (identified hasUid).1 (current.symm.trans empty)
    · intro valid hasUid
      refine ⟨fun empty => ?_, .inl current.symm⟩
      exact valid ⟨current.trans empty, ⟨owner, pkg, rfl⟩, hasUid⟩
  · rename_i notDyn
    refine iff_of_true ?_ ?_
    · split
      · rename_i present
        exact identified_dynLookup (ne_of_eq_of_ne current present) current.symm
      · rename_i absent
        rw [current, not_not.mp absent]
        exact identified_origLookup info env user
    · rintro ⟨_, ⟨owner, pkg, same⟩, _⟩
      exact notDyn owner pkg same

end ManagerInfo

/-- With a database that answers, a lookup identifies its manager exactly if its
tracked file is not orphaned. -/
theorem identifies_iff {state : ManagerState} {event : ManagerEvent}
    (reliable : Reliable state event) : Identifies state event ↔ NotOrphaned state event := by
  cases event with
  | setDb pkg => exact Iff.rfl
  | preserveStubApk cert => exact Iff.rfl
  | getManager user install env =>
    rcases reliable with ⟨answers, removes⟩
    have reads : (if env.queryFails = true then "" else state.db) = state.db := by
      rw [answers]
      rfl
    change (ManagerInfo.getManager _ _ _ _ _).Identified ↔ ¬ Orphaned state user env
    rw [ManagerInfo.getManager, reads]
    by_cases current : state.db = state.info.repackagedPkg
    · rw [if_neg (not_not_intro current)]
      cases tracked : state.info.trackedFiles user with
      | none =>
        refine iff_of_true (ManagerInfo.identified_freshLookup removes state.db) ?_
        rintro ⟨_, _, ⟨file, owner, pkg, isTracked, _⟩, _⟩
        cases tracked.symm.trans isTracked
      | some file =>
        dsimp only
        by_cases same : file.isSame env = true
        · rw [if_pos same, ManagerInfo.identified_sameLookup_iff current, not_iff_not]
          constructor
          · rintro ⟨empty, ⟨owner, pkg, path⟩, hasUid⟩
            exact ⟨empty, current.symm.trans empty, ⟨file, owner, pkg, tracked, same, path⟩, hasUid⟩
          · rintro ⟨empty, _, ⟨other, owner, pkg, isTracked, _, path⟩, hasUid⟩
            cases tracked.symm.trans isTracked
            exact ⟨empty, ⟨owner, pkg, path⟩, hasUid⟩
        · rw [if_neg same]
          refine iff_of_true (ManagerInfo.identified_freshLookup removes state.db) ?_
          rintro ⟨_, _, ⟨other, owner, pkg, isTracked, isSame, _⟩, _⟩
          cases tracked.symm.trans isTracked
          exact same isSame
    · rw [if_pos current]
      have dropped : ({ state.info with
          trackedFiles := Function.update state.info.trackedFiles user none } :
            ManagerInfo).trackedFiles user = none :=
        Function.update_self ..
      rw [dropped]
      refine iff_of_true (ManagerInfo.identified_freshLookup removes state.db) ?_
      rintro ⟨empty, forgotten, _, _⟩
      exact current (empty.trans forgotten.symm)

/-- In a run with a database that answers, every lookup identifies its manager
exactly if no lookup finds an orphaned dyn APK. -/
theorem identifies_iff_notOrphaned (db : String) (execution : Execution (managerSystem db))
    (reliable : execution.Meets Reliable) :
    execution.Meets Identifies ↔ execution.Meets NotOrphaned := by
  constructor
  · intro identifies time event taken
    exact (identifies_iff (reliable time event taken)).mp (identifies time event taken)
  · intro valid time event taken
    exact (identifies_iff (reliable time event taken)).mpr (valid time event taken)

/-! ## Two users -/

/-- A device on which the repackaged app and its dyn APK are installed for all
users. -/
def repackagedDevice : LookupEnv where
  checkSignature := true
  magiskVerCode := 30000
  isEmulator := false
  queryFails := false
  removalFails := false
  findApkPath pkg := some pkg
  openApk _ := some { cert := [1], versionCode := 30000 }
  openDyn _ _ := some ({ cert := [1], versionCode := 30000 }, some 10123)
  packageUid _ _ := some 10123
  ctime _ := some 1

/-- The manager of user 10 is found repackaged; the package is then removed from
the database, the manager of user 0 is looked for, and that of user 10 again. -/
def forgottenByOther : List ManagerEvent :=
  [.preserveStubApk [1], .setDb "org.hidden", .getManager 10 false repackagedDevice, .setDb "",
    .getManager 0 false repackagedDevice, .getManager 10 false repackagedDevice]

def forgottenExecution : Execution (managerSystem "") :=
  Execution.ofLabels (managerSystem "") forgottenByOther rfl

/-- The last lookup has a uid and no package. -/
theorem not_identifies_forgottenByOther :
    ¬ ∀ execution : Execution (managerSystem ""), execution.Meets Identifies := by
  intro always
  have identified := always forgottenExecution 5 _ rfl
  have hasUid : 0 ≤ ((forgottenExecution.state 5).info.getManager repackagedDevice 10 false
      (forgottenExecution.state 5).db).uid := by
    decide +kernel
  apply (identified hasUid).1
  decide +kernel

def foundExecution : Execution (managerSystem "org.hidden") :=
  Execution.ofLabels (managerSystem "org.hidden")
    [.preserveStubApk [1], .getManager 10 false repackagedDevice,
      .getManager 10 false repackagedDevice] rfl

theorem identifies_iff_notOrphaned_found : foundExecution.Meets Reliable ∧
      (foundExecution.Meets Identifies ↔ foundExecution.Meets NotOrphaned) := by
  have reliable : foundExecution.Meets Reliable := by
    apply Execution.meets_ofLabels
    intro time
    match time with
    | ⟨0, _⟩ => trivial
    | ⟨1, _⟩ => exact ⟨rfl, rfl⟩
    | ⟨2, _⟩ => exact ⟨rfl, rfl⟩
  exact ⟨reliable, identifies_iff_notOrphaned "org.hidden" foundExecution reliable⟩

end Magisk.Core
