import Mathlib

/-!
# Superuser requests

One pass of the daemon's `su` handler.  What the handler reads from outside is
gathered in `Env`: the two database tables, the manager lookup, the clock, the
bytes on the request FIFO and the outcome of `fork`.  What it keeps between
requests is the last `SuInfo`.

Rust's `SuPolicy` is shared with other languages, so it is a 32-bit number with
four named values and not a closed enumeration.
-/

namespace Magisk.Core

/-! ## User ids -/

/-- `AID_ROOT`. -/
def aidRoot : Int32 :=
  0

/-- `AID_SHELL`. -/
def aidShell : Int32 :=
  2000

/-- `AID_USER_OFFSET`. -/
def aidUserOffset : Int32 :=
  100000

/-- `to_app_id`, with Rust's truncating remainder. -/
def toAppId (uid : Int32) : Int32 :=
  uid % aidUserOffset

/-- `to_user_id`, with Rust's truncating division. -/
def toUserId (uid : Int32) : Int32 :=
  uid / aidUserOffset

/-! ## Settings -/

/-- A policy value, named or not. -/
structure SuPolicy where
  repr : Int32
  deriving DecidableEq, Repr

namespace SuPolicy

/-- Ask the manager. -/
def query : SuPolicy :=
  ⟨0⟩

/-- Reject. -/
def deny : SuPolicy :=
  ⟨1⟩

/-- Grant. -/
def allow : SuPolicy :=
  ⟨2⟩

/-- Grant with dropped capabilities. -/
def restrict : SuPolicy :=
  ⟨3⟩

end SuPolicy

/-- Who may use root at all. -/
inductive RootAccess where
  | disabled
  | appsOnly
  | adbOnly
  | appsAndAdb
  deriving DecidableEq, Repr

/-- `RootAccess::from_i32`, defaulting to `AppsAndAdb`. -/
def RootAccess.fromI32 (value : Int32) : RootAccess :=
  if value = 0 then .disabled
  else if value = 1 then .appsOnly
  else if value = 2 then .adbOnly
  else .appsAndAdb

/-- How secondary users are treated. -/
inductive MultiuserMode where
  | ownerOnly
  | ownerManaged
  | user
  deriving DecidableEq, Repr

/-- `MultiuserMode::from_i32`, defaulting to `OwnerOnly`. -/
def MultiuserMode.fromI32 (value : Int32) : MultiuserMode :=
  if value = 1 then .ownerManaged
  else if value = 2 then .user
  else .ownerOnly

/-- The mount namespace mode of a root shell, an open enumeration as well. -/
structure MntNsMode where
  repr : Int32
  deriving DecidableEq, Repr

/-- The settings a `su` request looks at. -/
structure DbSettings where
  rootAccess : RootAccess := .appsAndAdb
  multiuserMode : MultiuserMode := .ownerOnly
  mntNs : MntNsMode := ⟨1⟩
  deriving DecidableEq, Repr

/-- `DbSettings::on_row`. -/
def DbSettings.onRow (cfg : DbSettings) (row : String × Int32) : DbSettings :=
  match row with
  | ("root_access", value) => { cfg with rootAccess := .fromI32 value }
  | ("multiuser_mode", value) => { cfg with multiuserMode := .fromI32 value }
  | ("mnt_ns", value) => { cfg with mntNs := ⟨value⟩ }
  | _ => cfg

/-- What the policies table says about one user. -/
structure RootSettings where
  policy : SuPolicy := .query
  log : Bool := false
  notify : Bool := false
  deriving DecidableEq, Repr

/-- A row of the policies table; `expiry` is its `until` column. -/
structure PolicyRow where
  uid : Int32
  policy : Int32
  expiry : Int
  logging : Int32
  notification : Int32
  deriving DecidableEq, Repr

/-- `RootSettings::on_row` on the three selected columns. -/
def RootSettings.onRow (_ : RootSettings) (row : PolicyRow) : RootSettings :=
  { policy := ⟨row.policy⟩
    log := row.logging ≠ 0
    notify := row.notification ≠ 0 }

/-! ## The world around a request -/

/-- What opening and reading the request FIFO gives. -/
inductive Fifo where
  /-- Creating, opening or polling it failed. -/
  | unavailable
  /-- Reading it failed. -/
  | broken
  /-- The bytes the manager writes; the reader waits until there are four. -/
  | written (bytes : List UInt8)
  deriving DecidableEq, Repr

/-- The surroundings of one request. -/
structure Env where
  /-- The build feature `su-check-db`. -/
  checkDb : Bool
  /-- The settings table, unless the query fails. -/
  settings : Option (List (String × Int32))
  /-- The policies table, unless the query fails. -/
  policies : Option (List PolicyRow)
  /-- Seconds since the epoch, as the database sees them. -/
  clock : Int
  /-- `get_manager`: uid and package of the manager of a user. -/
  manager : Int32 → Int32 × String
  /-- Milliseconds of the monotonic clock when the request is looked up. -/
  now : Nat
  /-- Milliseconds of the monotonic clock when the decision is made. -/
  later : Nat
  fifo : Fifo
  /-- Whether `fork` succeeds. -/
  forks : Bool

namespace Env

/-- `get_db_settings`. -/
def getDbSettings (env : Env) : Option DbSettings :=
  env.settings.map fun rows => rows.foldl DbSettings.onRow {}

/-- `get_root_settings`. -/
def getRootSettings (env : Env) (uid : Int32) : Option RootSettings :=
  env.policies.map fun rows =>
    (rows.filter fun row => row.uid = uid ∧ (row.expiry = 0 ∨ row.expiry > env.clock)).foldl
      RootSettings.onRow {}

end Env

/-! ## Looking up the requester -/

/-- Settings with the time they were last used. -/
structure AccessInfo where
  settings : RootSettings
  timestamp : Nat
  deriving DecidableEq, Repr

/-- `is_fresh`: used less than three seconds ago. -/
def AccessInfo.isFresh (access : AccessInfo) (now : Nat) : Bool :=
  now - access.timestamp < 3000

/-- What is known about a requester. -/
structure SuInfo where
  uid : Int32
  evalUid : Int32 := -1
  mgrPkg : String := ""
  mgrUid : Int32 := -1
  cfg : DbSettings := {}
  access : AccessInfo
  deriving DecidableEq, Repr

/-- `SuInfo::allow`. -/
def SuInfo.allow (uid : Int32) (now : Nat) : SuInfo :=
  { uid := uid, access := ⟨{ policy := .allow }, now⟩ }

/-- `SuInfo::deny`. -/
def SuInfo.deny (uid : Int32) (now : Nat) : SuInfo :=
  { uid := uid, access := ⟨{ policy := .deny }, now⟩ }

/-- The uid whose settings apply; none if the user may not use root. -/
def evalUid (mode : MultiuserMode) (uid : Int32) : Option Int32 :=
  match mode with
  | .ownerOnly => if toUserId uid ≠ 0 then none else some uid
  | .ownerManaged => some (toAppId uid)
  | .user => some uid

/-- Whether the root access setting shuts the requester out. -/
def RootAccess.rejects (access : RootAccess) (uid : Int32) : Bool :=
  match access with
  | .disabled => true
  | .adbOnly => uid ≠ aidShell
  | .appsOnly => uid = aidShell
  | .appsAndAdb => false

/-- The manager, looked up only if it will be talked to. -/
def lookupManager (env : Env) (access : RootSettings) (evalUid : Int32) : Int32 × String :=
  if access.policy = .query ∨ access.log ∨ access.notify then env.manager (toUserId evalUid)
  else (-1, "")

/-- The requester's own settings, after the checks that override them. -/
def settleSuInfo (env : Env) (uid : Int32) (cfg : DbSettings) (evalUid : Int32)
    (access : RootSettings) : SuInfo :=
  let (mgrUid, mgrPkg) := lookupManager env access evalUid
  if toAppId uid = toAppId mgrUid then
    .allow uid env.now
  else if cfg.rootAccess.rejects uid then
    .deny uid env.now
  else if access.policy = .query ∧ mgrUid < 0 then
    .deny uid env.now
  else
    { uid, evalUid, mgrPkg, mgrUid, cfg, access := ⟨access, env.now⟩ }

/-- `build_su_info`; a failing query denies. -/
def buildSuInfo (env : Env) (uid : Int32) : SuInfo :=
  if env.checkDb then
    match env.getDbSettings with
    | none => .deny uid env.now
    | some cfg =>
      match evalUid cfg.multiuserMode uid with
      | none => .deny uid env.now
      | some evalUid =>
        match env.getRootSettings evalUid with
        | none => .deny uid env.now
        | some access => settleSuInfo env uid cfg evalUid access
  else
    .allow uid env.now

/-- The daemon's memory of the last requester. -/
structure MagiskD where
  cachedSuInfo : SuInfo
  deriving DecidableEq, Repr

/-- The remembered info is about `uid` and still fresh. -/
def MagiskD.remembers (daemon : MagiskD) (env : Env) (uid : Int32) : Bool :=
  daemon.cachedSuInfo.uid = uid && daemon.cachedSuInfo.access.isFresh env.now

/-- `get_su_info`, with the memory it leaves; the returned info is the
remembered one unless the requester is root. -/
def MagiskD.getSuInfo (daemon : MagiskD) (env : Env) (uid : Int32) : SuInfo × MagiskD :=
  if uid = aidRoot then
    (.allow aidRoot env.now, daemon)
  else if daemon.remembers env uid then
    (daemon.cachedSuInfo, daemon)
  else
    (buildSuInfo env uid, ⟨buildSuInfo env uid⟩)

/-! ## Deciding -/

/-- Four bytes as a big-endian 32-bit number. -/
def beInt32 (a b c d : UInt8) : Int32 :=
  (a.toUInt32 <<< 24 ||| b.toUInt32 <<< 16 ||| c.toUInt32 <<< 8 ||| d.toUInt32).toInt32

/-- `app_request`: the manager's answer, or `none` if it never comes. -/
def appRequest (env : Env) : Option SuPolicy :=
  match env.fifo with
  | .unavailable => some .deny
  | .broken => some .deny
  | .written (a :: b :: c :: d :: _) => some ⟨beInt32 a b c d⟩
  | .written _ => none

/-- The part of `connect_app` that decides; logging happens in another
process. -/
def connectApp (env : Env) (settings : RootSettings) : Option RootSettings :=
  if settings.policy = .query then
    (appRequest env).map fun policy => { settings with policy }
  else
    some settings

/-- A request as the client sent it. -/
structure SuRequest where
  targetUid : Int32
  targetPid : Int32
  login : Bool
  keepEnv : Bool
  dropCap : Bool
  shell : String
  command : String
  context : String
  gids : List UInt32
  deriving DecidableEq, Repr

/-- The peer of the connection. -/
structure UCred where
  uid : UInt32
  pid : Option Int32
  deriving DecidableEq, Repr

/-- How handling a request ends. -/
inductive Outcome where
  /-- The request could not be read; the client is told `Deny`. -/
  | unreadable
  /-- The manager never answers. -/
  | waiting
  /-- The client is told `Deny`. -/
  | rejected
  | forkFailed
  /-- The child process calls `exec_root_shell`. -/
  | execRootShell (pid : Int32) (req : SuRequest) (mode : MntNsMode)
  deriving DecidableEq, Repr

/-- Remember the decision about `info`, which is shared with the cache unless
the requester is root. -/
def MagiskD.remember (daemon : MagiskD) (uid : Int32) (info : SuInfo) : MagiskD :=
  if uid = aidRoot then daemon else ⟨info⟩

/-- `su_daemon_handler` on a request that was read, or not. -/
def MagiskD.suDaemonHandler (daemon : MagiskD) (env : Env) (cred : UCred)
    (request : Option SuRequest) : Outcome × MagiskD :=
  match request with
  | none => (.unreadable, daemon)
  | some req =>
    let uid := cred.uid.toInt32
    let (info, daemon) := daemon.getSuInfo env uid
    match connectApp env info.access.settings with
    | none => (.waiting, daemon)
    | some settings =>
      let daemon := daemon.remember uid { info with access := ⟨settings, env.later⟩ }
      let req := if settings.policy = .restrict then { req with dropCap := true } else req
      if settings.policy = .deny then
        (.rejected, daemon)
      else if env.forks then
        (.execRootShell (cred.pid.getD (-1)) req info.cfg.mntNs, daemon)
      else
        (.forkFailed, daemon)

end Magisk.Core
