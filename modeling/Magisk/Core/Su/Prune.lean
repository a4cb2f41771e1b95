import Magisk.Bytes.Core
import Magisk.Core.Su.Daemon
import Magisk.Scan.Core

/-!
# Pruning the policies table

`prune_su_access` deletes the rows of apps that have no package directory any more.
It learns which apps have one from `get_app_no_list`, which walks over the package
directories of all users, and which on the first error returns what it has found so
far.
-/

namespace Magisk.Core

open List Bytes Scan

/-- `AID_APP_START`. -/
def aidAppStart : Int32 :=
  10000

/-- `AID_APP_END`. -/
def aidAppEnd : Int32 :=
  19999

/-- The app id is that of an app. -/
def isAppId (appId : Int32) : Bool :=
  aidAppStart ≤ appId && appId ≤ aidAppEnd

/-- The number of an app, by which it is entered in the bit set. -/
def appNo (appId : Int32) : Nat :=
  (appId - aidAppStart).toNatClampNeg

/-! ## Directories -/

/-- A directory: the entries `read` returns, and those it does not get to if it
fails at some point. -/
structure Listing (α : Type) where
  read : List α
  lost : Option (List α) := none

/-- Everything in a directory. -/
def Listing.all {α : Type} (listing : Listing α) : List α :=
  listing.read ++ listing.lost.getD []

/-- An entry of a user directory. -/
structure PackageEntry where
  name : List UInt8
  isDir : Bool
  /-- The owner. -/
  uid : UInt32
  /-- `resolve_path` succeeds. -/
  resolves : Bool
  /-- `get_attr` succeeds. -/
  hasAttr : Bool

/-- An entry of the app data directory. -/
structure UserEntry where
  name : List UInt8
  /-- `open_as_dir` succeeds. -/
  opens : Bool
  packages : Listing PackageEntry

/-- The app data directory. -/
structure AppData where
  /-- `Directory::open` succeeds. -/
  opens : Bool
  users : Listing UserEntry

/-- `Directory::read` skips entries whose names are not UTF-8. -/
def readable (name : List UInt8) : Bool :=
  (fromUtf8 name).isSome

/-- The app id of the owner. -/
def PackageEntry.appId (package : PackageEntry) : Int32 :=
  toAppId package.uid.toInt32

/-- Reading the attributes of the entry ends the scan. -/
def PackageEntry.fails (package : PackageEntry) : Bool :=
  readable package.name && !(package.resolves && package.hasAttr)

/-- One turn of the inner loop. -/
def visitPackage (list : List Nat) (package : PackageEntry) : List Nat × Bool :=
  if readable package.name then
    if package.resolves && package.hasAttr then
      (if isAppId package.appId then appNo package.appId :: list else list, true)
    else
      (list, false)
  else
    (list, true)

/-- One turn of the outer loop. -/
def visitUser (list : List Nat) (user : UserEntry) : List Nat × Bool :=
  if readable user.name && user.opens then
    match walk visitPackage list user.packages.read with
    | (list, true) => (list, user.packages.lost.isNone)
    | (list, false) => (list, false)
  else
    (list, true)

/-- `get_app_no_list`. -/
def getAppNoList (data : AppData) : List Nat :=
  if data.opens then (walk visitUser [] data.users.read).1 else []

/-! ## The table -/

/-- The policies table, and which statements on it fail. -/
structure PoliciesDb where
  rows : List PolicyRow
  /-- `SELECT uid` succeeds. -/
  selects : Bool
  /-- `DELETE` of a uid succeeds. -/
  deletes : Int32 → Bool

/-- The uids that are to be deleted. -/
def rmUids (uids : List Int32) (appList : List Nat) : List Int32 :=
  uids.filter fun uid => isAppId (toAppId uid) && !appList.contains (appNo (toAppId uid))

/-- `DELETE FROM policies WHERE uid=?`. -/
def PoliciesDb.delete (db : PoliciesDb) (rows : List PolicyRow) (uid : Int32) : List PolicyRow :=
  if db.deletes uid then rows.filter fun row => row.uid ≠ uid else rows

/-- `prune_su_access`: the rows that are left. -/
def pruneSuAccess (db : PoliciesDb) (data : AppData) : List PolicyRow :=
  if db.selects then
    (rmUids (db.rows.map PolicyRow.uid) (getAppNoList data)).foldl db.delete db.rows
  else
    db.rows

/-! ## What the scan sees -/

/-- All entries of all user directories. -/
def AppData.packages (data : AppData) : List PackageEntry :=
  data.users.all.flatMap fun user => user.packages.all

/-- Something in the directory of a user ends the scan. -/
def UserEntry.fails (user : UserEntry) : Bool :=
  readable user.name && user.opens &&
    (user.packages.lost.isSome || user.packages.read.any PackageEntry.fails)

/-- The scan gets to an entry: nothing before it failed, and it does not fail
itself. -/
def Seen (data : AppData) (package : PackageEntry) : Prop :=
  data.opens = true ∧ ∃ user ∈ visited UserEntry.fails data.users.read,
    readable user.name = true ∧ user.opens = true ∧
      package ∈ visited PackageEntry.fails user.packages.read ∧
      readable package.name = true ∧ package.resolves = true ∧ package.hasAttr = true

section Scan

variable {data : AppData}

theorem visitPackage_goesOn (list : List Nat) (package : PackageEntry) :
    (visitPackage list package).2 = !package.fails := by
  unfold visitPackage PackageEntry.fails
  cases readable package.name <;> cases package.resolves <;> cases package.hasAttr <;> rfl

theorem visitUser_goesOn (list : List Nat) (user : UserEntry) :
    (visitUser list user).2 = !user.fails := by
  unfold visitUser UserEntry.fails
  rw [walk_eq visitPackage_goesOn]
  cases readable user.name && user.opens with
  | false => rfl
  | true =>
    cases user.packages.read.any PackageEntry.fails <;> cases user.packages.lost <;> rfl

/-- A number that an entry of a user directory enters. -/
def PackageEntry.enters (package : PackageEntry) (n : Nat) : Prop :=
  readable package.name = true ∧ package.resolves = true ∧ package.hasAttr = true ∧
    isAppId package.appId = true ∧ appNo package.appId = n

theorem mem_visitPackage_iff (list : List Nat) (package : PackageEntry) (n : Nat) :
    n ∈ (visitPackage list package).1 ↔ n ∈ list ∨ package.enters n := by
  unfold visitPackage PackageEntry.enters
  cases readable package.name <;> cases package.resolves <;> cases package.hasAttr <;>
    cases isAppId package.appId <;> simp [eq_comm, or_comm]

/-- A fold whose steps add elements that depend on the item alone. -/
theorem mem_foldl_iff {α : Type} {step : List Nat → α → List Nat} {adds : α → Nat → Prop}
    (spec : ∀ list item n, n ∈ step list item ↔ n ∈ list ∨ adds item n) (items : List α)
    (list : List Nat) (n : Nat) :
    n ∈ items.foldl step list ↔ n ∈ list ∨ ∃ item ∈ items, adds item n := by
  induction items generalizing list with
  | nil => simp
  | cons item rest ih =>
    rw [foldl_cons, ih, spec, or_assoc]
    simp

/-- A number that the directory of a user enters. -/
def UserEntry.enters (user : UserEntry) (n : Nat) : Prop :=
  readable user.name = true ∧ user.opens = true ∧
    ∃ package ∈ visited PackageEntry.fails user.packages.read, package.enters n

theorem mem_visitUser_iff (list : List Nat) (user : UserEntry) (n : Nat) :
    n ∈ (visitUser list user).1 ↔ n ∈ list ∨ user.enters n := by
  have entered := mem_foldl_iff mem_visitPackage_iff
    (visited PackageEntry.fails user.packages.read) list n
  unfold visitUser UserEntry.enters
  rw [walk_eq visitPackage_goesOn]
  cases readableName : readable user.name <;> cases opens : user.opens
  · simp
  · simp
  · simp
  · cases user.packages.read.any PackageEntry.fails <;> simpa using entered

/-- The list has the numbers of the apps whose directories were seen. -/
theorem mem_getAppNoList_iff (n : Nat) : n ∈ getAppNoList data ↔
      ∃ package, Seen data package ∧ isAppId package.appId = true ∧ appNo package.appId = n := by
  unfold getAppNoList Seen
  cases opens : data.opens with
  | false => simp
  | true =>
    rw [if_pos rfl, walk_eq visitUser_goesOn, mem_foldl_iff mem_visitUser_iff]
    simp only [not_mem_nil, false_or]
    constructor
    · rintro ⟨user, userMem, named, opened, package, mem, readableName, resolved, attr, isApp, rfl⟩
      exact ⟨package, ⟨trivial, user, userMem, named, opened, mem, readableName, resolved, attr⟩,
        isApp, rfl⟩
    · rintro ⟨package, ⟨_, user, userMem, named, opened, mem, readableName, resolved, attr⟩,
        isApp, rfl⟩
      exact ⟨user, userMem, named, opened, package, mem, readableName, resolved, attr, isApp, rfl⟩

end Scan

/-! ## What is deleted -/

section Delete

variable {db : PoliciesDb} {data : AppData}

theorem mem_delete_iff (rows : List PolicyRow) (uid : Int32) (row : PolicyRow) :
    row ∈ db.delete rows uid ↔ row ∈ rows ∧ ¬ (row.uid = uid ∧ db.deletes uid = true) := by
  unfold PoliciesDb.delete
  split
  · rename_i works
    simp [works]
  · rename_i refused
    simp [refused]

theorem mem_foldl_delete_iff (uids : List Int32) (rows : List PolicyRow) (row : PolicyRow) :
    row ∈ uids.foldl db.delete rows ↔
      row ∈ rows ∧ ¬ (row.uid ∈ uids ∧ db.deletes row.uid = true) := by
  induction uids generalizing rows with
  | nil => simp
  | cons uid rest ih =>
    rw [foldl_cons, ih, mem_delete_iff, mem_cons, and_assoc, ← not_or, or_and_right]
    have same : row.uid = uid ∧ db.deletes uid = true ↔
        row.uid = uid ∧ db.deletes row.uid = true := by
      constructor
      · rintro ⟨rfl, works⟩
        exact ⟨rfl, works⟩
      · rintro ⟨rfl, works⟩
        exact ⟨rfl, works⟩
    rw [same]

/-- The numbers of apps are different. -/
theorem appNo_injective {first second : Int32} (isFirst : isAppId first = true)
    (isSecond : isAppId second = true) (same : appNo first = appNo second) : first = second := by
  have value : ∀ {appId : Int32}, isAppId appId = true →
      (appNo appId : Int) = appId.toInt - 10000 := by
    intro appId isApp
    simp only [isAppId, Bool.and_eq_true, decide_eq_true_eq, Int32.le_iff_toInt_le] at isApp
    change 10000 ≤ appId.toInt ∧ appId.toInt ≤ 19999 at isApp
    have difference : (appId - aidAppStart).toInt = appId.toInt - 10000 := by
      rw [Int32.toInt_sub]
      change (appId.toInt - 10000).bmod (2 ^ 32) = _
      rw [Int.bmod_eq_of_le] <;> omega
    rw [appNo, Int32.toNatClampNeg]
    omega
  have sameInt := congrArg (Nat.cast : Nat → Int) same
  rw [value isFirst, value isSecond] at sameInt
  apply Int32.toInt_inj.mp
  omega

/-- A row is deleted exactly if both statements work and its app was not seen. -/
theorem notMem_pruneSuAccess_iff {row : PolicyRow} (mem : row ∈ db.rows) :
    row ∉ pruneSuAccess db data ↔
      db.selects = true ∧ db.deletes row.uid = true ∧ isAppId (toAppId row.uid) = true ∧
        ¬ ∃ package, Seen data package ∧ package.appId = toAppId row.uid := by
  unfold pruneSuAccess
  split
  · rename_i selects
    have listed : row.uid ∈ db.rows.map PolicyRow.uid := mem_map_of_mem mem
    have absent : isAppId (toAppId row.uid) = true → (appNo (toAppId row.uid) ∉ getAppNoList data ↔
          ¬ ∃ package, Seen data package ∧ package.appId = toAppId row.uid) := by
      intro isApp
      rw [mem_getAppNoList_iff, not_iff_not]
      constructor
      · rintro ⟨package, seen, isPackage, same⟩
        exact ⟨package, seen, appNo_injective isPackage isApp same⟩
      · rintro ⟨package, seen, same⟩
        exact ⟨package, seen, same ▸ isApp, congrArg appNo same⟩
    rw [mem_foldl_delete_iff, and_iff_right mem, not_not, rmUids, mem_filter,
      and_iff_right listed, Bool.and_eq_true, Bool.not_eq_true', and_iff_right selects,
      ← Bool.not_eq_true, contains_iff_mem]
    constructor
    · rintro ⟨⟨isApp, unseen⟩, works⟩
      exact ⟨works, isApp, (absent isApp).mp unseen⟩
    · rintro ⟨works, isApp, unseen⟩
      exact ⟨⟨isApp, (absent isApp).mpr unseen⟩, works⟩
  · rename_i fails
    exact iff_of_false (not_not.mpr mem) fun works => fails works.1

/-- Only rows without a package directory are deleted. -/
def Spared (db : PoliciesDb) (data : AppData) : Prop :=
  ∀ row ∈ db.rows, row ∉ pruneSuAccess db data →
    ∀ package ∈ data.packages, package.isDir = true → package.appId ≠ toAppId row.uid

/-- Only rows without a package directory are deleted exactly if nothing is, or if
every app with a row and a package directory has an entry that is seen before the
scan fails. -/
theorem spared_iff (db : PoliciesDb) (data : AppData) : Spared db data ↔
      db.selects = true → ∀ row ∈ db.rows, db.deletes row.uid = true →
        isAppId (toAppId row.uid) = true →
          (∃ package ∈ data.packages, package.isDir = true ∧ package.appId = toAppId row.uid) →
            ∃ package, Seen data package ∧ package.appId = toAppId row.uid := by
  constructor
  · rintro spared selects row mem works isApp ⟨package, there, isDir, same⟩
    by_contra unseen
    have deleted := (notMem_pruneSuAccess_iff mem).mpr ⟨selects, works, isApp, unseen⟩
    exact spared row mem deleted package there isDir same
  · intro seen row mem deleted package there isDir same
    rcases (notMem_pruneSuAccess_iff mem).mp deleted with ⟨selects, works, isApp, unseen⟩
    exact unseen (seen selects row mem works isApp ⟨package, there, isDir, same⟩)

/-- One user with two apps; the attributes of the first one cannot be read. -/
def vanishingApp : AppData :=
  { opens := true
    users := ⟨[⟨[0x30], true, ⟨[⟨[0x61], true, 10100, true, false⟩, ⟨[0x62], true, 10123, true, true⟩],
      none⟩⟩], none⟩ }

/-- A table with a row of the second app. -/
def onePolicy : PoliciesDb :=
  { rows := [⟨10123, 2, 0, 1, 1⟩], selects := true, deletes := fun _ => true }

/-- The row of an installed app is deleted because another app vanishes during the
scan. -/
theorem not_spared_vanishingApp :
    pruneSuAccess onePolicy vanishingApp = [] ∧ ¬ Spared onePolicy vanishingApp := by
  have pruned : pruneSuAccess onePolicy vanishingApp = [] := by
    decide +kernel
  refine ⟨pruned, fun spared => ?_⟩
  have deleted : (⟨10123, 2, 0, 1, 1⟩ : PolicyRow) ∉ pruneSuAccess onePolicy vanishingApp := by
    exact not_mem_nil
  exact spared ⟨10123, 2, 0, 1, 1⟩ mem_cons_self deleted ⟨[0x62], true, 10123, true, true⟩
    (by simp [AppData.packages, Listing.all, vanishingApp]) rfl (by decide)

end Delete

end Magisk.Core
