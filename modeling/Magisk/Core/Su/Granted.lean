import Magisk.Core.Su.Decision

/-!
# Who counts as granted

`uid_granted_root` answers, without asking anybody, whether a uid has root.  It is
written apart from `build_su_info` and applies the root access mode before the
multiuser mode.  On one state of the database the two agree about every uid that is
neither root nor the manager.
-/

namespace Magisk.Core

/-- The last selected row of a uid, if there is one, says `Allow`; a failing query
is ignored. -/
def Env.allowedByTable (env : Env) (uid : Int32) : Bool :=
  match env.policies with
  | none => false
  | some rows =>
    (rows.filter fun row => row.uid = uid ∧ (row.expiry = 0 ∨ row.expiry > env.clock)).foldl
      (fun _ row => row.policy = SuPolicy.allow.repr) false

/-- The multiuser check of `uid_granted_root` and the query behind it. -/
def Env.grantedAsUser (env : Env) (cfg : DbSettings) (uid : Int32) : Bool :=
  match cfg.multiuserMode with
  | .ownerOnly => if toUserId uid ≠ 0 then false else env.allowedByTable uid
  | .ownerManaged => env.allowedByTable (toAppId uid)
  | .user => env.allowedByTable uid

/-- `uid_granted_root`. -/
def Env.uidGrantedRoot (env : Env) (uid : Int32) : Bool :=
  if uid = aidRoot then
    true
  else
    match env.getDbSettings with
    | none => false
    | some cfg =>
      match cfg.rootAccess with
      | .disabled => false
      | .appsOnly => if uid = aidShell then false else env.grantedAsUser cfg uid
      | .adbOnly => if uid ≠ aidShell then false else env.grantedAsUser cfg uid
      | .appsAndAdb => env.grantedAsUser cfg uid

/-- The app id is that of the manager installed for the user whose settings
apply. -/
def Env.IsManager (env : Env) (uid : Int32) : Prop :=
  ∃ cfg evaluated, env.getDbSettings = some cfg ∧ evalUid cfg.multiuserMode uid = some evaluated ∧
    toAppId uid = toAppId (env.manager (toUserId evaluated)).1

section Granted

variable {env : Env} {uid : Int32} {access : RootSettings} {cfg : DbSettings} {evaluated : Int32}

/-- Both queries look at the last row alone. -/
theorem foldl_onRow_policy (rows : List PolicyRow) {settings : RootSettings} {granted : Bool}
    (same : settings.policy = .allow ↔ granted = true) :
    (rows.foldl RootSettings.onRow settings).policy = .allow ↔
      rows.foldl (fun _ row => decide (row.policy = SuPolicy.allow.repr)) granted = true := by
  induction rows generalizing settings granted with
  | nil => exact same
  | cons row rest ih =>
    apply ih
    rw [decide_eq_true_iff]
    exact SuPolicy.mk.injEq row.policy SuPolicy.allow.repr ▸ Iff.rfl

theorem allowedByTable_iff (row : env.getRootSettings uid = some access) :
    env.allowedByTable uid = true ↔ access.policy = .allow := by
  unfold Env.getRootSettings at row
  unfold Env.allowedByTable
  cases policies : env.policies with
  | none =>
    rw [policies] at row
    cases row
  | some rows =>
    rw [policies, Option.map_some, Option.some.injEq] at row
    rw [← row]
    exact (foldl_onRow_policy _ (by decide)).symm

theorem allowedByTable_of_none (failed : env.getRootSettings uid = none) :
    env.allowedByTable uid = false := by
  rw [Env.getRootSettings, Option.map_eq_none_iff] at failed
  rw [Env.allowedByTable, failed]

theorem grantedAsUser_eq (env : Env) (cfg : DbSettings) (uid : Int32) : env.grantedAsUser cfg uid =
      match evalUid cfg.multiuserMode uid with
      | none => false
      | some evaluated => env.allowedByTable evaluated := by
  unfold Env.grantedAsUser evalUid
  cases cfg.multiuserMode with
  | ownerOnly =>
    dsimp only
    split <;> rfl
  | ownerManaged => rfl
  | user => rfl

theorem uidGrantedRoot_eq (notRoot : uid ≠ aidRoot) (settings : env.getDbSettings = some cfg) :
    env.uidGrantedRoot uid = (!cfg.rootAccess.rejects uid && env.grantedAsUser cfg uid) := by
  simp only [Env.uidGrantedRoot, if_neg notRoot, settings, RootAccess.rejects]
  cases cfg.rootAccess with
  | disabled => rfl
  | appsOnly => by_cases shell : uid = aidShell <;> simp [shell]
  | adbOnly => by_cases shell : uid = aidShell <;> simp [shell]
  | appsAndAdb => rfl

/-- No app has the app id of a manager that was not looked up. -/
theorem toAppId_ne_of_nonneg (nonneg : 0 ≤ uid) : toAppId uid ≠ toAppId (-1) := by
  intro same
  have lower : 0 ≤ (toAppId uid).toInt := by
    rw [toAppId, Int32.toInt_mod]
    exact Int.tmod_nonneg _ (Int32.le_iff_toInt_le.mp nonneg)
  rw [same] at lower
  exact absurd lower (by decide)

theorem toAppId_ne_lookupManager (nonneg : 0 ≤ uid)
    (notManager : toAppId uid ≠ toAppId (env.manager (toUserId evaluated)).1)
    (access : RootSettings) : toAppId uid ≠ toAppId (lookupManager env access evaluated).1 := by
  unfold lookupManager
  split
  · exact notManager
  · exact toAppId_ne_of_nonneg nonneg

/-- An ordinary requester is allowed exactly if the access mode lets it pass and the
table says so. -/
theorem settleSuInfo_allow_iff
    (notManager : toAppId uid ≠ toAppId (lookupManager env access evaluated).1) :
    (settleSuInfo env uid cfg evaluated access).access.settings.policy = .allow ↔
      cfg.rootAccess.rejects uid = false ∧ access.policy = .allow := by
  have denyNotAllow : SuPolicy.deny ≠ SuPolicy.allow := by decide
  rw [settleSuInfo_policy, if_neg notManager]
  split
  · rename_i rejected
    rw [rejected]
    exact iff_of_false denyNotAllow fun passes => absurd passes.1 (by decide)
  · rename_i notRejected
    rw [Bool.not_eq_true] at notRejected
    rw [and_iff_right notRejected]
    split
    · rename_i unanswerable
      rw [unanswerable.1]
      exact iff_of_false denyNotAllow (by decide)
    · exact Iff.rfl

/-- `uid_granted_root` says yes exactly for those whom `build_su_info` allows. -/
theorem uidGrantedRoot_iff (env : Env) (uid : Int32) (checked : env.checkDb = true)
    (nonneg : 0 ≤ uid) (notRoot : uid ≠ aidRoot) (notManager : ¬ env.IsManager uid) :
    env.uidGrantedRoot uid = true ↔ (buildSuInfo env uid).access.settings.policy = .allow := by
  have denied : (SuInfo.deny uid env.now).access.settings.policy ≠ .allow := by
    change SuPolicy.deny ≠ SuPolicy.allow
    decide
  rw [buildSuInfo, if_pos checked]
  cases settings : env.getDbSettings with
  | none =>
    rw [Env.uidGrantedRoot, if_neg notRoot, settings]
    exact iff_of_false Bool.false_ne_true denied
  | some cfg =>
    rw [uidGrantedRoot_eq notRoot settings, grantedAsUser_eq]
    dsimp only
    cases user : evalUid cfg.multiuserMode uid with
    | none =>
      rw [Bool.and_false]
      exact iff_of_false (by decide) denied
    | some evaluated =>
      dsimp only
      cases row : env.getRootSettings evaluated with
      | none =>
        rw [allowedByTable_of_none row, Bool.and_false]
        exact iff_of_false (by decide) denied
      | some access =>
        have other : toAppId uid ≠ toAppId (env.manager (toUserId evaluated)).1 :=
          fun same => notManager ⟨cfg, evaluated, settings, user, same⟩
        rw [settleSuInfo_allow_iff (toAppId_ne_lookupManager nonneg other access),
          ← allowedByTable_iff row, Bool.and_eq_true, Bool.not_eq_true']

/-- An app of a second user whose row is filed under its app id. -/
def managedRow : Env :=
  { checkDb := true
    settings := some [("multiuser_mode", 1), ("root_access", 3)]
    policies := some [⟨10123, 2, 0, 1, 0⟩]
    clock := 0
    manager := fun _ => (10200, "manager")
    now := 5000
    later := 5000
    fifo := .unavailable
    forks := true }

theorem uidGrantedRoot_iff_managedRow : managedRow.uidGrantedRoot 1010123 = true ∧
      (buildSuInfo managedRow 1010123).access.settings.policy = .allow := by
  have granted : managedRow.uidGrantedRoot 1010123 = true := by
    decide
  have notManager : ¬ managedRow.IsManager 1010123 := by
    rintro ⟨cfg, evaluated, _, _, same⟩
    exact absurd same (by change ¬ toAppId 1010123 = toAppId 10200; decide)
  exact ⟨granted, (uidGrantedRoot_iff managedRow 1010123 rfl (by decide) (by decide)
    notManager).mp granted⟩

end Granted

end Magisk.Core
