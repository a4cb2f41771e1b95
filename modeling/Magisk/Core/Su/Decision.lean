import Magisk.Core.Su.Daemon

/-!
# Which policies grant a root shell

The handler only turns `Deny` away.  A value that is none of the four named
ones, or an answer `Query` from the manager, therefore ends in a root shell.
Such a value can only come from the policies table, from the remembered info or
from the manager; if these three hold decided values, so does every decision.
-/

namespace Magisk.Core

variable {uid : Int32}

/-- The policies that settle a request. -/
def SuPolicy.Decided (policy : SuPolicy) : Prop :=
  policy = .deny ∨ policy = .allow ∨ policy = .restrict

instance (policy : SuPolicy) : Decidable policy.Decided :=
  inferInstanceAs (Decidable (_ ∨ _))

/-- The policy a request ends up with, if the manager answers when asked. -/
def MagiskD.finalPolicy (daemon : MagiskD) (env : Env) (uid : Int32) : Option SuPolicy :=
  (connectApp env (daemon.getSuInfo env uid).1.access.settings).map RootSettings.policy

/-- A root shell is only reached under `Allow` or `Restrict`, and under
`Restrict` only with dropped capabilities. -/
def MagiskD.GrantsOnlyDecided (daemon : MagiskD) (env : Env) (cred : UCred)
    (request : Option SuRequest) : Prop :=
  ∀ pid req mode, (daemon.suDaemonHandler env cred request).1 = .execRootShell pid req mode →
    ∃ policy, daemon.finalPolicy env cred.uid.toInt32 = some policy ∧
      (policy = .allow ∨ policy = .restrict) ∧ (policy = .restrict → req.dropCap = true)

/-! ## Where a policy comes from -/

/-- The policies table decides about `uid`: no check overrides the stored
value. -/
structure Stored (env : Env) (uid : Int32) (cfg : DbSettings) (evaluated : Int32)
    (access : RootSettings) : Prop where
  checked : env.checkDb = true
  settings : env.getDbSettings = some cfg
  user : evalUid cfg.multiuserMode uid = some evaluated
  row : env.getRootSettings evaluated = some access
  notManager : toAppId uid ≠ toAppId (lookupManager env access evaluated).1
  notRejected : cfg.rootAccess.rejects uid = false
  answerable : ¬ (access.policy = .query ∧ (lookupManager env access evaluated).1 < 0)

/-- A stored value decides about `uid`: the remembered one while it is fresh,
otherwise the one in the policies table. -/
inductive Governs (daemon : MagiskD) (env : Env) (uid : Int32) : SuPolicy → Prop where
  | remembered (notRoot : uid ≠ aidRoot) (fresh : daemon.remembers env uid = true) :
      Governs daemon env uid daemon.cachedSuInfo.access.settings.policy
  | stored {cfg : DbSettings} {evaluated : Int32} {access : RootSettings}
      (notRoot : uid ≠ aidRoot) (stale : daemon.remembers env uid = false)
      (row : Stored env uid cfg evaluated access) : Governs daemon env uid access.policy

/-- If the manager's answer arrives, it settles the request. -/
def Env.AnswerDecided (env : Env) : Prop :=
  ∀ a b c d rest, env.fifo = .written (a :: b :: c :: d :: rest) →
    SuPolicy.Decided ⟨beInt32 a b c d⟩

theorem settleSuInfo_policy (env : Env) (uid : Int32) (cfg : DbSettings) (evaluated : Int32)
    (access : RootSettings) :
    (settleSuInfo env uid cfg evaluated access).access.settings.policy =
      if toAppId uid = toAppId (lookupManager env access evaluated).1 then .allow
      else if cfg.rootAccess.rejects uid then .deny
      else if access.policy = .query ∧ (lookupManager env access evaluated).1 < 0 then .deny
      else access.policy := by
  unfold settleSuInfo
  simp only
  split
  · rfl
  · split
    · rfl
    · split <;> rfl

variable {env : Env} {daemon : MagiskD}

/-- The table's value is the one a fresh lookup carries. -/
theorem Stored.buildSuInfo_policy {cfg : DbSettings} {evaluated : Int32} {access : RootSettings}
    (stored : Stored env uid cfg evaluated access) :
    (buildSuInfo env uid).access.settings.policy = access.policy := by
  simp only [buildSuInfo, stored.checked, if_true, stored.settings, stored.user, stored.row,
    settleSuInfo_policy, if_neg stored.notManager, stored.notRejected, Bool.false_eq_true, if_false,
    if_neg stored.answerable]

/-- A fresh lookup allows or denies, unless the table decides. -/
theorem buildSuInfo_policy_cases (env : Env) (uid : Int32) :
    (buildSuInfo env uid).access.settings.policy = .allow ∨
      (buildSuInfo env uid).access.settings.policy = .deny ∨
      ∃ cfg evaluated access, Stored env uid cfg evaluated access := by
  by_cases checked : env.checkDb = true
  · rw [buildSuInfo, if_pos checked]
    cases settings : env.getDbSettings with
    | none => exact Or.inr (Or.inl rfl)
    | some cfg =>
      cases user : evalUid cfg.multiuserMode uid with
      | none => simp only [user]; exact Or.inr (Or.inl rfl)
      | some evaluated =>
        cases row : env.getRootSettings evaluated with
        | none => simp only [user, row]; exact Or.inr (Or.inl rfl)
        | some access =>
          simp only [user, row, settleSuInfo_policy]
          split
          · exact Or.inl rfl
          · rename_i notManager
            split
            · exact Or.inr (Or.inl rfl)
            · rename_i notRejected
              split
              · exact Or.inr (Or.inl rfl)
              · rename_i answerable
                exact Or.inr (Or.inr ⟨cfg, evaluated, access, checked, settings, user, row,
                  notManager, Bool.eq_false_iff.mpr notRejected, answerable⟩)
  · rw [buildSuInfo, if_neg checked]
    exact Or.inl rfl

/-- A governing value is the one the lookup returns. -/
theorem Governs.policy_eq {policy : SuPolicy} (governs : Governs daemon env uid policy) :
    (daemon.getSuInfo env uid).1.access.settings.policy = policy := by
  cases governs with
  | remembered notRoot fresh => rw [MagiskD.getSuInfo, if_neg notRoot, if_pos fresh]
  | stored notRoot stale row =>
    rw [MagiskD.getSuInfo, if_neg notRoot, if_neg (Bool.eq_false_iff.mp stale)]
    exact row.buildSuInfo_policy

/-- The lookup allows or denies, unless a stored value governs. -/
theorem getSuInfo_policy_cases (daemon : MagiskD) (env : Env) (uid : Int32) :
    (daemon.getSuInfo env uid).1.access.settings.policy = .allow ∨
      (daemon.getSuInfo env uid).1.access.settings.policy = .deny ∨
      Governs daemon env uid (daemon.getSuInfo env uid).1.access.settings.policy := by
  by_cases root : uid = aidRoot
  · rw [MagiskD.getSuInfo, if_pos root]
    exact Or.inl rfl
  · by_cases fresh : daemon.remembers env uid = true
    · have governs := Governs.remembered root fresh
      exact Or.inr (Or.inr (governs.policy_eq ▸ governs))
    · have stale := Bool.eq_false_iff.mpr fresh
      rcases buildSuInfo_policy_cases env uid with allowed | denied | ⟨cfg, evaluated, access, row⟩
      · rw [MagiskD.getSuInfo, if_neg root, if_neg fresh]
        exact Or.inl allowed
      · rw [MagiskD.getSuInfo, if_neg root, if_neg fresh]
        exact Or.inr (Or.inl denied)
      · have governs := Governs.stored root stale row
        exact Or.inr (Or.inr (governs.policy_eq ▸ governs))

/-! ## What the handler does with a policy -/

theorem connectApp_policy (env : Env) (settings : RootSettings) :
    (connectApp env settings).map RootSettings.policy =
      if settings.policy = .query then appRequest env else some settings.policy := by
  unfold connectApp
  split
  · cases appRequest env <;> rfl
  · rfl

/-- A root shell is reached exactly if the request was read, the final policy
is not `Deny` and the fork succeeded. -/
theorem suDaemonHandler_exec_iff (daemon : MagiskD) (env : Env) (cred : UCred)
    (request : Option SuRequest) (pid : Int32) (req : SuRequest) (mode : MntNsMode) :
    (daemon.suDaemonHandler env cred request).1 = .execRootShell pid req mode ↔
      ∃ original policy, request = some original ∧
        daemon.finalPolicy env cred.uid.toInt32 = some policy ∧ policy ≠ .deny ∧
        env.forks = true ∧ cred.pid.getD (-1) = pid ∧
        (if policy = .restrict then { original with dropCap := true } else original) = req ∧
        (daemon.getSuInfo env cred.uid.toInt32).1.cfg.mntNs = mode := by
  cases request with
  | none => simp [MagiskD.suDaemonHandler]
  | some original =>
    simp only [MagiskD.suDaemonHandler, MagiskD.finalPolicy]
    cases settled : connectApp env (daemon.getSuInfo env cred.uid.toInt32).1.access.settings with
    | none => simp
    | some settings =>
      by_cases denied : settings.policy = .deny
      · simp [denied]
      · by_cases forks : env.forks = true
        · simp [denied, forks]
        · simp [denied, forks]

theorem finalPolicy_eq (daemon : MagiskD) (env : Env) (uid : Int32) : daemon.finalPolicy env uid =
      if (daemon.getSuInfo env uid).1.access.settings.policy = .query then appRequest env
      else some (daemon.getSuInfo env uid).1.access.settings.policy :=
  connectApp_policy env _

/-- For a request that was read and a fork that succeeds, granting only under
decided policies is deciding every final policy. -/
theorem grantsOnlyDecided_iff_finalPolicy {cred : UCred} (original : SuRequest)
    (forks : env.forks = true) :
    daemon.GrantsOnlyDecided env cred (some original) ↔
      ∀ policy, daemon.finalPolicy env cred.uid.toInt32 = some policy → policy.Decided := by
  constructor
  · intro grants policy final
    by_cases denied : policy = .deny
    · exact Or.inl denied
    · have reached := (suDaemonHandler_exec_iff daemon env cred (some original) _ _ _).mpr
        ⟨original, policy, rfl, final, denied, forks, rfl, rfl, rfl⟩
      obtain ⟨same, sameFinal, granted, _⟩ := grants _ _ _ reached
      rw [final, Option.some.injEq] at sameFinal
      exact Or.inr (sameFinal ▸ granted)
  · intro decided pid req mode reached
    obtain ⟨request, policy, _, final, notDenied, _, _, rfl, _⟩ :=
      (suDaemonHandler_exec_iff daemon env cred (some original) _ _ _).mp reached
    refine ⟨policy, final, ?_, ?_⟩
    · rcases decided policy final with denied | granted
      · exact absurd denied notDenied
      · exact granted
    · intro restricted
      rw [if_pos restricted]

/-- An answer that arrives is decided exactly if every answer is. -/
theorem appRequest_decided_iff (env : Env) :
    (∀ policy, appRequest env = some policy → policy.Decided) ↔ env.AnswerDecided := by
  constructor
  · intro decided a b c d rest written
    apply decided
    rw [appRequest, written]
  · intro decided policy answered
    unfold appRequest at answered
    split at answered
    · cases answered
      exact Or.inl rfl
    · cases answered
      exact Or.inl rfl
    · rename_i a b c d rest written
      cases answered
      exact decided a b c d rest written
    · contradiction

/-- The handler reaches a root shell only under `Allow` or `Restrict` exactly
when the stored value that governs the request, if any, is decided or asks a
manager whose answer is. -/
theorem grantsOnlyDecided_iff (daemon : MagiskD) (env : Env) (cred : UCred)
    (request : Option SuRequest) :
    daemon.GrantsOnlyDecided env cred request ↔ request = none ∨ env.forks = false ∨
        ∀ policy, Governs daemon env cred.uid.toInt32 policy →
          policy.Decided ∨ policy = .query ∧ env.AnswerDecided := by
  cases request with
  | none =>
    refine iff_of_true (fun pid req mode reached => ?_) (Or.inl rfl)
    cases reached
  | some original =>
    cases forks : env.forks with
    | false =>
      refine iff_of_true (fun pid req mode reached => ?_) (Or.inr (Or.inl rfl))
      obtain ⟨_, _, _, _, _, forked, _⟩ :=
        (suDaemonHandler_exec_iff daemon env cred (some original) _ _ _).mp reached
      rw [forks] at forked
      contradiction
    | true =>
      simp only [reduceCtorEq, false_or]
      rw [grantsOnlyDecided_iff_finalPolicy original forks, finalPolicy_eq]
      constructor
      · intro decided policy governs
        rw [governs.policy_eq] at decided
        by_cases asks : policy = .query
        · rw [if_pos asks, appRequest_decided_iff] at decided
          exact Or.inr ⟨asks, decided⟩
        · rw [if_neg asks] at decided
          exact Or.inl (decided policy rfl)
      · intro stored
        have notQuery : ∀ policy : SuPolicy, policy.Decided → policy ≠ .query := by
          rintro policy decided rfl
          exact absurd decided (by decide)
        rcases getSuInfo_policy_cases daemon env cred.uid.toInt32 with allowed | denied | governs
        · rw [allowed]
          rintro policy ⟨⟩
          exact Or.inr (Or.inl rfl)
        · rw [denied]
          rintro policy ⟨⟩
          exact Or.inl rfl
        · rcases stored _ governs with decided | ⟨asks, answer⟩
          · rw [if_neg (notQuery _ decided)]
            rintro policy ⟨⟩
            exact decided
          · rw [if_pos asks, appRequest_decided_iff]
            exact answer

/-- A device with one app whose row holds a value outside the four policies. -/
def strayRow : Env :=
  { checkDb := true
    settings := some []
    policies := some [⟨10123, 7, 0, 0, 0⟩]
    clock := 0
    manager := fun _ => (-1, "")
    now := 5000
    later := 5000
    fifo := .unavailable
    forks := true }

theorem suDaemonHandler_strayRow :
    ∃ pid req mode, (MagiskD.suDaemonHandler ⟨.deny (-1) 0⟩ strayRow ⟨10123, some 1⟩
        (some ⟨0, -1, false, false, false, "/system/bin/sh", "", "", []⟩)).1 =
          .execRootShell pid req mode ∧
      MagiskD.finalPolicy ⟨.deny (-1) 0⟩ strayRow 10123 = some ⟨7⟩ ∧
      ¬ MagiskD.GrantsOnlyDecided ⟨.deny (-1) 0⟩ strayRow ⟨10123, some 1⟩
        (some ⟨0, -1, false, false, false, "/system/bin/sh", "", "", []⟩) := by
  refine ⟨_, _, _, rfl, by decide, fun grants => ?_⟩
  obtain ⟨policy, final, granted, _⟩ := grants _ _ _ rfl
  have stray : MagiskD.finalPolicy ⟨.deny (-1) 0⟩ strayRow (10123 : UInt32).toInt32 = some ⟨7⟩ := by
    decide
  rw [stray, Option.some.injEq] at final
  subst final
  exact absurd granted (by decide)

/-! ## The silent grant of the manager -/

end Magisk.Core
