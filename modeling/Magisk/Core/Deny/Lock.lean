import Magisk.Core.Deny.Integrity

/-!
# The lock of the denylist

All requests but one make their accesses to the tables under the lock and
leave the index whole: it has a view of every package that is not an isolated
service.  A restart of zygote clears the index and fills it anew without the
lock, so that a lookup in between misses packages.
-/

namespace Magisk.Core.Deny

open Interleaving.Program List Interleaving

variable {package : Package} {pkg : String} {dir : DataDir} {site : Site} {load : Load}
  {request : Request}

/-! ## Whole tables -/

namespace DenyData

variable {ahead : List Package}

/-- Whether the index has a view of a package. -/
def Covers (data : DenyData) (pkg : String) : Prop :=
  ∃ item ∈ data.index, item.2.text = pkg

/-- Both tables are there or none is, and the index covers every package. -/
structure Whole (data : DenyData) : Prop where
  paired : data.pkgToProcs.isSome = data.appIdToPkgs.isSome
  covers : ∀ package ∈ data.packages, package.name ≠ isolatedMagic → data.Covers package.name

/-- Tables in the middle of a scan: the packages ahead need not be covered. -/
structure HalfBuilt (ahead : List Package) (data : DenyData) : Prop where
  packagesThere : data.pkgToProcs.isSome = true
  indexThere : data.appIdToPkgs.isSome = true
  covers : ∀ package ∈ data.packages, package.name ≠ isolatedMagic →
    data.Covers package.name ∨ package ∈ ahead

variable {data : DenyData}

theorem covers_record_self (data : DenyData) (appId : Int) (view : View) :
    (data.record appId view).Covers view.text := by
  rw [record]
  split
  · rename_i recorded
    rcases any_eq_true.mp recorded with ⟨item, mem, same⟩
    exact ⟨item, mem, (of_decide_eq_true same).2⟩
  · exact ⟨(appId, view), mem_append_right _ (mem_singleton_self _), rfl⟩

theorem Covers.record (covered : data.Covers pkg) (appId : Int) (view : View) :
    (data.record appId view).Covers pkg := by
  rcases covered with ⟨item, mem, same⟩
  rw [DenyData.record]
  split
  · exact ⟨item, mem, same⟩
  · exact ⟨item, mem_append_left _ mem, same⟩

theorem Covers.forget (covered : data.Covers pkg) (appId : Int) {text : String}
    (other : pkg ≠ text) :
    (data.forget appId text).Covers pkg := by
  rcases covered with ⟨item, mem, same⟩
  refine ⟨item, mem_index_forget.mpr ⟨mem, ?_⟩, same⟩
  rintro ⟨_, isText⟩
  exact other (same.symm.trans isText)

theorem pkgToProcs_record (data : DenyData) (appId : Int) (view : View) :
    (data.record appId view).pkgToProcs = data.pkgToProcs := by
  rw [record]
  split <;> rfl

theorem isSome_appIdToPkgs_record (there : data.appIdToPkgs.isSome = true) (appId : Int)
    (view : View) : (data.record appId view).appIdToPkgs.isSome = true := by
  rw [record]
  split
  · exact there
  · rfl

theorem HalfBuilt.whole (complete : HalfBuilt [] data) : data.Whole := by
  refine ⟨complete.packagesThere.trans complete.indexThere.symm, ?_⟩
  intro package mem named
  rcases complete.covers package mem named with covered | ahead
  · exact covered
  · cases ahead

section

variable (scanning : HalfBuilt (package :: ahead) data)
include scanning

theorem HalfBuilt.skip
    (covered : package ∈ data.packages → package.name ≠ isolatedMagic → data.Covers package.name) :
    HalfBuilt ahead data := by
  refine ⟨scanning.packagesThere, scanning.indexThere, ?_⟩
  intro other mem named
  rcases scanning.covers other mem named with isCovered | isAhead
  · exact .inl isCovered
  · rcases mem_cons.mp isAhead with rfl | later
    · exact .inl (covered mem named)
    · exact .inr later

theorem HalfBuilt.erase :
    HalfBuilt ahead (data.erase package.name) := by
  refine ⟨rfl, scanning.indexThere, ?_⟩
  intro other mem named
  rcases mem_packages_erase.mp mem with ⟨before, distinct⟩
  rcases scanning.covers other before named with isCovered | isAhead
  · exact .inl isCovered
  · rcases mem_cons.mp isAhead with rfl | later
    · exact absurd rfl distinct
    · exact .inr later

theorem HalfBuilt.record (appId : Int) : HalfBuilt ahead (data.record appId package.view) := by
  have recorded : HalfBuilt (package :: ahead) (data.record appId package.view) := by
    refine ⟨?_, isSome_appIdToPkgs_record scanning.indexThere appId package.view, ?_⟩
    · rw [pkgToProcs_record]
      exact scanning.packagesThere
    · rw [packages_record]
      intro other mem named
      exact (scanning.covers other mem named).imp_left fun covered => covered.record _ _
  exact recorded.skip fun _ _ => covers_record_self data appId package.view

end

end DenyData

open DenyData (Whole HalfBuilt)

theorem DataDir.appId_nonneg (dir : DataDir) (pkg : String) : 0 ≤ dir.appId pkg := by
  rw [DataDir.appId]
  split
  · exact Int.emod_nonneg _ (by decide)
  · exact le_rfl

variable {data : DenyData}

/-- The loop of a scan ends with nothing ahead. -/
theorem halfBuilt_scanLoop {packages : List Package} (scanning : HalfBuilt packages data) :
    HalfBuilt [] ((scanLoop dir packages).run data).2 := by
  induction packages generalizing data with
  | nil => exact scanning
  | cons package rest ih =>
    rw [scanLoop]
    split
    · rename_i isolated
      exact ih (scanning.skip fun _ named => absurd isolated named)
    · split
      · simp only [run_bind]
        exact ih scanning.erase
      · have nonneg := dir.appId_nonneg package.name
        rw [run_bind, run_updateAppId, if_neg (by omega)]
        exact ih (scanning.record _)

/-- A scan of tables that are there leaves them whole. -/
theorem halfBuilt_scanDenyApps (packagesThere : data.pkgToProcs.isSome = true)
    (indexThere : data.appIdToPkgs.isSome = true) :
    HalfBuilt [] ((scanDenyApps dir).run data).2 := by
  rw [run_scanDenyApps]
  split
  · rename_i absent
    rw [Option.isNone_iff_eq_none] at absent
    rw [absent] at indexThere
    cases indexThere
  · exact halfBuilt_scanLoop ⟨packagesThere, rfl, fun package mem _ => .inr mem⟩

theorem isSome_pkgToProcs_emplace (data : DenyData) (pkg proc : String) :
    (data.emplace pkg proc).pkgToProcs.isSome = true := by
  rw [DenyData.emplace]
  split <;> rfl

/-- Loading rows keeps the table of packages. -/
theorem isSome_pkgToProcs_addRows {rows : List (String × String)}
    (there : data.pkgToProcs.isSome = true) :
    ((addRows rows).run data).2.pkgToProcs.isSome = true := by
  induction rows generalizing data with
  | nil => exact there
  | cons row rows ih =>
    simp only [addRows, addHideSet, run_bind, run_exchange]
    apply ih
    split
    · exact there
    · exact isSome_pkgToProcs_emplace data row.1 row.2

/-- Loading leaves whole tables. -/
theorem DenyData.Whole.loaded (whole : data.Whole) (load : Load) : (data.loaded load).Whole := by
  rw [run_ensureData]
  split
  · exact whole
  · split
    · apply DenyData.HalfBuilt.whole
      apply halfBuilt_scanDenyApps
      · exact isSome_pkgToProcs_addRows rfl
      · rfl
    · exact ⟨rfl, nofun⟩

/-- After a successful load the tables are there. -/
theorem isSome_pkgToProcs_loaded (succeeded : ((ensureData load).run data).1.1 = true) :
    (data.loaded load).pkgToProcs.isSome = true := by
  rw [run_ensureData]
  rw [ensureData, run_bind, run_look] at succeeded
  split at succeeded
  · rename_i there
    rw [if_pos there]
    exact there
  · rename_i absent
    split at succeeded
    · rename_i success
      rw [if_neg absent, if_pos success]
      apply DenyData.HalfBuilt.packagesThere
      apply halfBuilt_scanDenyApps
      · exact isSome_pkgToProcs_addRows rfl
      · rfl
    · simp only [run_bind] at succeeded
      cases succeeded

/-! ## Requests leave whole tables -/

namespace DenyData

variable {data : DenyData} {proc : String}

theorem mem_packages_emplace (mem : package ∈ (data.emplace pkg proc).packages) :
    package.name = pkg ∨ ∃ before ∈ data.packages, before.name = package.name := by
  rw [emplace] at mem
  split at mem
  · rcases mem_map.mp mem with ⟨before, beforeMem, rfl⟩
    refine .inr ⟨before, beforeMem, ?_⟩
    split <;> rfl
  · rcases mem_append.mp mem with before | last
    · exact .inr ⟨package, before, rfl⟩
    · rw [mem_singleton.mp last]
      exact .inl rfl

theorem exists_find_emplace (data : DenyData) (pkg proc : String) :
    ∃ package, (data.emplace pkg proc).find pkg = some package := by
  have there : ∃ package ∈ (data.emplace pkg proc).packages, package.name = pkg := by
    cases found : data.find pkg with
    | none =>
      refine ⟨⟨data.nextNode, pkg, [proc]⟩, ?_, rfl⟩
      rw [emplace, found]
      exact mem_append_right _ (mem_singleton_self _)
    | some package =>
      rcases find_eq_some found with ⟨mem, named⟩
      rcases exists_view_emplace pkg proc mem with ⟨other, otherMem, same⟩
      exact ⟨other, otherMem, (congrArg View.text same).trans named⟩
  rcases there with ⟨package, mem, rfl⟩
  exact exists_find_of_mem mem

/-- Adding a package and recording it leaves whole tables. -/
theorem Whole.record_emplace (whole : data.Whole) {appId : Int} (named : package.name = pkg)
    (there : data.pkgToProcs.isSome = true) :
    ((data.emplace pkg proc).record appId package.view).Whole := by
  have indexThere : (data.emplace pkg proc).appIdToPkgs.isSome = true := by
    rw [emplace]
    split <;> exact whole.paired.symm.trans there
  constructor
  · rw [pkgToProcs_record, isSome_pkgToProcs_emplace, isSome_appIdToPkgs_record indexThere]
  · intro other mem notIsolated
    rw [packages_record] at mem
    rcases mem_packages_emplace mem with same | ⟨before, beforeMem, same⟩
    · rw [same, ← named]
      exact covers_record_self _ appId package.view
    · have covered := whole.covers before beforeMem (same ▸ notIsolated)
      rw [same] at covered
      apply Covers.record
      rcases covered with ⟨item, itemMem, text⟩
      exact ⟨item, (index_emplace data pkg proc).symm ▸ itemMem, text⟩

/-- Isolated services need not be recorded. -/
theorem Whole.emplace_isolated (whole : data.Whole) (there : data.pkgToProcs.isSome = true) :
    (data.emplace isolatedMagic proc).Whole := by
  constructor
  · rw [emplace]
    split <;> exact (whole.paired.symm.trans there).symm
  · intro other mem notIsolated
    rcases mem_packages_emplace mem with same | ⟨before, beforeMem, same⟩
    · exact absurd same notIsolated
    · rcases whole.covers before beforeMem (same ▸ notIsolated) with ⟨item, itemMem, text⟩
      exact ⟨item, (index_emplace data isolatedMagic proc).symm ▸ itemMem, text.trans same⟩

theorem Whole.eraseProc (whole : data.Whole) (pkg proc : String)
    (there : data.pkgToProcs.isSome = true) : (data.eraseProc pkg proc).Whole := by
  refine ⟨there.symm.trans whole.paired, ?_⟩
  intro other mem notIsolated
  rcases mem_map.mp mem with ⟨before, beforeMem, rfl⟩
  have sameName : (if before.name = pkg then { before with procs := before.procs.erase proc }
      else before).name = before.name := by
    split <;> rfl
  rw [sameName] at notIsolated ⊢
  exact whole.covers before beforeMem notIsolated

end DenyData

/-- Removing a package leaves whole tables. -/
theorem whole_rmPackage (whole : data.Whole) (there : data.pkgToProcs.isSome = true) :
    ((rmPackage package dir).run data).2.Whole := by
  simp only [rmPackage, run_bind, run_updateAppId]
  have indexThere := whole.paired.symm.trans there
  by_cases none : dir.getAppId package.name ≤ 0
  · rw [if_pos none]
    refine ⟨indexThere.symm, ?_⟩
    intro other mem notIsolated
    exact whole.covers other (DenyData.mem_packages_erase.mp mem).1 notIsolated
  · rw [if_neg none]
    refine ⟨rfl, ?_⟩
    intro other mem notIsolated
    rcases DenyData.mem_packages_erase.mp mem with ⟨before, distinct⟩
    exact (whole.covers other before notIsolated).forget _ distinct

/-! ## The discipline of each request -/

/-- The tables are whole while the lock is free, and whenever `is_deny_target`
looks something up. -/
def discipline : Program.Discipline DenyData Site where
  invariant := Whole
  asserts site data := site = .isDenyTarget → data.Whole

theorem straight_change (other : site ≠ .isDenyTarget) (effect : DenyData → DenyData) :
    (change site effect).Straight discipline :=
  ⟨fun _ same => absurd same other, fun _ => trivial⟩

theorem straight_look {Result : Type} (other : site ≠ .isDenyTarget) (view : DenyData → Result) :
    (look site view).Straight discipline :=
  ⟨fun _ same => absurd same other, fun _ => trivial⟩

theorem straight_updateAppId (appId : Int) (view : View) (remove : Bool) :
    (updateAppId appId view remove).Straight discipline := by
  rw [updateAppId]
  split
  · exact trivial
  · split <;> exact straight_change (by decide) _

theorem straight_addHideSet (pkg proc : String) : (addHideSet pkg proc).Straight discipline :=
  ⟨nofun, fun _ => trivial⟩

theorem straight_scanLoop (dir : DataDir) (packages : List Package) :
    (scanLoop dir packages).Straight discipline := by
  induction packages with
  | nil => exact trivial
  | cons package rest ih =>
    rw [scanLoop]
    split
    · exact ih
    · split
      · exact (straight_change (by decide) _).bind fun _ => ih.bind fun _ => trivial
      · exact (straight_updateAppId _ _ _).bind fun _ => ih

theorem straight_scanDenyApps (dir : DataDir) : (scanDenyApps dir).Straight discipline := by
  refine (straight_look (by decide) _).bind fun index => ?_
  split
  · exact trivial
  · refine (straight_change (by decide) _).bind fun _ => ?_
    exact (straight_look (by decide) _).bind fun packages => straight_scanLoop dir packages

theorem straight_addRows (rows : List (String × String)) : (addRows rows).Straight discipline := by
  induction rows with
  | nil => exact trivial
  | cons row rows ih => exact (straight_addHideSet row.1 row.2).bind fun _ => ih

theorem straight_ensureData (load : Load) : (ensureData load).Straight discipline := by
  refine (straight_look (by decide) _).bind fun packages => ?_
  split
  · exact trivial
  · refine (straight_change (by decide) _).bind fun _ => ?_
    refine (straight_addRows load.rows).bind fun _ => ?_
    split
    · refine (straight_change (by decide) _).bind fun _ => ?_
      exact (straight_scanDenyApps load.dir).bind fun _ => trivial
    · exact (straight_change (by decide) _).bind fun _ => trivial

theorem straight_rmPackage (package : Package) (dir : DataDir) :
    (rmPackage package dir).Straight discipline :=
  (straight_updateAppId _ _ _).bind fun _ => straight_change (by decide) _

theorem keeps_leave {removed : List String} {outcome : Outcome} (whole : data.Whole) :
    (leave removed outcome).Keeps discipline (fun _ held _ => held = false) true data :=
  ⟨rfl, whole, fun _ => rfl⟩

/-- A critical section that first makes sure that the tables are there. -/
theorem disciplined_of_loaded {rest : Bool × List String → DenyProgram (List String × Outcome)}
    (each : ∀ {there removed tables}, tables.Whole →
      (there = true → tables.pkgToProcs.isSome = true) →
        (rest (there, removed)).Keeps discipline (fun _ held _ => held = false) true tables) :
    (acquire >>= fun _ => ensureData load >>= rest).Disciplined discipline := by
  intro data
  rw [keeps_bind, keeps_acquire]
  refine ⟨rfl, fun free whole => ?_⟩
  rw [keeps_bind, (straight_ensureData load).keeps_iff]
  exact each (whole.loaded load) isSome_pkgToProcs_loaded

theorem disciplined_addItem (pkg proc : String) (load : Load) (dir : DataDir) :
    (addItem pkg proc load dir).Disciplined discipline := by
  apply disciplined_of_loaded
  intro there removed tables whole isThere
  dsimp only
  split
  · rename_i succeeded
    split
    · exact keeps_leave whole
    · rename_i installed
      rw [keeps_bind, (straight_addHideSet pkg proc).keeps_iff]
      cases listed : tables.lists pkg proc with
      | true =>
        simp only [addHideSet, run_exchange, listed]
        exact keeps_leave whole
      | false =>
        rcases DenyData.exists_find_emplace tables pkg proc with ⟨package, found⟩
        simp only [addHideSet, run_exchange, listed, Bool.not_false, if_true,
          Bool.false_eq_true, if_false]
        rw [keeps_bind, (straight_look (by decide) _).keeps_iff, run_look]
        rw [found]
        rw [keeps_bind, (straight_updateAppId _ _ _).keeps_iff, run_updateAppId]
        apply keeps_leave
        by_cases isolated : pkg = isolatedMagic
        · subst isolated
          exact whole.emplace_isolated (isThere succeeded)
        · have nonneg := dir.appId_nonneg pkg
          rw [DataDir.getAppId, if_neg isolated] at installed ⊢
          rw [if_neg (by omega)]
          exact whole.record_emplace (DenyData.find_eq_some found).2 (isThere succeeded)
  · exact keeps_leave whole

theorem disciplined_rmList (pkg proc : String) (load : Load) (dir : DataDir) :
    (rmList pkg proc load dir).Disciplined discipline := by
  apply disciplined_of_loaded
  intro there removed tables whole isThere
  dsimp only
  split
  · rename_i succeeded
    rw [keeps_bind, (straight_look (by decide) _).keeps_iff, run_look]
    split
    · exact keeps_leave whole
    · rename_i package found
      split
      · rw [keeps_bind, (straight_rmPackage package dir).keeps_iff]
        exact keeps_leave (whole_rmPackage whole (isThere succeeded))
      · split
        · rw [keeps_bind, (straight_change (by decide) _).keeps_iff, run_change]
          have shrunk := whole.eraseProc pkg proc (isThere succeeded)
          split
          · rw [keeps_bind, (straight_rmPackage package dir).keeps_iff]
            exact keeps_leave (whole_rmPackage shrunk rfl)
          · exact keeps_leave shrunk
        · exact keeps_leave whole
  · exact keeps_leave whole

theorem disciplined_lsList (load : Load) (dir : DataDir) :
    (lsList load dir).Disciplined discipline := by
  apply disciplined_of_loaded
  intro there removed tables whole isThere
  dsimp only
  split
  · rename_i succeeded
    have indexThere := whole.paired.symm.trans (isThere succeeded)
    rw [keeps_bind, (straight_scanDenyApps dir).keeps_iff, keeps_bind,
      (straight_look (by decide) _).keeps_iff]
    exact keeps_leave (halfBuilt_scanDenyApps (isThere succeeded) indexThere).whole
  · exact keeps_leave whole

theorem disciplined_enableDeny (enforced mntNs procfs : Bool) (load : Load) :
    (enableDeny enforced mntNs procfs load).Disciplined discipline := by
  intro data
  rw [enableDeny]
  split
  · exact rfl
  · rw [keeps_bind, keeps_acquire]
    refine ⟨rfl, fun free whole => ?_⟩
    split
    · split
      · rw [keeps_bind, (straight_ensureData load).keeps_iff]
        exact keeps_leave (whole.loaded load)
      · exact keeps_leave whole
    · exact keeps_leave whole

theorem disciplined_isDenyTarget (uid : Int32) (process : String) (load : Load) :
    (isDenyTarget uid process load).Disciplined discipline := by
  apply disciplined_of_loaded
  intro there removed tables whole isThere
  dsimp only
  split
  · exact ⟨rfl, fun _ => whole, keeps_leave whole⟩
  · exact keeps_leave whole

/-! ## Every interleaving -/

/-- All requests but the restart of zygote. -/
def Locked : Request → Prop
  | .zygoteRestart _ => False
  | _ => True

theorem disciplined_program (locked : Locked request) :
    (program request).Disciplined discipline := by
  cases request with
  | addList pkg proc load dir =>
    rw [program, addList]
    split
    · exact disciplined_addItem pkg _ load dir
    · exact fun _ => rfl
  | rmList pkg proc load dir => exact disciplined_rmList pkg proc load dir
  | lsList load dir => exact disciplined_lsList load dir
  | enableDeny enforced mntNs procfs load => exact disciplined_enableDeny enforced mntNs procfs load
  | isDenyTarget uid process load => exact disciplined_isDenyTarget uid process load
  | zygoteRestart dir => exact locked.elim

/-- A restart of zygote begins with an access. -/
theorem access_of_not_locked (bare : ¬ Locked request) :
    ∃ site effect next, program request = .access site effect next := by
  cases request with
  | zygoteRestart dir => exact ⟨_, _, _, rfl⟩
  | _ => exact absurd trivial bare

/-- In an interleaving of requests on any threads, every access to the tables is
made by the holder of the lock and every lookup finds a whole index, exactly if
no thread acts on a restart of zygote. -/
theorem inOrder_iff_locked {Thread : Type} [DecidableEq Thread]
    (execution : Execution (Pool.system Thread program {})) :
    execution.Meets (Pool.InOrder discipline) ↔ execution.Meets (Pool.OnlyActs Locked) := by
  apply Pool.meets_inOrder_iff
  · exact ⟨rfl, nofun⟩
  · exact fun request => disciplined_program
  · exact fun request => access_of_not_locked

/-- Where a thread makes its next access. -/
def nextSite (pool : Pool Bool Request DenyData Site (List String × Outcome)) (thread : Bool) :
    Option Site :=
  match pool.running thread with
  | some (_, .access site _ _) => some site
  | _ => none

theorem exists_of_nextSite {pool : Pool Bool Request DenyData Site (List String × Outcome)}
    {thread : Bool} (next : nextSite pool thread = some site) :
    ∃ request effect rest, pool.running thread = some (request, .access site effect rest) := by
  rw [nextSite] at next
  split at next
  · rename_i request other effect rest work
    cases next
    exact ⟨request, effect, rest, work⟩
  · cases next

/-- The tables are loaded with one package; then zygote restarts, and a lookup
runs after the index has been cleared. -/
def lookupDuringRestart : List (PoolStep Bool Request) :=
  let load : Load :=
    { rows := [("org.bank", "org.bank")], succeeds := true, dir := ownedBy "org.bank" 10061 }
  let check : Request := .isDenyTarget 10061 "org.bank" load
  .start false check :: replicate 12 (.act false) ++
    [.start true (.zygoteRestart (ownedBy "org.bank" 10061)), .act true, .act true,
      .start false check, .act false, .act false, .act false]

theorem runs_lookupDuringRestart :
    ((Pool.system Bool program {}).run (Pool.system Bool program {}).initial
      lookupDuringRestart).isSome = true := by
  decide +kernel

def restartExecution : Execution (Pool.system Bool program {}) :=
  Execution.ofLabels (Pool.system Bool program {}) lookupDuringRestart
    (Option.some_get runs_lookupDuringRestart).symm

/-- The lookup finds an index that does not cover the package. -/
theorem not_inOrder_lookupDuringRestart : ¬ ∀ execution : Execution (Pool.system Bool program {}),
      execution.Meets (Pool.InOrder discipline) := by
  intro always
  have looking : nextSite (restartExecution.state 19) false = some .isDenyTarget := by
    decide +kernel
  rcases exists_of_nextSite looking with ⟨request, effect, rest, work⟩
  have inOrder := always restartExecution 19 (.act false) rfl request _ effect rest work
  have whole : (restartExecution.state 19).data.Whole := inOrder.2 rfl
  have listed : (⟨0, "org.bank", ["org.bank"]⟩ : Package) ∈
      (restartExecution.state 19).data.packages := by
    decide +kernel
  have cleared : (restartExecution.state 19).data.index = [] := by
    decide +kernel
  rcases whole.covers _ listed (by decide) with ⟨item, mem, _⟩
  cases mem

end Magisk.Core.Deny
