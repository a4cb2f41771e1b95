import Magisk.Core.Deny.Stable

/-!
# Integrity of the denylist index

Every view in the index points to the key of a package that is there, as long
as a package is only removed while the data directory shows the app id it was
recorded under.  A package that was reinstalled under another app id, or that
was uninstalled, leaves its view behind.
-/

namespace Magisk.Core.Deny

open Interleaving.Program DenyData List Interleaving

variable {package : Package} {dir : DataDir} {pkg proc : String} {load : Load}

/-! ## Single operations -/

/-- Every view in the index points to the key of a package. -/
def DenyData.Integrity (data : DenyData) : Prop :=
  ∀ item ∈ data.index, ∃ package ∈ data.packages, package.view = item.2

/-- Only app ids are recorded. -/
def DenyData.Positive (data : DenyData) : Prop :=
  ∀ item ∈ data.index, 0 < item.1

namespace DenyData

variable {data : DenyData} {appId : Int} {item : Int × View}

theorem mem_index_record {view : View} (mem : item ∈ (data.record appId view).index) :
    item ∈ data.index ∨ item = (appId, view) := by
  rw [record] at mem
  split at mem
  · exact .inl mem
  · rcases mem_append.mp mem with before | last
    · exact .inl before
    · exact .inr (mem_singleton.mp last)

theorem packages_record (data : DenyData) (appId : Int) (view : View) :
    (data.record appId view).packages = data.packages := by
  rw [record]
  split <;> rfl

theorem mem_index_forget {text : String} : item ∈ (data.forget appId text).index ↔
      item ∈ data.index ∧ ¬ (item.1 = appId ∧ item.2.text = text) := by
  change item ∈ List.filter _ _ ↔ _
  rw [mem_filter, decide_eq_true_iff]

theorem mem_packages_erase :
    package ∈ (data.erase pkg).packages ↔ package ∈ data.packages ∧ package.name ≠ pkg := by
  change package ∈ List.filter _ _ ↔ _
  rw [mem_filter, decide_eq_true_iff]

theorem find_eq_some (found : data.find pkg = some package) :
    package ∈ data.packages ∧ package.name = pkg := by
  have named := find?_some found
  exact ⟨mem_of_find?_eq_some found, of_decide_eq_true named⟩

theorem exists_find_of_mem (mem : package ∈ data.packages) :
    ∃ found, data.find package.name = some found := by
  rw [← Option.isSome_iff_exists, find, find?_isSome]
  exact ⟨package, mem, decide_eq_true rfl⟩

/-- Changing process lists keeps the keys. -/
theorem exists_view_map {edit : Package → Package}
    (keeps : ∀ package, (edit package).view = package.view) (mem : package ∈ data.packages) :
    ∃ other ∈ data.packages.map edit, other.view = package.view :=
  ⟨edit package, mem_map_of_mem mem, keeps package⟩

theorem exists_view_emplace (pkg proc : String) (mem : package ∈ data.packages) :
    ∃ other ∈ (data.emplace pkg proc).packages, other.view = package.view := by
  rw [emplace]
  split
  · apply exists_view_map _ mem
    intro other
    split <;> rfl
  · exact ⟨package, mem_append_left _ mem, rfl⟩

theorem exists_view_eraseProc (pkg proc : String) (mem : package ∈ data.packages) :
    ∃ other ∈ (data.eraseProc pkg proc).packages, other.view = package.view := by
  apply exists_view_map _ mem
  intro other
  split <;> rfl

theorem index_emplace (data : DenyData) (pkg proc : String) :
    (data.emplace pkg proc).index = data.index := by
  rw [emplace]
  split <;> rfl

/-- Integrity only depends on the keys. -/
theorem Integrity.of_views (integrity : data.Integrity) {next : DenyData}
    (index : next.index = data.index)
    (views : ∀ package ∈ data.packages, ∃ other ∈ next.packages, other.view = package.view) :
    next.Integrity := by
  intro item mem
  rw [index] at mem
  rcases integrity item mem with ⟨package, packageMem, eq⟩
  rcases views package packageMem with ⟨other, otherMem, same⟩
  exact ⟨other, otherMem, same.trans eq⟩

theorem Integrity.record (integrity : data.Integrity) (appId : Int)
    (mem : package ∈ data.packages) :
    (data.record appId package.view).Integrity := by
  intro item itemMem
  rw [packages_record]
  rcases mem_index_record itemMem with before | rfl
  · exact integrity item before
  · exact ⟨package, mem, rfl⟩

/-- Erasing a package is safe exactly if nothing is recorded for it. -/
theorem Integrity.erase_iff (integrity : data.Integrity) (pkg : String) :
    (data.erase pkg).Integrity ↔ ∀ item ∈ data.index, item.2.text ≠ pkg := by
  constructor
  · intro after item mem same
    rcases after item mem with ⟨package, packageMem, view⟩
    apply (mem_packages_erase.mp packageMem).2
    rw [← same, ← view]
    rfl
  · intro unrecorded item mem
    rcases integrity item mem with ⟨package, packageMem, view⟩
    refine ⟨package, mem_packages_erase.mpr ⟨packageMem, ?_⟩, view⟩
    intro same
    apply unrecorded item mem
    rw [← view, ← same]
    rfl

/-- With integrity no lookup faults. -/
theorem Integrity.isTarget_ne_none (integrity : data.Integrity) (uid : Int32) (process : String) :
    data.isTarget uid process ≠ none := by
  have loops : ∀ views : List View, (∀ view ∈ views, ∃ package ∈ data.packages, package.view = view) →
      data.anyLists process views ≠ none := by
    intro views live
    induction views with
    | nil => exact nofun
    | cons view views ih =>
      rcases live view mem_cons_self with ⟨package, mem, rfl⟩
      have held : data.holds package.view = true :=
        any_eq_true.mpr ⟨package, mem, decide_eq_true rfl⟩
      rcases exists_find_of_mem mem with ⟨found, findEq⟩
      have text : data.find package.view.text = some found := findEq
      rw [anyLists, if_pos held, text]
      dsimp only
      split
      · exact nofun
      · exact ih fun other otherMem => live other (mem_cons_of_mem _ otherMem)
  rw [isTarget]
  split
  · split <;> exact nofun
  · apply loops
    intro view mem
    rcases mem_map.mp mem with ⟨item, itemMem, rfl⟩
    exact integrity item (mem_of_mem_filter itemMem)

end DenyData

/-! ## Only app ids are recorded -/

theorem closed_positive : Closed DenyData.Positive where
  record := by
    intro data appId view isAppId positive item mem
    rcases mem_index_record mem with before | rfl
    · exact positive item before
    · exact isAppId
  forget := by
    intro data appId text positive item mem
    exact positive item (mem_index_forget.mp mem).1
  emplace := by
    intro data pkg proc _ positive item mem
    rw [index_emplace] at mem
    exact positive item mem
  erase := fun _ positive => positive
  eraseProc := fun _ _ positive => positive
  newPackages := fun positive => positive
  newIndex := fun _ => nofun
  clear := fun _ => nofun

/-! ## Requests that keep the integrity -/

namespace DenyData

/-- What a scan has recorded so far: packages that are there and installed. -/
def Scanned (dir : DataDir) (data : DenyData) : Prop :=
  ∀ item ∈ data.index,
    (∃ package ∈ data.packages, package.view = item.2) ∧ dir.appId item.2.text ≠ 0

theorem Scanned.integrity {data : DenyData} (scanned : data.Scanned dir) : data.Integrity :=
  fun item mem => (scanned item mem).1

theorem Scanned.erase {data : DenyData} (scanned : data.Scanned dir) (absent : dir.appId pkg = 0) :
    (data.erase pkg).Scanned dir := by
  have unrecorded : ∀ item ∈ data.index, item.2.text ≠ pkg := by
    rintro item mem rfl
    exact (scanned item mem).2 absent
  have integrity := (scanned.integrity.erase_iff pkg).mpr unrecorded
  exact fun item mem => ⟨integrity item mem, (scanned item mem).2⟩

theorem Scanned.record {data : DenyData} (scanned : data.Scanned dir) (appId : Int)
    (mem : package ∈ data.packages) (installed : dir.appId package.name ≠ 0) :
    (data.record appId package.view).Scanned dir := by
  intro item itemMem
  rw [packages_record]
  rcases mem_index_record itemMem with before | rfl
  · exact scanned item before
  · exact ⟨⟨package, mem, rfl⟩, installed⟩

end DenyData

theorem run_updateAppId (appId : Int) (view : View) (remove : Bool) (data : DenyData) :
    ((updateAppId appId view remove).run data).2 =
      if appId ≤ 0 then data
      else if remove then data.forget appId view.text
      else data.record appId view := by
  rw [updateAppId]
  split
  · rfl
  · split <;> rfl

variable {data : DenyData}

/-- The loop of a scan records packages that are there. -/
theorem scanned_scanLoop {packages : List Package} (scanned : data.Scanned dir)
    (there : ∀ package ∈ packages, dir.appId package.name ≠ 0 → package ∈ data.packages) :
    ((scanLoop dir packages).run data).2.Scanned dir := by
  induction packages generalizing data with
  | nil => exact scanned
  | cons package rest ih =>
    have restThere := fun other mem => there other (mem_cons_of_mem package mem)
    rw [scanLoop]
    split
    · exact ih scanned restThere
    · split
      · rename_i absent
        simp only [run_bind]
        refine ih (scanned.erase absent) ?_
        intro other mem installed
        refine mem_packages_erase.mpr ⟨restThere other mem installed, ?_⟩
        intro same
        exact installed (same ▸ absent)
      · rename_i installed
        have mem := there package mem_cons_self installed
        rw [run_bind, run_updateAppId]
        split
        · exact ih scanned restThere
        · apply ih (scanned.record _ mem installed)
          rw [packages_record]
          exact restThere

theorem run_scanDenyApps (dir : DataDir) (data : DenyData) : ((scanDenyApps dir).run data).2 =
      if data.appIdToPkgs.isNone then data
      else ((scanLoop dir data.packages).run { data with appIdToPkgs := some [] }).2 := by
  rw [scanDenyApps, run_bind, run_look]
  split
  · rfl
  · rfl

/-- A scan keeps the integrity of the index. -/
theorem integrity_scanDenyApps (integrity : data.Integrity) :
    ((scanDenyApps dir).run data).2.Integrity := by
  rw [run_scanDenyApps]
  split
  · exact integrity
  · apply DenyData.Scanned.integrity
    apply scanned_scanLoop
    · exact nofun
    · exact fun package mem _ => mem

/-- The tables that a request works on: those there, or those it loads. -/
def DenyData.loaded (data : DenyData) (load : Load) : DenyData :=
  ((ensureData load).run data).2

theorem run_ensureData (load : Load) (data : DenyData) : data.loaded load =
      if data.pkgToProcs.isSome then data
      else
        let filled := ((addRows load.rows).run { data with pkgToProcs := some [] }).2
        if load.succeeds then
          ((scanDenyApps load.dir).run { filled with appIdToPkgs := some [] }).2
        else { filled with pkgToProcs := none, appIdToPkgs := none } := by
  rw [loaded, ensureData, run_bind, run_look]
  dsimp only
  split
  · rfl
  · simp only [run_bind, run_change]
    split
    · simp only [run_bind, run_change, run_pure]
    · simp only [clearData, run_bind, run_change, run_pure]

theorem DenyData.Integrity.loaded (integrity : data.Integrity) (load : Load) :
    (data.loaded load).Integrity := by
  rw [run_ensureData]
  split
  · exact integrity
  · split
    · apply integrity_scanDenyApps
      exact nofun
    · exact nofun

theorem DenyData.Positive.loaded (positive : data.Positive) (load : Load) :
    (data.loaded load).Positive :=
  (closed_positive.stable_ensureData load).run positive

@[simp]
theorem run_leave (removed : List String) (outcome : Outcome) (data : DenyData) :
    (leave removed outcome).run data = ((removed, outcome), data) :=
  rfl

theorem integrity_addItem (integrity : data.Integrity) :
    ((addItem pkg proc load dir).run data).2.Integrity := by
  have loaded := integrity.loaded load
  simp only [addItem, run_bind, run_acquire]
  rw [DenyData.loaded] at loaded
  generalize (ensureData load).run data = result at loaded ⊢
  rcases result with ⟨⟨there, removed⟩, tables⟩
  split
  · split
    · exact loaded
    · cases listed : tables.lists pkg proc with
      | true =>
        simp only [addHideSet, run_bind, run_exchange, listed]
        exact loaded
      | false =>
        have added : (tables.emplace pkg proc).Integrity :=
          loaded.of_views (DenyData.index_emplace _ _ _)
            fun package mem => DenyData.exists_view_emplace pkg proc mem
        simp only [addHideSet, run_bind, run_exchange, listed, Bool.not_false, if_true]
        split
        · rename_i package found
          rw [run_bind, run_updateAppId]
          split
          · exact added
          · exact added.record _ (DenyData.find_eq_some found).1
        · exact added
  · exact loaded

/-- The removal of a package keeps the integrity exactly if it is recorded under
the app id that the data directory shows, or not at all. -/
theorem integrity_rmPackage_iff (integrity : data.Integrity) (positive : data.Positive) :
    ((rmPackage package dir).run data).2.Integrity ↔
      ∀ item ∈ data.index, item.2.text = package.name → item.1 = dir.getAppId package.name := by
  simp only [rmPackage, run_bind, run_change, run_updateAppId]
  by_cases none : dir.getAppId package.name ≤ 0
  · rw [if_pos none, integrity.erase_iff]
    constructor
    · intro unrecorded item mem same
      exact absurd same (unrecorded item mem)
    · intro recorded item mem same
      have appId := recorded item mem same
      have isPositive := positive item mem
      omega
  · rw [if_neg none, if_pos trivial]
    have forgotten : (data.forget (dir.getAppId package.name) package.view.text).Integrity :=
      fun item mem => integrity item (mem_index_forget.mp mem).1
    rw [forgotten.erase_iff]
    constructor
    · intro unrecorded item mem same
      by_contra other
      apply unrecorded item _ same
      exact mem_index_forget.mpr ⟨mem, fun both => other both.1⟩
    · intro recorded item mem same
      rcases mem_index_forget.mp mem with ⟨before, kept⟩
      exact kept ⟨recorded item before same, same⟩

/-- A removal by `rm_list` that drops the whole package. -/
def DenyData.Drops (data : DenyData) (pkg proc : String) : Prop :=
  ∃ package, data.find pkg = some package ∧ (proc = "" ∨ package.procs = [proc])

/-- Whatever package a request removes, it was recorded under the app id that
the data directory shows now. -/
def Traceable (data : DenyData) : Request → Prop
  | .rmList pkg proc load dir =>
    (data.loaded load).Drops pkg proc →
      ∀ item ∈ (data.loaded load).index, item.2.text = pkg → item.1 = dir.getAppId pkg
  | _ => True

theorem contains_and_erase_eq_nil_iff {procs : List String} :
    procs.contains proc = true ∧ procs.erase proc = [] ↔ procs = [proc] := by
  constructor
  · rintro ⟨contains, nothing⟩
    have length := length_erase_of_mem (contains_iff_mem.mp contains)
    rw [nothing, length_nil] at length
    have mem := contains_iff_mem.mp contains
    have positive := length_pos_of_mem mem
    rcases length_eq_one_iff.mp (by omega : procs.length = 1) with ⟨only, rfl⟩
    rw [mem_singleton.mp mem]
  · rintro rfl
    simp

/-- Tables that could not be loaded hold nothing. -/
theorem find_eq_none_of_failed (failed : ((ensureData load).run data).1.1 = false) (pkg : String) :
    (data.loaded load).find pkg = none := by
  have unloaded : (data.loaded load).pkgToProcs = none := by
    rw [run_ensureData]
    rw [ensureData, run_bind, run_look] at failed
    split at failed
    · cases failed
    · rename_i absent
      split at failed
      · simp only [run_bind] at failed
        cases failed
      · rename_i unsuccessful
        rw [if_neg absent, if_neg unsuccessful]
  rw [find, packages, unloaded]
  rfl

/-- `rm_list` keeps the integrity exactly if its package is traceable. -/
theorem integrity_rmList_iff (integrity : data.Integrity) (positive : data.Positive) :
    ((rmList pkg proc load dir).run data).2.Integrity ↔
      Traceable data (.rmList pkg proc load dir) := by
  have loadedIntegrity := integrity.loaded load
  have loadedPositive := positive.loaded load
  have failing := @find_eq_none_of_failed load data
  rw [Traceable]
  simp only [rmList, run_bind, run_acquire]
  rw [loaded] at loadedIntegrity loadedPositive failing ⊢
  generalize (ensureData load).run data = result at loadedIntegrity loadedPositive failing ⊢
  rcases result with ⟨⟨there, removed⟩, tables⟩
  have notDropped : ∀ {next : DenyData}, next.Integrity → ¬ tables.Drops pkg proc →
      (next.Integrity ↔ (tables.Drops pkg proc → ∀ item ∈ tables.index,
        item.2.text = pkg → item.1 = dir.getAppId pkg)) :=
    fun kept stays => iff_of_true kept fun drops => absurd drops stays
  cases there with
  | false =>
    refine notDropped loadedIntegrity ?_
    rintro ⟨package, found, _⟩
    cases (failing rfl pkg).symm.trans found
  | true =>
    simp only [if_true, run_bind, run_look]
    cases found : tables.find pkg with
    | none =>
      refine notDropped loadedIntegrity ?_
      rintro ⟨package, isFound, _⟩
      cases found.symm.trans isFound
    | some package =>
      rcases find_eq_some found with ⟨_, rfl⟩
      by_cases whole : proc = ""
      · have drops : tables.Drops package.name proc := ⟨package, found, .inl whole⟩
        simp only [if_pos whole, run_bind, run_leave]
        rw [integrity_rmPackage_iff loadedIntegrity loadedPositive]
        exact ⟨fun recorded _ => recorded, fun recorded => recorded drops⟩
      · by_cases listed : package.procs.contains proc = true
        · have shrunk : (tables.eraseProc package.name proc).Integrity :=
            loadedIntegrity.of_views rfl fun other mem => exists_view_eraseProc _ _ mem
          simp only [if_neg whole, if_pos listed, run_bind, run_change]
          by_cases last : package.procs.erase proc = []
          · have drops : tables.Drops package.name proc :=
              ⟨package, found, .inr (contains_and_erase_eq_nil_iff.mp ⟨listed, last⟩)⟩
            simp only [if_pos last, run_bind, run_leave]
            rw [integrity_rmPackage_iff shrunk loadedPositive]
            exact ⟨fun recorded _ => recorded, fun recorded => recorded drops⟩
          · simp only [if_neg last]
            refine notDropped shrunk ?_
            rintro ⟨other, isFound, empty | only⟩
            · exact whole empty
            · cases Option.some.inj (found.symm.trans isFound)
              exact last (contains_and_erase_eq_nil_iff.mpr only).2
        · simp only [if_neg whole, if_neg listed]
          refine notDropped loadedIntegrity ?_
          rintro ⟨other, isFound, empty | only⟩
          · exact whole empty
          · cases Option.some.inj (found.symm.trans isFound)
            exact listed (contains_and_erase_eq_nil_iff.mpr only).1

/-! ## Runs of requests -/

/-- Every package in the index is there, and no lookup faults. -/
structure Sound (data : DenyData) : Prop where
  recorded : data.Integrity
  lookups : ∀ uid process load,
    ((isDenyTarget uid process load).run data).1.2 ≠ .target none

theorem sound_iff : Sound data ↔ data.Integrity := by
  refine ⟨Sound.recorded, fun integrity => ⟨integrity, ?_⟩⟩
  intro uid process load
  have loaded := integrity.loaded load
  simp only [isDenyTarget, run_bind, run_acquire]
  rw [DenyData.loaded] at loaded
  generalize (ensureData load).run data = result at loaded ⊢
  rcases result with ⟨⟨there, removed⟩, tables⟩
  cases there with
  | false => exact nofun
  | true =>
    intro fault
    exact loaded.isTarget_ne_none uid process (Outcome.target.inj fault)

/-- A request keeps the integrity exactly if what it removes is traceable. -/
theorem integrity_program_iff (integrity : data.Integrity) (positive : data.Positive)
    (request : Request) : ((program request).run data).2.Integrity ↔ Traceable data request := by
  have loaded := fun load => integrity.loaded load
  cases request with
  | rmList pkg proc load dir => exact integrity_rmList_iff integrity positive
  | addList pkg proc load dir =>
    refine iff_of_true ?_ trivial
    rw [program, addList]
    split
    · exact integrity_addItem integrity
    · exact integrity
  | lsList load dir =>
    refine iff_of_true ?_ trivial
    have rescanned : ((scanDenyApps dir).run (data.loaded load)).2.Integrity :=
      integrity_scanDenyApps (loaded load)
    simp only [program, lsList, run_bind]
    have kept := loaded load
    split
    · simp only [run_bind]
      exact rescanned
    · exact kept
  | enableDeny enforced mntNs procfs load =>
    refine iff_of_true ?_ trivial
    rw [program, enableDeny]
    split
    · exact integrity
    · split
      · split
        · simp only [run_bind]
          exact loaded load
        · exact integrity
      · exact integrity
  | isDenyTarget uid process load =>
    refine iff_of_true ?_ trivial
    simp only [program, isDenyTarget, run_bind]
    split
    · exact loaded load
    · exact loaded load
  | zygoteRestart dir =>
    refine iff_of_true ?_ trivial
    simp only [program, run_bind]
    exact integrity_scanDenyApps integrity

/-- One request after the other, each with what it reads of the data directory
and of the database. -/
def calls : System DenyData Request where
  initial := {}
  step data request := some ((program request).run data).2

theorem positive_state (execution : Execution calls) (time : Nat) :
    (execution.state time).Positive := by
  have anything : execution.Meets fun _ _ => True := fun _ _ _ => trivial
  refine Execution.invariant anything nofun ?_ time
  intro data request next positive _ stepEq
  rw [← Option.some.inj stepEq]
  exact (closed_positive.stable_program request).run positive

/-- In a run every package in the index is there and no lookup faults, exactly
if every package that is removed was recorded under the app id that the data
directory shows at its removal. -/
theorem sound_iff_traceable (execution : Execution calls) :
    (∀ time, Sound (execution.state time)) ↔ execution.Meets Traceable := by
  apply Execution.forall_iff_meets
  · exact sound_iff.mpr nofun
  · intro time request taken sound
    have next := Option.some.inj (execution.step_eq taken)
    rw [sound_iff, ← next]
    exact integrity_program_iff sound.recorded (positive_state execution time) request

/-- A data directory with one package of user 0. -/
def ownedBy (pkg : String) (uid : UInt32) : DataDir where
  users := [0]
  stUid _ name := if name = pkg then some uid else none

/-- A package is added, reinstalled under another app id and removed: the next
lookup of the old app id reads through a view of a key that is gone. -/
theorem not_sound_reinstalled :
    ¬ ∀ (execution : Execution calls) (time : Nat), Sound (execution.state time) := by
  intro always
  let load : Load := { rows := [], succeeds := true, dir := ownedBy "org.bank" 10061 }
  let execution := Execution.ofLabels calls [.addList "org.bank" "" load (ownedBy "org.bank" 10061),
      .rmList "org.bank" "" load (ownedBy "org.bank" 10062)] rfl
  refine (always execution 2).lookups 10061 "org.bank" load ?_
  decide +kernel

end Magisk.Core.Deny
