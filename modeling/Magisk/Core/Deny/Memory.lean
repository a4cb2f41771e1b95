import Magisk.Core.Deny.Lock
import Magisk.Deferred.Core

/-!
# What the denylist holds in memory

The requests seen from the set of pairs of a package and a process: loading
fills it from rows, a scan drops packages, and the critical sections of
`add_list` and `rm_list` change it exactly as the statement says that they
leave to be executed.
-/

namespace Magisk.Core.Deny

open Statement Interleaving.Program DenyData List Deferred

variable {pkg proc : String} {dir : DataDir} {package : Package} {load : Load}
  {packages : List Package}

/-! ## What the memory holds -/

/-- A package and a process. -/
abbrev Row := String × String

namespace DenyData

/-- The pairs in `pkg_to_procs`. -/
def Held (data : DenyData) : Set Row :=
  { row | ∃ package ∈ data.packages, package.name = row.1 ∧ row.2 ∈ package.procs }

/-- Keys and process names occur once. -/
structure Distinct (data : DenyData) : Prop where
  names : (data.packages.map Package.name).Nodup
  procs : ∀ package ∈ data.packages, package.procs.Nodup

variable {data : DenyData}

theorem held_congr {next : DenyData} (same : next.packages = data.packages) :
    next.Held = data.Held := by
  rw [Held, Held, same]

theorem held_emplace (data : DenyData) (pkg proc : String) :
    (data.emplace pkg proc).Held = insert (pkg, proc) data.Held := by
  ext ⟨name, process⟩
  rw [Set.mem_insert_iff, Prod.mk.injEq]
  cases found : data.find pkg with
  | none =>
    have packages : (data.emplace pkg proc).packages =
        data.packages ++ [⟨data.nextNode, pkg, [proc]⟩] := by
      rw [emplace, found]
      rfl
    constructor
    · rintro ⟨package, mem, named, listed⟩
      rw [packages, mem_append, mem_singleton] at mem
      rcases mem with before | rfl
      · exact .inr ⟨package, before, named, listed⟩
      · exact .inl ⟨named.symm, mem_singleton.mp listed⟩
    · rintro (⟨rfl, rfl⟩ | ⟨package, mem, named, listed⟩)
      · refine ⟨⟨data.nextNode, name, [process]⟩, ?_, rfl, mem_singleton_self _⟩
        rw [packages]
        exact mem_append_right _ (mem_singleton_self _)
      · refine ⟨package, ?_, named, listed⟩
        rw [packages]
        exact mem_append_left _ mem
  | some first =>
    have packages : (data.emplace pkg proc).packages = data.packages.map fun package =>
        if package.name = pkg then { package with procs := package.procs ++ [proc] }
        else package := by
      rw [emplace, found]
      rfl
    constructor
    · rintro ⟨package, mem, named, listed⟩
      rw [packages] at mem
      rcases mem_map.mp mem with ⟨before, beforeMem, rfl⟩
      by_cases same : before.name = pkg
      · rw [if_pos same] at named listed
        rcases mem_append.mp listed with old | new
        · exact .inr ⟨before, beforeMem, named, old⟩
        · exact .inl ⟨named.symm.trans same, mem_singleton.mp new⟩
      · rw [if_neg same] at named listed
        exact .inr ⟨before, beforeMem, named, listed⟩
    · have kept : ∀ package ∈ data.packages, ∀ other,
          other ∈ package.procs ∨ (package.name = pkg ∧ other = proc) →
            ∃ next ∈ (data.emplace pkg proc).packages,
              next.name = package.name ∧ other ∈ next.procs := by
        intro package mem other listed
        rw [packages]
        refine ⟨_, mem_map_of_mem mem, ?_⟩
        by_cases same : package.name = pkg
        · rw [if_pos same]
          refine ⟨rfl, mem_append.mpr ?_⟩
          rcases listed with old | ⟨_, rfl⟩
          · exact .inl old
          · exact .inr (mem_singleton_self _)
        · rw [if_neg same]
          rcases listed with old | ⟨isPkg, _⟩
          · exact ⟨rfl, old⟩
          · exact absurd isPkg same
      rcases find_eq_some found with ⟨firstMem, firstNamed⟩
      rintro (⟨rfl, rfl⟩ | ⟨package, mem, named, listed⟩)
      · rcases kept first firstMem process (.inr ⟨firstNamed, rfl⟩) with
          ⟨next, nextMem, nextNamed, nextListed⟩
        exact ⟨next, nextMem, nextNamed.trans firstNamed, nextListed⟩
      · rcases kept package mem process (.inl listed) with
          ⟨next, nextMem, nextNamed, nextListed⟩
        exact ⟨next, nextMem, nextNamed.trans named, nextListed⟩

theorem held_erase (data : DenyData) (pkg : String) :
    (data.erase pkg).Held = { row | row ∈ data.Held ∧ row.1 ≠ pkg } := by
  ext row
  constructor
  · rintro ⟨package, mem, named, listed⟩
    rcases mem_packages_erase.mp mem with ⟨before, distinct⟩
    exact ⟨⟨package, before, named, listed⟩, named ▸ distinct⟩
  · rintro ⟨⟨package, mem, named, listed⟩, distinct⟩
    exact ⟨package, mem_packages_erase.mpr ⟨mem, named ▸ distinct⟩, named, listed⟩

theorem held_eraseProc (distinct : data.Distinct) (pkg proc : String) :
    (data.eraseProc pkg proc).Held = { row | row ∈ data.Held ∧ row ≠ (pkg, proc) } := by
  ext ⟨name, process⟩
  constructor
  · rintro ⟨package, mem, named, listed⟩
    rcases mem_map.mp mem with ⟨before, beforeMem, rfl⟩
    by_cases same : before.name = pkg
    · rw [if_pos same] at named listed
      rcases (distinct.procs before beforeMem).mem_erase_iff.mp listed with ⟨other, old⟩
      refine ⟨⟨before, beforeMem, named, old⟩, ?_⟩
      intro equal
      exact other (congrArg Prod.snd equal)
    · rw [if_neg same] at named listed
      refine ⟨⟨before, beforeMem, named, listed⟩, ?_⟩
      intro equal
      exact same (named.trans (congrArg Prod.fst equal))
  · rintro ⟨⟨package, mem, named, listed⟩, other⟩
    refine ⟨_, mem_map_of_mem mem, ?_⟩
    by_cases same : package.name = pkg
    · rw [if_pos same]
      refine ⟨named, (distinct.procs package mem).mem_erase_iff.mpr ⟨?_, listed⟩⟩
      intro equal
      apply other
      rw [Prod.mk.injEq]
      exact ⟨named.symm.trans same, equal⟩
    · rw [if_neg same]
      exact ⟨named, listed⟩

end DenyData

namespace DenyData

variable {data : DenyData}

theorem find_eq_none (absent : data.find pkg = none) : pkg ∉ data.packages.map Package.name := by
  intro mem
  rcases mem_map.mp mem with ⟨package, packageMem, rfl⟩
  rcases exists_find_of_mem packageMem with ⟨found, isFound⟩
  cases absent.symm.trans isFound

theorem Distinct.find_of_mem (distinct : data.Distinct) (mem : package ∈ data.packages) :
    data.find package.name = some package := by
  rcases exists_find_of_mem mem with ⟨found, isFound⟩
  rcases find_eq_some isFound with ⟨foundMem, named⟩
  rw [isFound, inj_on_of_nodup_map distinct.names foundMem mem named]

theorem Distinct.lists_iff (distinct : data.Distinct) :
    data.lists pkg proc = true ↔ (pkg, proc) ∈ data.Held := by
  rw [lists]
  constructor
  · intro listed
    split at listed
    · rename_i package found
      rcases find_eq_some found with ⟨mem, named⟩
      exact ⟨package, mem, named, contains_iff_mem.mp listed⟩
    · cases listed
  · rintro ⟨package, mem, named, listed⟩
    have found := distinct.find_of_mem mem
    rw [named] at found
    rw [found]
    exact contains_iff_mem.mpr listed

end DenyData

open DenyData (Distinct)

variable {data : DenyData}

/-- Changing the processes of packages keeps their names distinct. -/
theorem nodup_names_map (distinct : data.Distinct) {change : Package → Package}
    (keeps : ∀ package, (change package).name = package.name) :
    ((data.packages.map change).map Package.name).Nodup := by
  have same : Package.name ∘ change = Package.name := funext keeps
  rw [map_map, same]
  exact distinct.names

theorem distinct_emplace (unlisted : data.lists pkg proc = false) (distinct : data.Distinct) :
    (data.emplace pkg proc).Distinct := by
  rw [lists] at unlisted
  rw [emplace]
  split
  · rename_i first found
    rw [found] at unlisted
    constructor
    · apply nodup_names_map distinct
      intro package
      split <;> rfl
    · intro package mem
      rcases mem_map.mp mem with ⟨before, beforeMem, rfl⟩
      have nodup := distinct.procs before beforeMem
      split
      · rename_i named
        have same := distinct.find_of_mem beforeMem
        rw [named, found, Option.some.injEq] at same
        subst same
        have fresh : proc ∉ first.procs := by
          intro listed
          cases unlisted.symm.trans (contains_iff_mem.mpr listed)
        exact Nodup.append nodup (nodup_singleton _) (by simpa using fresh)
      · exact nodup
  · rename_i absent
    constructor
    · change ((data.packages ++ [_]).map Package.name).Nodup
      rw [map_append]
      exact Nodup.append distinct.names (nodup_singleton _) (by simpa using find_eq_none absent)
    · intro package mem
      rcases mem_append.mp mem with before | last
      · exact distinct.procs package before
      · rw [mem_singleton.mp last]
        exact nodup_singleton proc

/-- Every request keeps keys and process names distinct. -/
theorem closed_distinct : Closed Distinct where
  record := by
    intro data appId view _ distinct
    constructor
    · rw [packages_record]
      exact distinct.names
    · rw [packages_record]
      exact distinct.procs
  forget := fun _ _ distinct => ⟨distinct.names, distinct.procs⟩
  emplace := distinct_emplace
  erase := by
    intro data pkg distinct
    constructor
    · exact distinct.names.sublist (filter_sublist.map Package.name)
    · exact fun package mem => distinct.procs package (mem_packages_erase.mp mem).1
  eraseProc := by
    intro data pkg proc distinct
    constructor
    · apply nodup_names_map distinct
      intro package
      split <;> rfl
    · intro package mem
      rcases mem_map.mp mem with ⟨before, beforeMem, rfl⟩
      have nodup := distinct.procs before beforeMem
      split
      · exact nodup.erase proc
      · exact nodup
  newPackages := fun _ => ⟨nodup_nil, nofun⟩
  newIndex := fun distinct => ⟨distinct.names, distinct.procs⟩
  clear := fun _ => ⟨nodup_nil, nofun⟩

/-! ## What the requests do to the memory -/

theorem packages_updateAppId (appId : Int) (view : View) (remove : Bool) (data : DenyData) :
    ((updateAppId appId view remove).run data).2.packages = data.packages := by
  rw [run_updateAppId]
  split
  · rfl
  · split
    · rfl
    · exact packages_record data appId view

theorem held_addHideSet (distinct : data.Distinct) (pkg proc : String) :
    ((addHideSet pkg proc).run data).2.Held = insert (pkg, proc) data.Held := by
  rw [addHideSet, run_exchange]
  split
  · rename_i listed
    exact (Set.insert_eq_of_mem (distinct.lists_iff.mp listed)).symm
  · exact held_emplace data pkg proc

variable {rows : List Row} {table : Set Row} {row : Row}

theorem held_addRows (distinct : data.Distinct) :
    ((addRows rows).run data).2.Held = data.Held ∪ { row | row ∈ rows } := by
  induction rows generalizing data with
  | nil =>
    simp [addRows]
  | cons row rows ih =>
    rw [addRows, run_bind, ih ((closed_distinct.stable_addHideSet _ _).run distinct),
      held_addHideSet distinct]
    ext other
    simp only [Set.mem_union, Set.mem_insert_iff, Set.mem_ofPred_eq, mem_cons]
    tauto

/-- A scan drops the packages that it reports. -/
theorem held_scanLoop : ((scanLoop dir packages).run data).2.Held =
      { row | row ∈ data.Held ∧ row.1 ∉ ((scanLoop dir packages).run data).1 } := by
  induction packages generalizing data with
  | nil =>
    simp [scanLoop]
  | cons package rest ih =>
    rw [scanLoop]
    split
    · exact ih
    · split
      · simp only [run_bind, run_change, run_pure]
        rw [ih, held_erase]
        simp only [Set.mem_ofPred_eq, mem_cons, not_or, and_assoc]
      · rw [run_bind, ih, held_congr (packages_updateAppId _ _ _ data)]

theorem held_scanDenyApps : ((scanDenyApps dir).run data).2.Held =
      { row | row ∈ data.Held ∧ row.1 ∉ ((scanDenyApps dir).run data).1 } := by
  rw [scanDenyApps, run_bind, run_look]
  split
  · simp
  · simp only [run_bind]
    rw [held_scanLoop]
    rfl

/-- What loading does to the memory. -/
theorem ensureData_cases (load : Load) (data : DenyData) :
    (data.pkgToProcs.isSome = true ∧ (ensureData load).run data = ((true, []), data)) ∨
      (data.pkgToProcs.isSome = false ∧ load.succeeds = true ∧
        ((ensureData load).run data).1.1 = true ∧
        ((ensureData load).run data).2.pkgToProcs.isSome = true ∧
        ((ensureData load).run data).2.Held =
          { row | row ∈ load.rows ∧ row.1 ∉ ((ensureData load).run data).1.2 }) ∨
      (data.pkgToProcs.isSome = false ∧ ((ensureData load).run data).1 = (false, []) ∧
        ((ensureData load).run data).2.pkgToProcs.isSome = false) := by
  cases there : data.pkgToProcs.isSome with
  | true =>
    left
    simp only [ensureData, run_bind, run_look, there, if_true, run_pure]
    exact ⟨trivial, trivial⟩
  | false =>
    right
    have filled : ((addRows load.rows).run { data with pkgToProcs := some [] }).2.Held =
        { row | row ∈ load.rows } := by
      have nothing : ({ data with pkgToProcs := some [] } : DenyData).Distinct :=
        ⟨nodup_nil, forall_mem_nil _⟩
      rw [held_addRows nothing]
      ext row
      constructor
      · rintro (⟨package, mem, _⟩ | listed)
        · cases mem
        · exact listed
      · exact fun listed => .inr listed
    have filledThere : ((addRows load.rows).run
        { data with pkgToProcs := some [] }).2.pkgToProcs.isSome = true :=
      isSome_pkgToProcs_addRows rfl
    simp only [ensureData, run_bind, run_look, there, Bool.false_eq_true, if_false, run_change]
    generalize (addRows load.rows).run { data with pkgToProcs := some [] } = result
      at filled filledThere ⊢
    cases load.succeeds with
    | true =>
      left
      have scanned : DenyData.HalfBuilt [] ((scanDenyApps load.dir).run
          { result.2 with appIdToPkgs := some [] }).2 :=
        halfBuilt_scanDenyApps filledThere rfl
      have emptied : ({ result.2 with appIdToPkgs := some [] } : DenyData).Held = result.2.Held :=
        held_congr rfl
      simp only [if_true, run_bind, run_change, run_pure]
      refine ⟨trivial, trivial, trivial, scanned.packagesThere, ?_⟩
      rw [held_scanDenyApps, emptied, filled]
      rfl
    | false =>
      right
      simp only [Bool.false_eq_true, if_false, run_bind, run_pure]
      exact ⟨trivial, trivial, rfl⟩

/-! ## Statements -/

/-- What a statement does to the table. -/
def Statement.apply (table : Set Row) : Statement → Set Row
  | .insert pkg proc => Insert.insert (pkg, proc) table
  | .deletePackage pkg => { row | row ∈ table ∧ row.1 ≠ pkg }
  | .deleteProc pkg proc => { row | row ∈ table ∧ row ≠ (pkg, proc) }

/-- A row can only be inserted once. -/
def Statement.Possible (table : Set Row) : Statement → Prop
  | .insert pkg proc => (pkg, proc) ∉ table
  | _ => True

/-- The statements as operations on the table. -/
def operations : Operations (Set Row) Statement where
  apply := Statement.apply
  possible := Statement.Possible

/-- Whether the order of two statements matters. -/
def Statement.conflicts : Statement → Statement → Bool
  | .insert pkg proc, .insert pkg' proc' => (pkg, proc) = (pkg', proc')
  | .insert pkg _, .deletePackage pkg' => pkg = pkg'
  | .insert pkg proc, .deleteProc pkg' proc' => (pkg, proc) = (pkg', proc')
  | .deletePackage pkg, .insert pkg' _ => pkg = pkg'
  | .deleteProc pkg proc, .insert pkg' proc' => (pkg, proc) = (pkg', proc')
  | _, _ => false

/-- The rows that a statement adds. -/
def Statement.Adds (row : Row) : Statement → Prop
  | .insert pkg proc => row = (pkg, proc)
  | _ => False

/-- The rows that a statement removes. -/
def Statement.Removes (row : Row) : Statement → Prop
  | .insert _ _ => False
  | .deletePackage pkg => row.1 = pkg
  | .deleteProc pkg proc => row = (pkg, proc)

variable {statement first second : Statement}

theorem Statement.mem_apply : row ∈ statement.apply table ↔
      statement.Adds row ∨ (row ∈ table ∧ ¬ statement.Removes row) := by
  cases statement with
  | insert pkg proc =>
    exact or_congr_right (and_iff_left not_false).symm
  | deletePackage pkg => exact (or_iff_right id).symm
  | deleteProc pkg proc => exact (or_iff_right id).symm

theorem Statement.possible_iff :
    statement.Possible table ↔ ∀ row, statement.Adds row → row ∉ table := by
  cases statement with
  | insert pkg proc => exact ⟨fun absent row same => same ▸ absent, fun all => all _ rfl⟩
  | deletePackage pkg => exact iff_of_true trivial nofun
  | deleteProc pkg proc => exact iff_of_true trivial nofun

/-- Statements that do not conflict touch different rows. -/
theorem Statement.apart_of_not_conflicts (apart : first.conflicts second = false) (row : Row) :
    (first.Adds row → ¬ second.Removes row) ∧ (second.Adds row → ¬ first.Removes row) ∧
      ¬ (first.Adds row ∧ second.Adds row) := by
  cases first <;> cases second <;>
    simp only [conflicts] at apart <;>
    simp only [Statement.Adds, Statement.Removes] <;>
    grind

/-- Statements that do not conflict are independent. -/
theorem independent_of_not_conflicts (apart : first.conflicts second = false) :
    operations.Independent first second := by
  have rows := apart_of_not_conflicts apart
  constructor
  · intro table
    ext row
    change row ∈ second.apply (first.apply table) ↔ row ∈ first.apply (second.apply table)
    rw [mem_apply, mem_apply, mem_apply, mem_apply]
    have disjoint := rows row
    tauto
  · intro table possible
    change second.Possible table
    have absent := possible_iff.mp possible
    rw [possible_iff]
    intro row adds mem
    exact absent row adds (mem_apply.mpr (.inr ⟨mem, (rows row).2.1 adds⟩))
  · intro table possible
    change first.Possible (second.apply table)
    have absent := possible_iff.mp possible
    rw [possible_iff]
    intro row adds mem
    rcases mem_apply.mp mem with alsoAdds | ⟨before, _⟩
    · exact (rows row).2.2 ⟨adds, alsoAdds⟩
    · exact absent row adds before

/-- How a critical section leaves the memory: changed as its statement says. -/
structure Section (before after : DenyData) (outcome : Outcome) : Prop where
  there : after.pkgToProcs.isSome = before.pkgToProcs.isSome
  unchanged : (∀ statement, outcome ≠ .exec statement) → after.Held = before.Held
  executes : ∀ statement, outcome = .exec statement →
    statement.Possible before.Held ∧ after.Held = statement.apply before.Held

theorem Section.respond (data : DenyData) {outcome : Outcome}
    (responds : ∀ statement, outcome ≠ .exec statement) : Section data data outcome :=
  ⟨rfl, fun _ => rfl, fun statement same => absurd same (responds statement)⟩

theorem Section.exec {before after : DenyData}
    (there : after.pkgToProcs.isSome = before.pkgToProcs.isSome)
    (possible : statement.Possible before.Held)
    (applied : after.Held = statement.apply before.Held) :
    Section before after (.exec statement) where
  there := there
  unchanged := fun responds => absurd rfl (responds statement)
  executes := by
    rintro _ ⟨⟩
    exact ⟨possible, applied⟩

/-- The critical section of `add_list`. -/
theorem section_addItem (distinct : data.Distinct) :
    ((addItem pkg proc load dir).run data).1.1 = ((ensureData load).run data).1.2 ∧
      Section (data.loaded load) ((addItem pkg proc load dir).run data).2
        ((addItem pkg proc load dir).run data).1.2 ∧
      ∀ statement, ((addItem pkg proc load dir).run data).1.2 = .exec statement →
        statement = .insert pkg proc ∧ ((ensureData load).run data).1.1 = true := by
  have loaded : (data.loaded load).Distinct := (closed_distinct.stable_ensureData load).run distinct
  have there := @isSome_pkgToProcs_loaded load data
  simp only [addItem, run_bind, run_acquire]
  rw [DenyData.loaded] at loaded there ⊢
  generalize (ensureData load).run data = result at loaded there ⊢
  rcases result with ⟨⟨succeeded, removed⟩, tables⟩
  cases succeeded with
  | false => exact ⟨rfl, Section.respond tables (by simp), by simp⟩
  | true =>
    by_cases installed : dir.getAppId pkg = 0
    · rw [if_pos installed]
      exact ⟨rfl, Section.respond tables (by simp), by simp⟩
    · rw [if_neg installed]
      cases listed : tables.lists pkg proc with
      | true =>
        simp only [addHideSet, run_bind, run_exchange, listed, Bool.not_true,
          if_true, Bool.false_eq_true, if_false, run_leave]
        exact ⟨trivial, Section.respond tables (by simp), by simp⟩
      | false =>
        rcases DenyData.exists_find_emplace tables pkg proc with ⟨package, found⟩
        simp only [addHideSet, run_bind, run_exchange, listed, Bool.not_false,
          if_true, Bool.false_eq_true, if_false, run_look, found, run_leave]
        refine ⟨trivial, Section.exec ?_ ?_ ?_, ?_⟩
        · rw [run_updateAppId]
          split
          · rw [isSome_pkgToProcs_emplace, there rfl]
          · rw [if_neg (by decide), DenyData.pkgToProcs_record, isSome_pkgToProcs_emplace,
              there rfl]
        · intro held
          cases listed.symm.trans (loaded.lists_iff.mpr held)
        · rw [DenyData.held_congr (packages_updateAppId _ _ _ _), DenyData.held_emplace]
          rfl
        · rintro statement ⟨⟩
          exact ⟨rfl, trivial⟩

theorem held_rmPackage (package : Package) (dir : DataDir) (data : DenyData) :
    ((rmPackage package dir).run data).2.Held =
      { row | row ∈ data.Held ∧ row.1 ≠ package.name } := by
  simp only [rmPackage, run_bind, run_change]
  rw [held_erase, held_congr (packages_updateAppId _ _ _ data)]

theorem isSome_pkgToProcs_rmPackage (package : Package) (dir : DataDir) (data : DenyData) :
    ((rmPackage package dir).run data).2.pkgToProcs.isSome = true := by
  simp only [rmPackage, run_bind]
  rfl

/-- A package with one process is in one pair. -/
theorem DenyData.Distinct.eq_of_held (distinct : data.Distinct) (mem : package ∈ data.packages)
    (only : package.procs = [proc]) (held : row ∈ data.Held) (named : row.1 = package.name) :
    row = (package.name, proc) := by
  rcases held with ⟨other, otherMem, otherNamed, listed⟩
  cases inj_on_of_nodup_map distinct.names otherMem mem (otherNamed.trans named)
  rw [only] at listed
  exact Prod.ext named (mem_singleton.mp listed)

/-- The statement of a removal. -/
def rmStatement (pkg proc : String) : Statement :=
  if proc = "" then .deletePackage pkg else .deleteProc pkg proc

/-- The critical section of `rm_list`. -/
theorem section_rmList (distinct : data.Distinct) :
    ((rmList pkg proc load dir).run data).1.1 = ((ensureData load).run data).1.2 ∧
      Section (data.loaded load) ((rmList pkg proc load dir).run data).2
        ((rmList pkg proc load dir).run data).1.2 ∧
      ∀ statement, ((rmList pkg proc load dir).run data).1.2 = .exec statement →
        statement = rmStatement pkg proc ∧ ((ensureData load).run data).1.1 = true := by
  have loaded : (data.loaded load).Distinct := (closed_distinct.stable_ensureData load).run distinct
  have there := @isSome_pkgToProcs_loaded load data
  simp only [rmList, run_bind, run_acquire]
  rw [DenyData.loaded] at loaded there ⊢
  generalize (ensureData load).run data = result at loaded there ⊢
  rcases result with ⟨⟨succeeded, removed⟩, tables⟩
  cases succeeded with
  | false => exact ⟨rfl, Section.respond tables (by simp), by simp⟩
  | true =>
    simp only [if_true, run_bind, run_look]
    cases found : tables.find pkg with
    | none => exact ⟨rfl, Section.respond tables (by simp), by simp⟩
    | some package =>
      rcases DenyData.find_eq_some found with ⟨mem, rfl⟩
      by_cases whole : proc = ""
      · simp only [if_pos whole, run_bind, run_leave]
        refine ⟨trivial, Section.exec ?_ trivial (held_rmPackage package dir tables), ?_⟩
        · rw [isSome_pkgToProcs_rmPackage, there rfl]
        · rintro statement ⟨⟩
          exact ⟨(if_pos whole).symm, trivial⟩
      · by_cases listed : package.procs.contains proc = true
        · have shrunk := DenyData.held_eraseProc loaded package.name proc
          simp only [if_neg whole, if_pos listed, run_bind, run_change]
          by_cases last : package.procs.erase proc = []
          · simp only [if_pos last, run_bind, run_leave]
            refine ⟨trivial, Section.exec ?_ trivial ?_, ?_⟩
            · rw [isSome_pkgToProcs_rmPackage, there rfl]
            · rw [held_rmPackage, shrunk]
              ext row
              refine ⟨fun kept => kept.1, fun kept => ⟨kept, fun named => kept.2 ?_⟩⟩
              have only := contains_and_erase_eq_nil_iff.mp ⟨listed, last⟩
              exact loaded.eq_of_held mem only kept.1 named
            · rintro statement ⟨⟩
              exact ⟨(if_neg whole).symm, trivial⟩
          · simp only [if_neg last, run_leave]
            refine ⟨trivial, Section.exec (there rfl).symm trivial shrunk, ?_⟩
            rintro statement ⟨⟩
            exact ⟨(if_neg whole).symm, trivial⟩
        · simp only [if_neg whole, if_neg listed, run_leave]
          exact ⟨trivial, Section.respond tables (by simp), by simp⟩

/-- A scan reports packages of the table. -/
theorem mem_of_mem_scanLoop (mem : pkg ∈ ((scanLoop dir packages).run data).1) :
    ∃ package ∈ packages, package.name = pkg := by
  induction packages generalizing data with
  | nil => cases mem
  | cons package rest ih =>
    have later : ∀ {next : DenyData}, pkg ∈ ((scanLoop dir rest).run next).1 →
        ∃ other ∈ package :: rest, other.name = pkg := by
      intro next inRest
      rcases ih inRest with ⟨other, otherMem, named⟩
      exact ⟨other, mem_cons_of_mem package otherMem, named⟩
    rw [scanLoop] at mem
    split at mem
    · exact later mem
    · split at mem
      · simp only [run_bind, run_pure, mem_cons] at mem
        rcases mem with rfl | inRest
        · exact ⟨package, mem_cons_self, rfl⟩
        · exact later inRest
      · rw [run_bind] at mem
        exact later mem

theorem mem_packages_addRows (mem : package ∈ ((addRows rows).run data).2.packages) :
    (∃ before ∈ data.packages, before.name = package.name) ∨ ∃ row ∈ rows, row.1 = package.name := by
  induction rows generalizing data with
  | nil => exact .inl ⟨package, mem, rfl⟩
  | cons row rows ih =>
    rw [addRows, run_bind] at mem
    rcases ih mem with ⟨before, beforeMem, named⟩ | ⟨other, otherMem, named⟩
    · rw [addHideSet, run_exchange] at beforeMem
      split at beforeMem
      · exact .inl ⟨before, beforeMem, named⟩
      · rcases mem_packages_emplace beforeMem with same | ⟨first, firstMem, same⟩
        · exact .inr ⟨row, mem_cons_self, same.symm.trans named⟩
        · exact .inl ⟨first, firstMem, same.trans named⟩
    · exact .inr ⟨other, mem_cons_of_mem row otherMem, named⟩

/-- Loading deletes packages of the rows it has read. -/
theorem mem_rows_of_removed (mem : pkg ∈ ((ensureData load).run data).1.2) :
    data.pkgToProcs.isSome = false ∧ ∃ row ∈ load.rows, row.1 = pkg := by
  cases there : data.pkgToProcs.isSome with
  | true =>
    simp only [ensureData, run_bind, run_look, there] at mem
    cases mem
  | false =>
    refine ⟨rfl, ?_⟩
    simp only [ensureData, run_bind, run_look, there, Bool.false_eq_true, if_false] at mem
    split at mem
    · simp only [run_bind] at mem
      rcases mem_of_mem_scanLoop mem with ⟨package, packageMem, rfl⟩
      rcases mem_packages_addRows packageMem with ⟨before, beforeMem, _⟩ | listed
      · cases beforeMem
      · exact listed
    · cases mem

end Magisk.Core.Deny
