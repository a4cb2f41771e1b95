import Magisk.Bytes.Core

/-!
# Loops over the modules

`for_each_module` calls a function for every module directory and ends at the first
one for which it fails.  Disabling, removing and collecting the modules go through
it, so a module that fails takes away from the modules behind it in the directory
what would have happened to them.
-/

namespace Magisk.Core.Module

open List Bytes

/-! ## Modules -/

/-- An entry of the module directory, and which operations in it fail. -/
structure ModuleDir where
  name : List UInt8
  isDir : Bool
  /-- The paths in it that `contains_path` finds. -/
  files : List String
  /-- `open_as_dir` succeeds. -/
  opens : Bool
  /-- Creating the marker `disable` succeeds. -/
  creates : Bool
  /-- What is left if `remove_all` fails. -/
  leftover : Option (List String)
  /-- Unlinking a path in it succeeds. -/
  unlinks : String → Bool
  /-- Unlinking the directory itself succeeds. -/
  unlinksDir : Bool
  /-- The descriptor of a file in it, or -1. -/
  openFd : String → Int32

/-- `for_each_module` calls its function for this entry; entries whose names are not
UTF-8 are skipped by `Directory::read`. -/
def ModuleDir.isModule (entry : ModuleDir) : Bool :=
  (fromUtf8 entry.name).isSome && entry.isDir && entry.name ≠ utf8 ".core"

/-- `ModuleInfo`. -/
structure ModuleInfo where
  name : List UInt8
  z32 : Int32
  z64 : Int32
  deriving DecidableEq, Repr

/-- What happened to an entry: the paths that are left in it, unless it is gone,
whether its uninstall script was run, and what is listed for it. -/
structure Outcome where
  files : Option (List String)
  ran : Bool := false
  info : Option ModuleInfo := none
  deriving DecidableEq, Repr

/-- Nothing happened. -/
def ModuleDir.untouched (entry : ModuleDir) : Outcome :=
  ⟨some entry.files, false, none⟩

/-- `for_each_module`, with a function that says what it does to an entry and
whether it succeeds: what happened to each entry. -/
def forEachModule (func : ModuleDir → Outcome × Bool) : List ModuleDir → List Outcome
  | [] => []
  | entry :: rest =>
    if entry.isModule then
      match func entry with
      | (outcome, true) => outcome :: forEachModule func rest
      | (outcome, false) => outcome :: rest.map ModuleDir.untouched
    else
      entry.untouched :: forEachModule func rest

/-! ## The three functions -/

/-- Add a path. -/
def addPath (path : String) (files : List String) : List String :=
  if path ∈ files then files else path :: files

/-- Remove a path, if that works. -/
def ModuleDir.unlinkAt (entry : ModuleDir) (path : String) (files : List String) : List String :=
  if entry.unlinks path then files.filter (· ≠ path) else files

/-- The function of `disable_modules`. -/
def disableModule (entry : ModuleDir) : Outcome × Bool :=
  if !entry.opens then (entry.untouched, false)
  else if !entry.creates then (entry.untouched, false)
  else (⟨some (addPath "disable" entry.files), false, none⟩, true)

/-- The function of `remove_modules`. -/
def removeModule (entry : ModuleDir) : Outcome × Bool :=
  if !entry.opens then (entry.untouched, false)
  else (⟨some entry.files, entry.files.contains "uninstall.sh", none⟩, true)

/-- The architectures. -/
inductive Arch where
  | arm
  | aarch64
  | x86
  | x8664
  | riscv64
  deriving DecidableEq, Repr

/-- The two libraries of a module, as far as the architecture has them. -/
def Arch.libraries : Arch → Option String × Option String
  | .arm => (some "zygisk/armeabi-v7a.so", none)
  | .aarch64 => (some "zygisk/armeabi-v7a.so", some "zygisk/arm64-v8a.so")
  | .x86 => (some "zygisk/x86.so", none)
  | .x8664 => (some "zygisk/x86.so", some "zygisk/x86_64.so")
  | .riscv64 => (none, some "zygisk/riscv64.so")

/-- What `collect_modules` does with a module that is marked for removal. -/
def ModuleDir.removed (entry : ModuleDir) : Outcome × Bool :=
  let ran := entry.files.contains "uninstall.sh"
  match entry.leftover with
  | some left => (⟨some left, ran, none⟩, false)
  | none => if entry.unlinksDir then (⟨none, ran, none⟩, true) else (⟨some [], ran, none⟩, false)

/-- What `collect_modules` does with a module that is enabled. -/
def ModuleDir.collected (entry : ModuleDir) (arch : Arch) (zygiskEnabled openZygisk : Bool)
    (files : List String) : Outcome :=
  let isZygisk := files.contains "zygisk"
  if zygiskEnabled then
    if entry.name = utf8 "riru-core" || files.contains "riru" then ⟨some files, false, none⟩
    else if openZygisk && isZygisk then
      let fd := fun library : Option String => (library.map entry.openFd).getD (-1)
      ⟨some (entry.unlinkAt "zygisk/unloaded" files), false,
        some ⟨entry.name, fd arch.libraries.1, fd arch.libraries.2⟩⟩
    else ⟨some files, false, some ⟨entry.name, -1, -1⟩⟩
  else if isZygisk then ⟨some files, false, none⟩
  else ⟨some files, false, some ⟨entry.name, -1, -1⟩⟩

/-- The function of `collect_modules`. -/
def collectModule (arch : Arch) (zygiskEnabled openZygisk : Bool) (entry : ModuleDir) :
    Outcome × Bool :=
  if !entry.opens then (entry.untouched, false)
  else if entry.files.contains "remove" then entry.removed
  else
    let files := entry.unlinkAt "update" entry.files
    if files.contains "disable" then (⟨some files, false, none⟩, true)
    else (entry.collected arch zygiskEnabled openZygisk files, true)

/-- `convert_to_memfd`, given the descriptors of the memory files that can be
filled; after a failure it is not tried again. -/
def convertToMemfd (memfd : Int32 → Option Int32) (useMemfd : Bool) (fd : Int32) :
    Int32 × Bool :=
  if fd < 0 then (fd, useMemfd)
  else if useMemfd then
    match memfd fd with
    | some converted => (converted, true)
    | none => (fd, false)
  else (fd, false)

/-- Convert the descriptors of all modules. -/
def convertAll (memfd : Int32 → Option Int32) : Bool → List ModuleInfo → List ModuleInfo
  | _, [] => []
  | useMemfd, info :: rest =>
    let (z32, useMemfd) := convertToMemfd memfd useMemfd info.z32
    let (z64, useMemfd) := convertToMemfd memfd useMemfd info.z64
    { info with z32, z64 } :: convertAll memfd useMemfd rest

/-- `disable_modules`. -/
def disableModules (modules : List ModuleDir) : List Outcome :=
  forEachModule disableModule modules

/-- `remove_modules`, before the module directory itself is removed. -/
def removeModules (modules : List ModuleDir) : List Outcome :=
  forEachModule removeModule modules

section Collect

variable (arch : Arch) (memfd : Int32 → Option Int32) (zygiskEnabled openZygisk : Bool)

/-- What `collect_modules` does to the entries. -/
def collectOutcomes (modules : List ModuleDir) : List Outcome :=
  forEachModule (collectModule arch zygiskEnabled openZygisk) modules

/-- `collect_modules`. -/
def collectModules (modules : List ModuleDir) : List ModuleInfo :=
  let infos := (collectOutcomes arch zygiskEnabled openZygisk modules).filterMap Outcome.info
  if zygiskEnabled && openZygisk then convertAll memfd true infos else infos

end Collect

/-! ## What one module leaves to the others -/

section Loop

variable {func : ModuleDir → Outcome × Bool}

/-- Every module for which the function succeeds gets what the function does to
it. -/
def Isolated (func : ModuleDir → Outcome × Bool) (modules : List ModuleDir) : Prop :=
  ∀ entry outcome, (entry, outcome) ∈ modules.zip (forEachModule func modules) →
    entry.isModule = true → (func entry).2 = true → outcome = (func entry).1

/-- Behind a module for which the function fails stand only entries for which it
fails too, or to which it does nothing. -/
def Harmless (func : ModuleDir → Outcome × Bool) (modules : List ModuleDir) : Prop :=
  ∀ before entry after, modules = before ++ entry :: after → entry.isModule = true →
    (func entry).2 = false → ∀ other ∈ after, other.isModule = true → (func other).2 = true →
      (func other).1 = other.untouched

theorem mem_zip_map {α β : Type} {f : α → β} {list : List α} {a : α} {b : β} :
    (a, b) ∈ list.zip (list.map f) ↔ a ∈ list ∧ b = f a := by
  induction list with
  | nil => simp
  | cons first rest ih =>
    rw [map_cons, zip_cons_cons, mem_cons, mem_cons, ih, Prod.mk.injEq]
    constructor
    · rintro (⟨rfl, rfl⟩ | ⟨mem, same⟩)
      · exact ⟨Or.inl rfl, rfl⟩
      · exact ⟨Or.inr mem, same⟩
    · rintro ⟨rfl | mem, same⟩
      · exact Or.inl ⟨rfl, same⟩
      · exact Or.inr ⟨mem, same⟩

variable {entry : ModuleDir}

theorem harmless_cons_of_fails (isModule : entry.isModule = true) (fails : (func entry).2 = false)
    (rest : List ModuleDir) :
    Harmless func (entry :: rest) ↔ ∀ other ∈ rest, other.isModule = true → (func other).2 = true →
        (func other).1 = other.untouched := by
  constructor
  · intro harmless other mem
    exact harmless [] entry rest rfl isModule fails other mem
  · intro idle before failing after split _ _ other mem
    cases before with
    | nil =>
      cases split
      exact idle other mem
    | cons first before =>
      cases split
      exact idle other (mem_append_right _ (mem_cons_of_mem _ mem))

theorem harmless_cons_of_passes (passes : entry.isModule = true → (func entry).2 = true)
    (rest : List ModuleDir) : Harmless func (entry :: rest) ↔ Harmless func rest := by
  constructor
  · intro harmless before failing after split
    exact harmless (entry :: before) failing after (by rw [split]; rfl)
  · intro harmless before failing after split isModule fails
    cases before with
    | nil =>
      cases split
      rw [passes isModule] at fails
      cases fails
    | cons first before =>
      cases split
      exact harmless before failing after rfl isModule fails

theorem isolated_cons {outcome : Outcome} {rest : List ModuleDir} {outcomes : List Outcome}
    (result : forEachModule func (entry :: rest) = outcome :: outcomes) :
    Isolated func (entry :: rest) ↔
      (entry.isModule = true → (func entry).2 = true → outcome = (func entry).1) ∧
        ∀ other otherOutcome, (other, otherOutcome) ∈ rest.zip outcomes →
          other.isModule = true → (func other).2 = true → otherOutcome = (func other).1 := by
  unfold Isolated
  rw [result]
  constructor
  · intro all
    exact ⟨all entry outcome mem_cons_self,
      fun other otherOutcome mem => all other otherOutcome (mem_cons_of_mem _ mem)⟩
  · rintro ⟨first, others⟩ other otherOutcome mem
    rcases mem_cons.mp mem with same | mem
    · cases same
      exact first
    · exact others other otherOutcome mem

/-- The modules keep apart exactly if failing ones stand behind all others that have
something to do. -/
theorem isolated_iff_harmless (modules : List ModuleDir) :
    Isolated func modules ↔ Harmless func modules := by
  induction modules with
  | nil =>
    refine iff_of_true (fun _ _ mem => absurd mem not_mem_nil) ?_
    intro before entry after split
    cases before <;> cases split
  | cons entry rest ih =>
    cases isModule : entry.isModule with
    | false =>
      have result : forEachModule func (entry :: rest) =
          entry.untouched :: forEachModule func rest := by
        rw [forEachModule, if_neg (by rw [isModule]; decide)]
      have passes : entry.isModule = true → (func entry).2 = true := by
        intro other
        rw [isModule] at other
        cases other
      rw [isolated_cons result, harmless_cons_of_passes passes, ← ih]
      refine and_iff_right_of_imp fun _ other => ?_
      rw [isModule] at other
      cases other
    | true =>
      rcases effect : func entry with ⟨outcome, succeeds⟩
      cases succeeds with
      | true =>
        have result : forEachModule func (entry :: rest) = outcome :: forEachModule func rest := by
          rw [forEachModule, if_pos isModule, effect]
        have passes : entry.isModule = true → (func entry).2 = true := by
          intro _
          rw [effect]
        rw [isolated_cons result, harmless_cons_of_passes passes, ← ih]
        refine and_iff_right_of_imp fun _ _ _ => ?_
        rw [effect]
      | false =>
        have result : forEachModule func (entry :: rest) =
            outcome :: rest.map ModuleDir.untouched := by
          rw [forEachModule, if_pos isModule, effect]
        have fails : (func entry).2 = false := by
          rw [effect]
        rw [isolated_cons result, harmless_cons_of_fails isModule fails]
        constructor
        · rintro ⟨_, others⟩ other mem isOther succeeds
          exact (others other _ (mem_zip_map.mpr ⟨mem, rfl⟩) isOther succeeds).symm
        · intro idle
          refine ⟨fun _ succeeds => ?_, fun other otherOutcome mem isOther succeeds => ?_⟩
          · rw [fails] at succeeds
            cases succeeds
          · rcases mem_zip_map.mp mem with ⟨otherMem, rfl⟩
            exact (idle other otherMem isOther succeeds).symm

end Loop

/-! ## Disabling, removing and collecting -/

/-- The module is neither marked for removal nor disabled. -/
def ModuleDir.enabled (entry : ModuleDir) : Bool :=
  !entry.files.contains "remove" && !entry.files.contains "disable"

/-- The module goes together with zygisk, or does without it. -/
def ModuleDir.compatible (zygiskEnabled : Bool) (entry : ModuleDir) : Bool :=
  if zygiskEnabled then entry.name ≠ utf8 "riru-core" && !entry.files.contains "riru"
  else !entry.files.contains "zygisk"

section Collected

variable {arch : Arch} {zygiskEnabled openZygisk : Bool}

theorem contains_unlinkAt {entry : ModuleDir} {path other : String} (ne : other ≠ path)
    (files : List String) : (entry.unlinkAt path files).contains other = files.contains other := by
  unfold ModuleDir.unlinkAt
  split
  · rw [Bool.eq_iff_iff, contains_iff_mem, contains_iff_mem, mem_filter]
    exact and_iff_left (decide_eq_true ne)
  · rfl

theorem info_collected (entry : ModuleDir) (files : List String)
    (sameRiru : files.contains "riru" = entry.files.contains "riru")
    (sameZygisk : files.contains "zygisk" = entry.files.contains "zygisk") :
    ((entry.collected arch zygiskEnabled openZygisk files).info.map ModuleInfo.name) =
      if entry.compatible zygiskEnabled then some entry.name else none := by
  unfold ModuleDir.collected ModuleDir.compatible
  rw [sameRiru, sameZygisk]
  cases zygiskEnabled with
  | true =>
    by_cases riru : entry.name = utf8 "riru-core"
    · simp [riru]
    · cases entry.files.contains "riru" with
      | true => simp [riru]
      | false => cases openZygisk <;> cases entry.files.contains "zygisk" <;> simp [riru]
  | false => cases entry.files.contains "zygisk" <;> simp

/-- A module is listed exactly if collecting it succeeds and it is enabled and
compatible. -/
theorem info_collectModule (entry : ModuleDir) :
    ((collectModule arch zygiskEnabled openZygisk entry).1.info.map ModuleInfo.name) =
      if (collectModule arch zygiskEnabled openZygisk entry).2 && entry.enabled &&
        entry.compatible zygiskEnabled then some entry.name else none := by
  unfold collectModule ModuleDir.enabled
  cases entry.opens with
  | false => simp [ModuleDir.untouched]
  | true =>
    cases remove : entry.files.contains "remove" with
    | true =>
      unfold ModuleDir.removed
      cases entry.leftover with
      | some left => rfl
      | none => cases entry.unlinksDir <;> rfl
    | false =>
      simp only [Bool.not_true, contains_unlinkAt (show "disable" ≠ "update" by decide)]
      cases entry.files.contains "disable" with
      | true => simp
      | false =>
        simpa using info_collected entry _ (contains_unlinkAt (show "riru" ≠ "update" by decide) _)
          (contains_unlinkAt (show "zygisk" ≠ "update" by decide) _)

theorem names_convertAll (memfd : Int32 → Option Int32) (useMemfd : Bool)
    (infos : List ModuleInfo) :
    (convertAll memfd useMemfd infos).map ModuleInfo.name = infos.map ModuleInfo.name := by
  induction infos generalizing useMemfd with
  | nil => rfl
  | cons info rest ih =>
    rw [convertAll, map_cons, map_cons, ih]

/-- The name under which a module is to be listed. -/
def listedName (arch : Arch) (zygiskEnabled openZygisk : Bool) (entry : ModuleDir) :
    Option (List UInt8) :=
  if entry.isModule && (collectModule arch zygiskEnabled openZygisk entry).2 && entry.enabled &&
    entry.compatible zygiskEnabled then some entry.name else none

theorem listedName_eq (entry : ModuleDir) : listedName arch zygiskEnabled openZygisk entry =
      if entry.isModule then
        (collectModule arch zygiskEnabled openZygisk entry).1.info.map ModuleInfo.name
      else none := by
  rw [info_collectModule, listedName]
  cases entry.isModule <;> simp

theorem names_untouched (modules : List ModuleDir) :
    (modules.map ModuleDir.untouched).filterMap (fun outcome => outcome.info.map ModuleInfo.name) =
      [] := by
  rw [filterMap_eq_nil_iff]
  intro outcome mem
  rcases mem_map.mp mem with ⟨entry, _, rfl⟩
  rfl

/-- If the modules keep apart, those are listed that are to be. -/
theorem names_collectOutcomes {modules : List ModuleDir}
    (harmless : Harmless (collectModule arch zygiskEnabled openZygisk) modules) :
    (collectOutcomes arch zygiskEnabled openZygisk modules).filterMap
        (fun outcome => outcome.info.map ModuleInfo.name) =
      modules.filterMap (listedName arch zygiskEnabled openZygisk) := by
  unfold collectOutcomes
  induction modules with
  | nil => rfl
  | cons entry rest ih =>
    have own : listedName arch zygiskEnabled openZygisk entry = _ := listedName_eq entry
    cases isModule : entry.isModule with
    | false =>
      rw [isModule] at own
      rw [harmless_cons_of_passes (by rw [isModule]; nofun)] at harmless
      rw [forEachModule, if_neg (by rw [isModule]; decide), filterMap_cons, filterMap_cons, own]
      exact ih harmless
    | true =>
      rw [isModule, if_pos rfl] at own
      rcases effect : collectModule arch zygiskEnabled openZygisk entry with ⟨outcome, succeeds⟩
      rw [effect] at own
      rw [forEachModule, if_pos isModule, effect]
      cases succeeds with
      | true =>
        rw [harmless_cons_of_passes (fun _ => by rw [effect])] at harmless
        rw [filterMap_cons, filterMap_cons, own, ih harmless]
      | false =>
        have fails : (collectModule arch zygiskEnabled openZygisk entry).2 = false := by
          rw [effect]
        have notListed : listedName arch zygiskEnabled openZygisk entry = none := by
          rw [listedName, fails]
          simp
        rw [harmless_cons_of_fails isModule fails] at harmless
        rw [filterMap_cons, filterMap_cons, ← own, notListed, names_untouched]
        apply Eq.symm
        rw [filterMap_eq_nil_iff]
        intro other mem
        by_cases passes : other.isModule = true ∧
            (collectModule arch zygiskEnabled openZygisk other).2 = true
        · rw [listedName_eq, if_pos passes.1, harmless other mem passes.1 passes.2]
          rfl
        · rw [listedName, if_neg]
          simp only [Bool.and_eq_true]
          exact fun listed => passes listed.1.1

end Collected

/-- Failing modules change nothing for the others: these get their marker, their
script is run, they are listed, and nothing else happens to them. -/
structure KeepsApart (arch : Arch) (memfd : Int32 → Option Int32) (zygiskEnabled openZygisk : Bool)
    (modules : List ModuleDir) : Prop where
  disabled : ∀ entry outcome, (entry, outcome) ∈ modules.zip (disableModules modules) →
    entry.isModule = true → (disableModule entry).2 = true →
      ∃ files, outcome.files = some files ∧ "disable" ∈ files
  uninstalled : ∀ entry outcome, (entry, outcome) ∈ modules.zip (removeModules modules) →
    entry.isModule = true → (removeModule entry).2 = true → "uninstall.sh" ∈ entry.files →
      outcome.ran = true
  listed : (collectModules arch memfd zygiskEnabled openZygisk modules).map ModuleInfo.name =
    (modules.filter fun entry => entry.isModule &&
      (collectModule arch zygiskEnabled openZygisk entry).2 && entry.enabled &&
        entry.compatible zygiskEnabled).map ModuleDir.name
  undisturbed : Isolated disableModule modules ∧ Isolated removeModule modules ∧
    Isolated (collectModule arch zygiskEnabled openZygisk) modules

/-- Failing modules change nothing for the others exactly if, for each of the three
functions, they stand behind all modules that it would change, run or list. -/
theorem keepsApart_iff_harmless (arch : Arch) (memfd : Int32 → Option Int32)
    (zygiskEnabled openZygisk : Bool) (modules : List ModuleDir) :
    KeepsApart arch memfd zygiskEnabled openZygisk modules ↔
      Harmless disableModule modules ∧ Harmless removeModule modules ∧
        Harmless (collectModule arch zygiskEnabled openZygisk) modules := by
  rw [← isolated_iff_harmless, ← isolated_iff_harmless, ← isolated_iff_harmless]
  constructor
  · exact fun apart => apart.undisturbed
  · intro isolated
    refine ⟨fun entry outcome mem isModule succeeds => ?_,
      fun entry outcome mem isModule succeeds script => ?_, ?_, isolated⟩
    · rw [isolated.1 entry outcome mem isModule succeeds]
      unfold disableModule at succeeds ⊢
      split at succeeds
      · cases succeeds
      · split at succeeds
        · cases succeeds
        · rename_i opens creates
          rw [if_neg opens, if_neg creates]
          refine ⟨_, rfl, ?_⟩
          unfold addPath
          split
          · assumption
          · exact mem_cons_self
    · rw [isolated.2.1 entry outcome mem isModule succeeds]
      unfold removeModule at succeeds ⊢
      split at succeeds
      · cases succeeds
      · rename_i opens
        rw [if_neg opens]
        exact contains_iff_mem.mpr script
    · have names := names_collectOutcomes ((isolated_iff_harmless modules).mp isolated.2.2)
      have listed : (collectModules arch memfd zygiskEnabled openZygisk modules).map
          ModuleInfo.name = (collectOutcomes arch zygiskEnabled openZygisk modules).filterMap
            fun outcome => outcome.info.map ModuleInfo.name := by
        rw [← map_filterMap]
        unfold collectModules
        split
        · exact names_convertAll memfd true _
        · rfl
      rw [listed, names]
      rw [← filterMap_eq_map, filterMap_filter]
      rfl

/-- A module that can be opened, without any files. -/
def plainModule (name : String) (opens : Bool) (files : List String) : ModuleDir :=
  ⟨utf8 name, true, files, opens, true, none, fun _ => true, true, fun _ => -1⟩

/-- A module that cannot be opened stands before one with an uninstall script. -/
theorem not_keepsApart_unopened :
    let modules := [plainModule "a" false [], plainModule "b" true ["uninstall.sh"]]
    disableModules modules = [⟨some [], false, none⟩, ⟨some ["uninstall.sh"], false, none⟩] ∧
      removeModules modules = [⟨some [], false, none⟩, ⟨some ["uninstall.sh"], false, none⟩] ∧
      collectModules .aarch64 (fun _ => none) true true modules = [] ∧
      ¬ KeepsApart .aarch64 (fun _ => none) true true modules := by
  refine ⟨by decide +kernel, by decide +kernel, by decide +kernel, fun apart => ?_⟩
  have ran := apart.uninstalled (plainModule "b" true ["uninstall.sh"])
    ⟨some ["uninstall.sh"], false, none⟩ ?_ (by decide +kernel) rfl mem_cons_self
  · cases ran
  · have removed : removeModules [plainModule "a" false [], plainModule "b" true ["uninstall.sh"]] =
        [⟨some [], false, none⟩, ⟨some ["uninstall.sh"], false, none⟩] := by
      decide +kernel
    rw [removed]
    exact mem_cons_of_mem _ mem_cons_self

end Magisk.Core.Module
