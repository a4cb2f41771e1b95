import Magisk.Boot.Cpio.Compare

/-!
# The backup directory

What a backup puts below `.backup/`, with and without compression, and what `restore`
makes of an archive that carries it.  Nothing is assumed about the names: two original
entries may be kept under one name, in which case the later one stays.
-/

namespace Magisk.Boot.Cpio

open Std (ExtTreeMap)
open Std.ExtTreeMap List Bytes Text

variable {name : String} {entry : CpioEntry} {saved : Saved} {named : String × CpioEntry}
  {list : List (String × CpioEntry)}

/-! ## What the two folds collect -/

/-- The entry an action adds to the backup directory. -/
def Action.item (xz : Xz) (skipCompress : Bool) : Action → Option (String × CpioEntry)
  | .backup name entry => some (storedAs xz skipCompress name entry)
  | _ => none

/-- The name an action adds to the removal list. -/
def Action.recorded : Action → Option String
  | .record name => some name
  | _ => none

theorem foldl_apply (xz : Xz) (skipCompress : Bool) (list : List Action) (saved : Saved) :
    list.foldl (Saved.apply xz skipCompress) saved =
      { backups := saved.backups.insertMany (list.filterMap (Action.item xz skipCompress))
        rmList := saved.rmList ++ terminated (Char.ofNat 0) (list.filterMap Action.recorded) } := by
  induction list generalizing saved with
  | nil => simp [terminated]
  | cons action list ih =>
    rw [foldl_cons, ih]
    cases action with
    | backup name entry =>
      simp only [Saved.apply, Action.recorded, filterMap_cons, Saved.mk.injEq, and_true]
      exact insertMany_cons.symm
    | record name =>
      have one := terminated_append (Char.ofNat 0) [name] (list.filterMap Action.recorded)
      rw [terminated_singleton, singleton_append] at one
      simp only [Saved.apply, Action.recorded, filterMap_cons, one, String.append_assoc]
      rfl
    | noop => simp only [Saved.apply, Action.item, Action.recorded, filterMap_cons]

/-- The entry `restore` takes out of one member of the backup directory. -/
def restoredItem (xz : Xz) (named : String × CpioEntry) : Option (String × CpioEntry) :=
  if named.1 = ".backup/.rmlist" ∨ named.1 = ".backup/.magisk" then none
  else some (restoredAs xz named.1 named.2)

theorem extract_of_ne {xz : Xz} (other : named.1 ≠ ".backup/.rmlist") :
    (saved.extract xz named).rmList = saved.rmList := by
  unfold Saved.extract
  simp only [if_neg other]
  split <;> rfl

theorem foldl_extract_rmList_of_notMem {xz : Xz}
    (absent : ∀ named ∈ list, named.1 ≠ ".backup/.rmlist") :
    (list.foldl (Saved.extract xz) saved).rmList = saved.rmList := by
  induction list generalizing saved with
  | nil => rfl
  | cons named list ih =>
    rw [foldl_cons, ih fun other mem => absent other (mem_cons_of_mem named mem),
      extract_of_ne (absent named mem_cons_self)]

theorem foldl_extract_backups (xz : Xz) (list : List (String × CpioEntry)) (saved : Saved) :
    (list.foldl (Saved.extract xz) saved).backups =
      saved.backups.insertMany (list.filterMap (restoredItem xz)) := by
  induction list generalizing saved with
  | nil => rfl
  | cons named list ih =>
    obtain ⟨name, entry⟩ := named
    rw [foldl_cons, ih]
    by_cases isList : name = ".backup/.rmlist"
    · simp only [Saved.extract, isList, if_true]
      split <;> rfl
    · by_cases isMagisk : name = ".backup/.magisk"
      · simp [Saved.extract, isMagisk, restoredItem]
      · simp only [Saved.extract, isList, isMagisk, restoredItem, filterMap_cons, ne_eq]
        exact insertMany_cons.symm

/-- A removal list stored once is read back as it is. -/
theorem foldl_extract_rmList_of_mem {xz : Xz} {text : String}
    (distinct : list.Pairwise fun a b => ¬ compare a.1 b.1 = .eq)
    (mem : (".backup/.rmlist", entry) ∈ list) (decoded : fromUtf8 entry.data = some text) :
    (list.foldl (Saved.extract xz) saved).rmList = saved.rmList ++ text := by
  obtain ⟨before, after, rfl⟩ := append_of_mem mem
  rw [pairwise_append, pairwise_cons] at distinct
  obtain ⟨_, ⟨afterDistinct, _⟩, beforeDistinct⟩ := distinct
  have afterFree : ∀ named ∈ after, named.1 ≠ ".backup/.rmlist" := by
    intro named namedMem equal
    exact afterDistinct named namedMem (compare_eq_iff_eq.mpr equal.symm)
  have beforeFree : ∀ named ∈ before, named.1 ≠ ".backup/.rmlist" := by
    intro named namedMem equal
    exact beforeDistinct named namedMem _ mem_cons_self (compare_eq_iff_eq.mpr equal)
  rw [foldl_append, foldl_cons, foldl_extract_rmList_of_notMem afterFree]
  simp [Saved.extract, decoded, foldl_extract_rmList_of_notMem beforeFree]

/-! ## What is saved and what is new -/

/-- An original entry that is missing or has other contents now. -/
def Saves (original current : Entries) (name : String) (entry : CpioEntry) : Prop :=
  original[name]? = some entry ∧ ∀ other, current[name]? = some other → other.data ≠ entry.data

theorem Saves.unique {original current : Entries} {other : CpioEntry}
    (saves : Saves original current name entry) (otherSaves : Saves original current name other) :
    entry = other :=
  Option.some.inj (saves.1.symm.trans otherSaves.1)

/-- No entry is, or lies below, the backup directory. -/
def NoBackup (entries : Entries) : Prop :=
  ∀ name ∈ entries, name ≠ ".backup" ∧ startsWith name ".backup/" = false

theorem NoBackup.rm_eq_self {cpio : Cpio} (noBackup : NoBackup cpio.entries) :
    cpio.rm ".backup" true = cpio := by
  have normal : normPath ".backup" = ".backup" := by decide
  apply Cpio.ext
  apply ExtTreeMap.ext_getElem?
  intro name
  rw [getElem?_rm_recursive, normal]
  by_cases present : name ∈ cpio.entries
  · obtain ⟨outside, notBelow⟩ := noBackup name present
    have below : ".backup" ++ "/" = ".backup/" := by decide
    rw [if_neg]
    rintro (equal | starts)
    · exact outside equal.symm
    · rw [below, notBelow] at starts
      contradiction
  · rw [ExtTreeMap.getElem?_eq_none present, ite_self]

theorem startsWith_storedAs (xz : Xz) (skipCompress : Bool) (name : String) (entry : CpioEntry) :
    startsWith (storedAs xz skipCompress name entry).1 ".backup/" = true := by
  unfold storedAs
  split
  · rw [String.append_assoc]
    exact startsWith_append _ _
  · exact startsWith_append _ _

theorem storedAs_skip (xz : Xz) (name : String) (entry : CpioEntry) :
    storedAs xz true name entry = (".backup/" ++ name, entry) :=
  rfl

section Directory

variable {xz : Xz} {skipCompress : Bool} {original current : Entries} {c o : Cpio}

/-- Names recorded by comparing two archives. -/
def newNames (original current : Entries) : List String :=
  (actions original.toList current.toList).filterMap Action.recorded

theorem mem_newNames_iff : name ∈ newNames original current ↔
      (∃ entry, current[name]? = some entry) ∧ original[name]? = none := by
  rw [← record_mem_actions_toList_iff, newNames, mem_filterMap]
  constructor
  · rintro ⟨action, mem, recorded⟩
    cases action with
    | record other =>
      cases recorded
      exact mem
    | backup other entry => cases recorded
    | noop => cases recorded
  · intro mem
    exact ⟨_, mem, rfl⟩

theorem mem_of_mem_newNames (mem : name ∈ newNames original current) : name ∈ current := by
  obtain ⟨⟨entry, found⟩, _⟩ := mem_newNames_iff.mp mem
  exact mem_iff_isSome_getElem?.mpr (by rw [found]; rfl)

theorem notMem_of_mem_newNames (mem : name ∈ newNames original current) : name ∉ original := by
  rw [mem_iff_isSome_getElem?, (mem_newNames_iff.mp mem).2]
  exact Bool.false_ne_true

theorem ne_of_saves (saves : Saves original current name entry) :
    current[name]?.map CpioEntry.data ≠ original[name]?.map CpioEntry.data := by
  rw [saves.1]
  cases found : current[name]? with
  | none => nofun
  | some other => exact fun same => saves.2 other found (Option.some.inj same)

theorem ne_of_new (isNew : name ∈ newNames original current) :
    current[name]?.map CpioEntry.data ≠ original[name]?.map CpioEntry.data := by
  obtain ⟨⟨entry, found⟩, absent⟩ := mem_newNames_iff.mp isNew
  rw [found, absent]
  nofun

/-- A name that is missing, new or has other contents is saved or recorded. -/
theorem saves_or_new_of_ne
    (differs : current[name]?.map CpioEntry.data ≠ original[name]?.map CpioEntry.data) :
    (∃ entry, Saves original current name entry) ∨ name ∈ newNames original current := by
  rw [mem_newNames_iff]
  cases originalFound : original[name]? with
  | none =>
    cases currentFound : current[name]? with
    | none => exact absurd (by rw [originalFound, currentFound]) differs
    | some other => exact Or.inr ⟨⟨other, rfl⟩, rfl⟩
  | some entry =>
    refine Or.inl ⟨entry, originalFound, fun other otherFound same => differs ?_⟩
    rw [originalFound, otherFound, Option.map_some, Option.map_some, same]

/-- Entries stored by comparing two archives. -/
def storedItems (xz : Xz) (skipCompress : Bool) (original current : Entries) :
    List (String × CpioEntry) :=
  (actions original.toList current.toList).filterMap (Action.item xz skipCompress)

theorem mem_storedItems_iff : named ∈ storedItems xz skipCompress original current ↔
      ∃ name entry, Saves original current name entry ∧
        storedAs xz skipCompress name entry = named := by
  rw [storedItems, mem_filterMap]
  constructor
  · rintro ⟨action, mem, stored⟩
    cases action with
    | backup name entry =>
      cases stored
      exact ⟨name, entry, backup_mem_actions_toList_iff.mp mem, rfl⟩
    | record name => cases stored
    | noop => cases stored
  · rintro ⟨name, entry, saves, rfl⟩
    exact ⟨_, backup_mem_actions_toList_iff.mpr saves, rfl⟩

/-- The backup directory made of two archives, before the removal list. -/
def storedEntries (xz : Xz) (skipCompress : Bool) (original current : Entries) : Entries :=
  ((∅ : Entries).insert ".backup" (plainEntry sIfdir [])).insertMany
    (storedItems xz skipCompress original current)

/-- The backup directory made of two archives. -/
def directory (xz : Xz) (skipCompress : Bool) (original current : Entries) : Entries :=
  Saved.directory ⟨storedEntries xz skipCompress original current,
    terminated (Char.ofNat 0) (newNames original current)⟩

theorem backupAgainst_eq (outsideC : NoBackup c.entries) (outsideO : NoBackup o.entries) :
    backupAgainst xz c o skipCompress =
      ⟨c.entries.insertMany (directory xz skipCompress o.entries c.entries).toList⟩ := by
  rw [backupAgainst, outsideC.rm_eq_self, outsideO.rm_eq_self]
  simp only [foldl_apply]
  rfl

/-- The removal list of two archives. -/
def rmEntry (original current : Entries) : CpioEntry :=
  plainEntry sIfreg (utf8 (terminated (Char.ofNat 0) (newNames original current)))

theorem getElem?_directory (name : String) : (directory xz skipCompress original current)[name]? =
      if name = ".backup/.rmlist" ∧ newNames original current ≠ [] then
        some (rmEntry original current)
      else
        (storedEntries xz skipCompress original current)[name]? := by
  simp only [directory, Saved.directory, ne_eq, terminated_eq_empty_iff]
  by_cases noNew : newNames original current = []
  · simp [noNew]
  · rw [if_pos noNew, ExtTreeMap.getElem?_insert]
    by_cases isList : name = ".backup/.rmlist"
    · simp [isList, noNew, rmEntry]
    · simp [isList, Ne.symm isList]

theorem storedEntries_cases
    (found : (storedEntries xz skipCompress original current)[name]? = some entry) :
    name = ".backup" ∨ (name, entry) ∈ storedItems xz skipCompress original current := by
  rcases Map.mem_or_of_getElem?_insertMany_eq_some found with mem | initial
  · exact Or.inr mem
  · by_cases equal : ".backup" = name
    · exact Or.inl equal.symm
    · simp [equal] at initial

theorem exists_storedEntries (mem : named ∈ storedItems xz skipCompress original current) :
    ∃ last, (storedEntries xz skipCompress original current)[named.1]? = some last ∧
      (named.1, last) ∈ storedItems xz skipCompress original current :=
  Map.exists_getElem?_insertMany_eq_some _ mem

/-- Everything in the backup directory besides its root and the removal list is
a kept original entry. -/
theorem exists_storedAs_of_directory
    (found : (directory xz skipCompress original current)[name]? = some entry)
    (notRoot : name ≠ ".backup")
    (notList : ¬ (name = ".backup/.rmlist" ∧ newNames original current ≠ [])) :
    ∃ originalName originalEntry, Saves original current originalName originalEntry ∧
      storedAs xz skipCompress originalName originalEntry = (name, entry) := by
  rw [getElem?_directory, if_neg notList] at found
  rcases storedEntries_cases found with isRoot | mem
  · exact absurd isRoot notRoot
  · exact mem_storedItems_iff.mp mem

/-- The place of a saved entry holds it, or another one stored there later. -/
theorem exists_directory_storedAs (saves : Saves original current name entry)
    (notList : (storedAs xz skipCompress name entry).1 ≠ ".backup/.rmlist") :
    ∃ other otherEntry, Saves original current other otherEntry ∧
      (storedAs xz skipCompress other otherEntry).1 = (storedAs xz skipCompress name entry).1 ∧
      (directory xz skipCompress original current)[(storedAs xz skipCompress name entry).1]? =
        some (storedAs xz skipCompress other otherEntry).2 := by
  rw [getElem?_directory, if_neg fun both => notList both.1]
  have listed : storedAs xz skipCompress name entry ∈
      storedItems xz skipCompress original current :=
    mem_storedItems_iff.mpr ⟨name, entry, saves, rfl⟩
  obtain ⟨last, lastFound, lastMem⟩ := exists_storedEntries listed
  obtain ⟨other, otherEntry, otherSaves, stored⟩ := mem_storedItems_iff.mp lastMem
  refine ⟨other, otherEntry, otherSaves, ?_, ?_⟩
  · rw [stored]
  · rw [stored, lastFound]

/-- Names outside the backup directory are not touched by a backup. -/
theorem getElem?_directory_of_outside (notRoot : name ≠ ".backup")
    (notBelow : startsWith name ".backup/" = false) :
    (directory xz skipCompress original current)[name]? = none := by
  have notList : name ≠ ".backup/.rmlist" := by
    rintro rfl
    exact absurd notBelow (by decide)
  rw [Option.eq_none_iff_forall_ne_some]
  intro entry found
  obtain ⟨originalName, originalEntry, _, stored⟩ :=
    exists_storedAs_of_directory found notRoot fun both => notList both.1
  have below := startsWith_storedAs xz skipCompress originalName originalEntry
  rw [stored, notBelow] at below
  contradiction

/-! ## Archives that carry a backup -/

/-- `archive` agrees with the backup of `current` against `original`, except
possibly for the directory itself and its `.magisk` member. -/
structure Carries (xz : Xz) (skipCompress : Bool) (original current archive : Entries) : Prop where
  below : ∀ name, startsWith name ".backup/" = true → name ≠ ".backup/.magisk" →
    archive[name]? = (directory xz skipCompress original current)[name]?
  outside : ∀ name, name ≠ ".backup" → startsWith name ".backup/" = false →
    archive[name]? = current[name]?

theorem carries_backup (noBackup : NoBackup current) : Carries xz skipCompress original current
      (current.insertMany (directory xz skipCompress original current).toList) := by
  constructor
  · intro name starts _
    have absent : name ∉ current := by
      intro present
      rw [(noBackup name present).2] at starts
      contradiction
    rw [Map.getElem?_insertMany_toList, getElem?_eq_none absent, Option.or_none]
  · intro name notRoot notBelow
    rw [Map.getElem?_insertMany_toList, getElem?_directory_of_outside notRoot notBelow,
      Option.none_or]

/-- A backup never fails on a loaded original, and its result carries the directory. -/
theorem backup_carries (xz : Xz) (skipCompress : Bool) {origin : List UInt8}
    (loaded : loadFromData origin = .ok o) (outsideC : NoBackup c.entries)
    (outsideO : NoBackup o.entries) :
    ∃ saved : Cpio, backup xz c origin skipCompress = .ok saved ∧
      Carries xz skipCompress o.entries c.entries saved.entries := by
  refine ⟨backupAgainst xz c o skipCompress, ?_, ?_⟩
  · rw [backup, loaded]
    rfl
  · rw [backupAgainst_eq outsideC outsideO]
    exact carries_backup outsideC

/-- Adding or replacing `.backup/.magisk` does not disturb the backup. -/
theorem Carries.insert_magisk {archive : Entries}
    (carries : Carries xz skipCompress original current archive) (entry : CpioEntry) :
    Carries xz skipCompress original current (archive.insert ".backup/.magisk" entry) := by
  constructor
  · intro name starts other
    rw [ExtTreeMap.getElem?_insert, if_neg (by simpa using other.symm)]
    exact carries.below name starts other
  · intro name notRoot notBelow
    have other : ".backup/.magisk" ≠ name := by
      rintro rfl
      exact absurd notBelow (by decide)
    rw [ExtTreeMap.getElem?_insert, if_neg (by simpa using other)]
    exact carries.outside name notRoot notBelow

theorem mem_extracted_iff {archive : Entries} : (name, entry) ∈ extracted archive ↔
      archive[name]? = some entry ∧ startsWith name ".backup/" = true := by
  rw [extracted, mem_filter, mem_toList_iff_getElem?_eq_some]

/-- What `restore` collects from an archive. -/
def collected (xz : Xz) (archive : Entries) : Saved :=
  (extracted archive).foldl (Saved.extract xz) ⟨∅, ""⟩

namespace Carries

variable {archive : Entries}

section

variable (carries : Carries xz skipCompress original current archive)

include carries

/-- Whatever is brought back was saved, under a name that is not reserved. -/
theorem exists_saves_of_collected (found : (collected xz archive).backups[name]? = some entry) :
    ∃ savedName savedEntry, Saves original current savedName savedEntry ∧
      (storedAs xz skipCompress savedName savedEntry).1 ≠ ".backup/.rmlist" ∧
      (storedAs xz skipCompress savedName savedEntry).1 ≠ ".backup/.magisk" ∧
      restoredAs xz (storedAs xz skipCompress savedName savedEntry).1
        (storedAs xz skipCompress savedName savedEntry).2 = (name, entry) := by
  rw [collected, foldl_extract_backups] at found
  rcases Map.mem_or_of_getElem?_insertMany_eq_some found with mem | initial
  · obtain ⟨⟨keptName, kept⟩, inArchive, restored⟩ := mem_filterMap.mp mem
    obtain ⟨inArchive, starts⟩ := mem_extracted_iff.mp inArchive
    unfold restoredItem at restored
    split at restored
    · contradiction
    · rename_i notSpecial
      obtain ⟨notList, notMagisk⟩ := not_or.mp notSpecial
      have notRoot : keptName ≠ ".backup" := by
        rintro rfl
        exact absurd starts (by decide)
      rw [carries.below keptName starts notMagisk] at inArchive
      obtain ⟨savedName, savedEntry, saves, stored⟩ :=
        exists_storedAs_of_directory inArchive notRoot fun both => notList both.1
      refine ⟨savedName, savedEntry, saves, ?_⟩
      rw [stored]
      exact ⟨notList, notMagisk, Option.some.inj restored⟩
  · cases initial

/-- Outside the backup directory an archive is what it was before the backup. -/
theorem getElem?_kept (noBackup : NoBackup current) (name : String) :
    (rm ⟨archive.filter fun name _ => !startsWith name ".backup/"⟩ ".backup" false).entries[name]? =
      current[name]? := by
  have normal : normPath ".backup" = ".backup" := by decide
  rw [getElem?_rm, normal, getElem?_filter']
  by_cases isRoot : ".backup" = name
  · have absent : name ∉ current := fun present => (noBackup name present).1 isRoot.symm
    rw [if_pos isRoot, getElem?_eq_none absent]
  · rw [if_neg isRoot]
    cases below : startsWith name ".backup/" with
    | false =>
      rw [← carries.outside name (Ne.symm isRoot) below]
      cases archive[name]? <;> rfl
    | true =>
      have absent : name ∉ current := by
        intro present
        rw [(noBackup name present).2] at below
        contradiction
      rw [getElem?_eq_none absent]
      cases archive[name]? <;> rfl

/-- What `restore` leaves of an archive that carries a backup. -/
theorem getElem?_restore (noBackup : NoBackup current) (name : String) :
    (restore xz ⟨archive⟩).entries[name]? =
      if (collected xz archive).rmList = "" ∧ (collected xz archive).backups.isEmpty then none
      else (collected xz archive).backups[name]?.or
        (if name ∈ ((split (Char.ofNat 0) (collected xz archive).rmList).filter (· ≠ "")).map normPath
          then none else current[name]?) := by
  change (Saved.putBack (collected xz archive) _).entries[name]? = _
  rw [Saved.putBack]
  split
  · exact getElem?_empty
  · rw [Map.getElem?_insertMany_toList, getElem?_foldl_rm, carries.getElem?_kept noBackup]

/-- A name that is not brought back is gone or is what it was before. -/
theorem getElem?_restore_of_none (noBackup : NoBackup current)
    (none : (collected xz archive).backups[name]? = none) :
    (restore xz ⟨archive⟩).entries[name]? = .none ∨
      (restore xz ⟨archive⟩).entries[name]? = current[name]? := by
  rw [carries.getElem?_restore noBackup, none]
  split
  · exact Or.inl rfl
  · split
    · exact Or.inl rfl
    · exact Or.inr rfl

end

end Carries

end Directory

end Magisk.Boot.Cpio
