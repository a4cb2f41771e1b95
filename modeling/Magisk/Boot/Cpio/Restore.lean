import Magisk.Boot.Cpio.Directory
import Magisk.Boot.Cpio.RoundTrip

/-!
# Restoring undoes a backup

What `restore` makes of an archive that carries a backup, entry by entry.  A saved
entry comes back if it has a place of its own in the backup directory and is read
from there as it was; with compression this is a condition on the original names.
-/

namespace Magisk.Boot.Cpio

open Std (ExtTreeMap)
open CpioEntry List Bytes Text

/-! ## Names that are read back -/

/-- The kept copy of `name`, if there is one, has its own place and is read back as it was,
and no other copy is taken for it. -/
structure Readable (xz : Xz) (skipCompress : Bool) (original current : Entries)
    (name : String) : Prop where
  unreserved : ∀ entry, Saves original current name entry →
    (storedAs xz skipCompress name entry).1 ≠ ".backup/.rmlist" ∧
      (storedAs xz skipCompress name entry).1 ≠ ".backup/.magisk"
  back : ∀ entry, Saves original current name entry →
    restoredAs xz (storedAs xz skipCompress name entry).1 (storedAs xz skipCompress name entry).2 =
      (name, entry)
  own : ∀ entry other otherEntry, Saves original current name entry →
    Saves original current other otherEntry →
    (storedAs xz skipCompress other otherEntry).1 = (storedAs xz skipCompress name entry).1 →
      other = name
  only : ∀ other otherEntry, Saves original current other otherEntry →
    (restoredAs xz (storedAs xz skipCompress other otherEntry).1
      (storedAs xz skipCompress other otherEntry).2).1 = name → other = name

/-- No saved entry is kept under one of the two special names. -/
def Unreserved (xz : Xz) (skipCompress : Bool) (original current : Entries) : Prop :=
  ∀ name entry, Saves original current name entry →
    (storedAs xz skipCompress name entry).1 ≠ ".backup/.rmlist" ∧
      (storedAs xz skipCompress name entry).1 ≠ ".backup/.magisk"

/-- New names can be removed by naming them. -/
def Removable (original current : Entries) : Prop :=
  ∀ name ∈ current, name ∉ original → name ≠ "" ∧ normPath name = name

/-- Some name, or the contents of some name, is not the same in both. -/
def Differ (original current : Entries) : Prop :=
  ∃ name : String, current[name]?.map CpioEntry.data ≠ original[name]?.map CpioEntry.data

section Restoring

variable {xz : Xz} {skipCompress : Bool} {original current archive : Entries}

/-- Without a new name there is no removal list. -/
theorem getElem?_directory_rmList (unreserved : Unreserved xz skipCompress original current)
    (noNew : newNames original current = []) :
    (directory xz skipCompress original current)[".backup/.rmlist"]? = none := by
  rw [getElem?_directory, if_neg fun both => both.2 noNew, Option.eq_none_iff_forall_ne_some]
  intro entry found
  rcases storedEntries_cases found with isRoot | mem
  · exact absurd isRoot (by decide)
  · obtain ⟨name, originalEntry, saves, stored⟩ := mem_storedItems_iff.mp mem
    have kept := unreserved name originalEntry saves
    rw [stored] at kept
    exact kept.1 rfl

/-- New names survive the removal list. -/
theorem split_newNames (nulFree : NulFree current) :
    (split (Char.ofNat 0) (terminated (Char.ofNat 0) (newNames original current))).filter (· ≠ "") =
      (newNames original current).filter (· ≠ "") := by
  have separate : ∀ name ∈ newNames original current, Char.ofNat 0 ∉ name.toList :=
    fun name mem nul => nulFree name (mem_of_mem_newNames mem) (zero_mem_utf8 nul)
  rw [split_terminated separate]
  simp

theorem map_normPath_newNames (removable : Removable original current) :
    ((newNames original current).filter (· ≠ "")).map normPath = newNames original current := by
  have plain : ∀ name ∈ newNames original current, name ≠ "" ∧ normPath name = name :=
    fun name mem => removable name (mem_of_mem_newNames mem) (notMem_of_mem_newNames mem)
  rw [filter_eq_self.mpr fun name mem => by simpa using (plain name mem).1]
  exact (map_congr_left fun name mem => (plain name mem).2).trans (map_id _)

namespace Carries

section

variable (carries : Carries xz skipCompress original current archive)

include carries

variable {name : String} {entry : CpioEntry}

/-- Something is collected from the place of a saved entry. -/
theorem exists_collected_of_saves (saves : Saves original current name entry)
    (unreserved : (storedAs xz skipCompress name entry).1 ≠ ".backup/.rmlist" ∧
      (storedAs xz skipCompress name entry).1 ≠ ".backup/.magisk") :
    ∃ other otherEntry, Saves original current other otherEntry ∧
      (storedAs xz skipCompress other otherEntry).1 = (storedAs xz skipCompress name entry).1 ∧
      ∃ last, (collected xz archive).backups[(restoredAs xz
        (storedAs xz skipCompress other otherEntry).1
        (storedAs xz skipCompress other otherEntry).2).1]? = some last := by
  obtain ⟨other, otherEntry, otherSaves, sameKey, stored⟩ :=
    exists_directory_storedAs saves unreserved.1
  rw [← sameKey] at unreserved
  obtain ⟨notList, notMagisk⟩ := unreserved
  have starts := startsWith_storedAs xz skipCompress other otherEntry
  rw [← sameKey, ← carries.below _ starts notMagisk] at stored
  have listed : restoredAs xz (storedAs xz skipCompress other otherEntry).1
      (storedAs xz skipCompress other otherEntry).2 ∈
        (extracted archive).filterMap (restoredItem xz) := by
    refine mem_filterMap.mpr ⟨_, mem_extracted_iff.mpr ⟨stored, starts⟩, ?_⟩
    rw [restoredItem, if_neg (not_or.mpr ⟨notList, notMagisk⟩)]
  obtain ⟨last, found, _⟩ := Map.exists_getElem?_insertMany_eq_some (∅ : Entries) listed
  rw [← foldl_extract_backups xz (extracted archive) ⟨∅, ""⟩] at found
  exact ⟨other, otherEntry, otherSaves, sameKey, last, found⟩

/-- A saved entry that can be read back is collected under its own name. -/
theorem collected_of_saves (readable : Readable xz skipCompress original current name)
    (saves : Saves original current name entry) :
    (collected xz archive).backups[name]? = some entry := by
  obtain ⟨other, otherEntry, otherSaves, sameKey, last, found⟩ :=
    carries.exists_collected_of_saves saves (readable.unreserved entry saves)
  cases readable.own entry other otherEntry saves otherSaves sameKey
  cases saves.unique otherSaves
  rw [readable.back entry saves] at found
  obtain ⟨other, otherEntry, otherSaves, _, _, restored⟩ := carries.exists_saves_of_collected found
  cases readable.only other otherEntry otherSaves (by rw [restored])
  cases saves.unique otherSaves
  rw [readable.back entry saves] at restored
  cases restored
  exact found

/-- Nothing is collected for a name that was not saved. -/
theorem collected_of_not_saves (readable : Readable xz skipCompress original current name)
    (notSaves : ∀ entry, ¬ Saves original current name entry) :
    (collected xz archive).backups[name]? = none := by
  rw [Option.eq_none_iff_forall_ne_some]
  intro entry found
  obtain ⟨other, otherEntry, saves, _, _, restored⟩ := carries.exists_saves_of_collected found
  cases readable.only other otherEntry saves (by rw [restored])
  exact notSaves otherEntry saves

/-- The recorded names are read back from the removal list. -/
theorem collected_rmList_of_new (someNew : newNames original current ≠ []) :
    (collected xz archive).rmList = terminated (Char.ofNat 0) (newNames original current) := by
  have list : archive[".backup/.rmlist"]? = some (rmEntry original current) := by
    rw [carries.below _ (by decide) (by decide), getElem?_directory, if_pos ⟨rfl, someNew⟩]
  have distinct : (extracted archive).Pairwise fun a b => ¬ compare a.1 b.1 = .eq :=
    ExtTreeMap.distinct_keys_toList.filter _
  have mem := mem_extracted_iff.mpr ⟨list, by decide⟩
  rw [collected, foldl_extract_rmList_of_mem distinct mem (fromUtf8_utf8 _), String.empty_append]

theorem collected_rmList (unreserved : Unreserved xz skipCompress original current) :
    (collected xz archive).rmList = terminated (Char.ofNat 0) (newNames original current) := by
  by_cases noNew : newNames original current = []
  · rw [collected, foldl_extract_rmList_of_notMem, noNew]
    · rfl
    · rintro ⟨name, entry⟩ mem rfl
      have absent := getElem?_directory_rmList unreserved noNew
      rw [← carries.below _ (by decide) (by decide), (mem_extracted_iff.mp mem).1] at absent
      contradiction
  · exact carries.collected_rmList_of_new noNew

/-- The archives differ, so something was saved or recorded. -/
theorem not_nothing_collected (unreserved : Unreserved xz skipCompress original current)
    (differ : Differ original current) :
    ¬ ((collected xz archive).rmList = "" ∧ (collected xz archive).backups.isEmpty = true) := by
  rintro ⟨noList, noBackups⟩
  rw [carries.collected_rmList unreserved, terminated_eq_empty_iff] at noList
  obtain ⟨name, differs⟩ := differ
  rcases saves_or_new_of_ne differs with ⟨entry, saves⟩ | isNew
  · obtain ⟨_, _, _, _, last, found⟩ :=
      carries.exists_collected_of_saves saves (unreserved name entry saves)
    rw [ExtTreeMap.isEmpty_iff.mp noBackups] at found
    contradiction
  · rw [noList] at isNew
    exact not_mem_nil isNew

section

variable (noBackup : NoBackup current) (nulFree : NulFree current)
  (unreserved : Unreserved xz skipCompress original current)
  (removable : Removable original current) (differ : Differ original current)
  (readable : Readable xz skipCompress original current name)
include noBackup nulFree unreserved removable differ readable

/-- Restoring undoes every difference in a name or in its contents, and nothing else. -/
theorem getElem?_restore_of_readable :
    (restore xz ⟨archive⟩).entries[name]? =
      if current[name]?.map data = original[name]?.map data then current[name]?
      else original[name]? := by
  rw [carries.getElem?_restore noBackup, if_neg (carries.not_nothing_collected unreserved differ),
    carries.collected_rmList unreserved, split_newNames nulFree, map_normPath_newNames removable]
  by_cases saved : ∃ entry, Saves original current name entry
  · obtain ⟨entry, saves⟩ := saved
    rw [carries.collected_of_saves readable saves, Option.some_or,
      if_neg (ne_of_saves saves), saves.1]
  · rw [carries.collected_of_not_saves readable (not_exists.mp saved), Option.none_or]
    by_cases isNew : name ∈ newNames original current
    · rw [if_pos isNew, if_neg (ne_of_new isNew), (mem_newNames_iff.mp isNew).2]
    · have same : current[name]?.map data = original[name]?.map data := by
        by_contra differs
        exact (saves_or_new_of_ne differs).elim saved isNew
      rw [if_neg isNew, if_pos same]

/-- Restoring brings back the names and the contents of the original. -/
theorem map_data_restore :
    (restore xz ⟨archive⟩).entries[name]?.map data = original[name]?.map data := by
  rw [carries.getElem?_restore_of_readable noBackup nulFree unreserved removable differ readable]
  split
  · assumption
  · rfl

end

end

end Carries

end Restoring

/-! ## Compressed copies -/

theorem storedAs_of_regular {xz : Xz} (lossless : xz.Lossless) {entry : CpioEntry}
    (regular : entry.Regular) (name : String) :
    ∃ packed, storedAs xz false name entry = (".backup/" ++ name ++ ".xz", packed) ∧
      packed.decompress xz = some entry := by
  obtain ⟨data, encoded, decoded⟩ := lossless entry.data
  refine ⟨{ entry with data := data }, ?_, ?_⟩
  · simp [storedAs, compress, regular, encoded]
  · have stillRegular : CpioEntry.Regular { entry with data := data } := regular
    simp [decompress, stillRegular, decoded]

theorem storedAs_of_not_regular {xz : Xz} {entry : CpioEntry} (special : ¬ entry.Regular)
    (name : String) : storedAs xz false name entry = (".backup/" ++ name, entry) := by
  simp [storedAs, compress, special]

/-- A kept entry goes back to its own name and contents. -/
theorem restoredAs_storedAs {xz : Xz} (lossless : xz.Lossless) (name : String) (entry : CpioEntry) :
    restoredAs xz (storedAs xz false name entry).1 (storedAs xz false name entry).2 =
      (name, entry) := by
  by_cases regular : entry.Regular
  · obtain ⟨packed, stored, unpacked⟩ := storedAs_of_regular lossless regular name
    rw [stored, restoredAs, if_pos (endsWith_append _ _), unpacked]
    rw [dropLast_append (by decide), dropFirst_append (by decide)]
  · rw [storedAs_of_not_regular regular, restoredAs]
    simp only [decompress, if_neg regular, ite_self]
    rw [dropFirst_append (by decide)]

/-- Original entries whose kept names collide neither with each other nor with
the two special members of the backup directory. -/
structure Separable (original : Entries) : Prop where
  /-- `.magisk` and `.rmlist` are regular files if present. -/
  special : ∀ name entry, original[name]? = some entry → name = ".magisk" ∨ name = ".rmlist" →
    entry.Regular
  /-- No regular `n` next to a non-regular `n.xz`. -/
  packed : ∀ name entry other, original[name]? = some entry → entry.Regular →
    original[name ++ ".xz"]? = some other → other.Regular

namespace Separable

variable {xz : Xz} {original : Entries} {name other : String} {entry otherEntry : CpioEntry}

theorem storedAs_ne (lossless : xz.Lossless) (separable : Separable original)
    (found : original[name]? = some entry) :
    (storedAs xz false name entry).1 ≠ ".backup/.rmlist" ∧
      (storedAs xz false name entry).1 ≠ ".backup/.magisk" := by
  by_cases regular : entry.Regular
  · obtain ⟨packed, stored, _⟩ := storedAs_of_regular lossless regular name
    have ending : endsWith (storedAs xz false name entry).1 ".xz" = true := by
      rw [stored]
      exact endsWith_append _ _
    constructor
    · intro equal
      rw [equal] at ending
      exact absurd ending (by decide)
    · intro equal
      rw [equal] at ending
      exact absurd ending (by decide)
  · rw [storedAs_of_not_regular regular]
    constructor
    · intro equal
      have nameEq : name = ".rmlist" := (String.append_right_inj ".backup/").mp equal
      exact regular (separable.special name entry found (Or.inr nameEq))
    · intro equal
      have nameEq : name = ".magisk" := (String.append_right_inj ".backup/").mp equal
      exact regular (separable.special name entry found (Or.inl nameEq))

theorem not_regular_packed (separable : Separable original) (found : original[name]? = some entry)
    (regular : entry.Regular) (otherFound : original[other]? = some otherEntry)
    (otherSpecial : ¬ otherEntry.Regular) :
    ".backup/" ++ name ++ ".xz" ≠ ".backup/" ++ other := by
  intro same
  rw [String.append_assoc] at same
  cases (String.append_right_inj ".backup/").mp same
  exact otherSpecial (separable.packed name entry otherEntry found regular otherFound)

section

variable (lossless : xz.Lossless) (separable : Separable original)
include lossless separable

/-- Different original names are kept under different names. -/
theorem storedAs_injective (found : original[name]? = some entry)
    (otherFound : original[other]? = some otherEntry)
    (same : (storedAs xz false name entry).1 = (storedAs xz false other otherEntry).1) :
    name = other := by
  by_cases regular : entry.Regular
  · obtain ⟨packed, stored, _⟩ := storedAs_of_regular lossless regular name
    by_cases otherRegular : otherEntry.Regular
    · obtain ⟨otherPacked, otherStored, _⟩ := storedAs_of_regular lossless otherRegular other
      rw [stored, otherStored] at same
      exact (String.append_left_inj ".xz").mp ((String.append_right_inj ".backup/").mp same)
    · rw [stored, storedAs_of_not_regular otherRegular] at same
      exact absurd same (separable.not_regular_packed found regular otherFound otherRegular)
  · rw [storedAs_of_not_regular regular] at same
    by_cases otherRegular : otherEntry.Regular
    · obtain ⟨otherPacked, otherStored, _⟩ := storedAs_of_regular lossless otherRegular other
      rw [otherStored] at same
      exact absurd same.symm (separable.not_regular_packed otherFound otherRegular found regular)
    · rw [storedAs_of_not_regular otherRegular] at same
      exact (String.append_right_inj ".backup/").mp same

theorem readable (current : Entries) (name : String) : Readable xz false original current name where
  unreserved entry saves := separable.storedAs_ne lossless saves.1
  back entry _ := restoredAs_storedAs lossless name entry
  own entry other otherEntry saves otherSaves same :=
    separable.storedAs_injective lossless otherSaves.1 saves.1 same
  only other otherEntry _ restored := by
    rw [restoredAs_storedAs lossless] at restored
    exact restored

theorem unreserved (current : Entries) : Unreserved xz false original current :=
  fun _ _ saves => separable.storedAs_ne lossless saves.1

end

end Separable

/-- Names of an archive without a backup directory: not empty, normalised, and
outside `.backup`. -/
def PlainNames (entries : Entries) : Prop :=
  ∀ name ∈ entries, name ≠ "" ∧ normPath name = name ∧ name ≠ ".backup" ∧
    startsWith name ".backup/" = false

theorem PlainNames.noBackup {entries : Entries} (plain : PlainNames entries) : NoBackup entries :=
  fun name mem => (plain name mem).2.2

theorem PlainNames.removable {original current : Entries} (plain : PlainNames current) :
    Removable original current :=
  fun name mem _ => ⟨(plain name mem).1, (plain name mem).2.1⟩

/-- Add `.backup/.magisk`, as patching does after a backup. -/
def withMagisk (cpio : Cpio) : Option CpioEntry → Cpio
  | none => cpio
  | some entry => ⟨cpio.entries.insert (normPath ".backup/.magisk") entry⟩

/-- Backing up against an original and restoring gives back its names and its
contents. -/
theorem restore_backup (xz : Xz) (lossless : xz.Lossless) (c o : Cpio) (origin : List UInt8)
    (loaded : loadFromData origin = .ok o) (plainC : PlainNames c.entries)
    (nulFree : NulFree c.entries) (plainO : PlainNames o.entries)
    (separable : Separable o.entries)
    (differ : ∃ name : String,
      c.entries[name]?.map CpioEntry.data ≠ o.entries[name]?.map CpioEntry.data)
    (magisk : Option CpioEntry) :
    ∃ saved : Cpio, backup xz c origin false = .ok saved ∧ ∀ name : String,
        (restore xz (saved.withMagisk magisk)).entries[name]?.map CpioEntry.data =
          o.entries[name]?.map CpioEntry.data := by
  have noBackup := plainC.noBackup
  have unreserved := separable.unreserved lossless c.entries
  obtain ⟨saved, succeeded, carries⟩ := backup_carries xz false loaded noBackup plainO.noBackup
  refine ⟨saved, succeeded, fun name => ?_⟩
  have readable := separable.readable lossless c.entries name
  cases magisk with
  | none =>
    exact carries.map_data_restore noBackup nulFree unreserved plainC.removable differ readable
  | some entry =>
    have normal : normPath ".backup/.magisk" = ".backup/.magisk" := by decide
    exact (carries.insert_magisk entry).map_data_restore noBackup nulFree unreserved
      plainC.removable differ readable

/-- A coder that marks its output with one byte. -/
def marking : Xz where
  encode data := some (0xfd :: data)
  decode
    | 0xfd :: data => some data
    | _ => none

/-- A stock ramdisk: a directory and two files. -/
def stock : Cpio :=
  ⟨.ofList [("dev", plainEntry sIfdir []), ("init", plainEntry sIfreg [1]),
    ("init.rc", plainEntry sIfreg [3])]⟩

/-- The same ramdisk with one file changed, one removed and one added. -/
def patched : Cpio :=
  ⟨.ofList [("dev", plainEntry sIfdir []), ("init", plainEntry sIfreg [2]),
    ("overlay.d", plainEntry sIfdir [])]⟩

theorem loadFromData_dump_stock : loadFromData (dump stock) = .ok stock := by
  apply loadFromData_dump_eq
  refine ⟨by decide, Map.forall_getElem?_iff.mpr fun item mem => ?_⟩
  fin_cases mem <;> constructor <;> decide

theorem plainNames_stock : PlainNames stock.entries := Map.forall_mem_iff.mpr (by decide)

theorem plainNames_patched : PlainNames patched.entries := Map.forall_mem_iff.mpr (by decide)

theorem nulFree_patched : NulFree patched.entries := Map.forall_mem_iff.mpr (by decide)

theorem restore_backup_patched : loadFromData (dump stock) = .ok stock ∧
      ∃ saved : Cpio, backup marking patched (dump stock) false = .ok saved ∧ ∀ name : String,
          (restore marking (saved.withMagisk (some (plainEntry sIfreg [])))).entries[name]?.map
            CpioEntry.data = stock.entries[name]?.map CpioEntry.data := by
  have lossless : marking.Lossless := fun data => ⟨0xfd :: data, rfl, rfl⟩
  have separable : Separable stock.entries := by
    constructor
    · exact Map.forall_getElem?_iff.mpr (by decide)
    · have unpaired : ∀ name entry, stock.entries[name]? = some entry →
          stock.entries[name ++ ".xz"]? = none :=
        Map.forall_getElem?_iff.mpr (by decide)
      intro name entry other found _ otherFound
      rw [unpaired name entry found] at otherFound
      contradiction
  exact ⟨loadFromData_dump_stock, restore_backup marking lossless patched stock (dump stock)
    loadFromData_dump_stock plainNames_patched nulFree_patched plainNames_stock separable
    ⟨"init", by decide⟩ (some (plainEntry sIfreg []))⟩

end Magisk.Boot.Cpio
