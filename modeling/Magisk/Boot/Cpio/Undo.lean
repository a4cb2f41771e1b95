import Magisk.Boot.Cpio.Merge

/-!
# What a restore undoes

A backup compares names and contents only, so a restore leaves every other difference
between the two archives as it is, and an archive whose backup holds nothing is emptied.
Without compression nothing marks a copy as packed: `restore` goes by its name and
contents, and this decides when it brings back the original.
-/

namespace Magisk.Boot.Cpio

open Std (ExtTreeMap)
open CpioEntry List Text

section

variable {xz : Xz} {skipCompress : Bool} {original current archive : Entries} {name : String}
  {entry : CpioEntry}

/-! ## Backups that hold nothing -/

theorem not_saves_of_not_differ (same : ¬ Differ original current) (name : String)
    (entry : CpioEntry) : ¬ Saves original current name entry :=
  fun saves => same ⟨name, ne_of_saves saves⟩

theorem newNames_eq_nil_of_not_differ (same : ¬ Differ original current) :
    newNames original current = [] :=
  eq_nil_iff_forall_not_mem.mpr fun name isNew => same ⟨name, ne_of_new isNew⟩

/-- An archive whose backup holds nothing is emptied. -/
theorem Carries.restore_of_not_differ (carries : Carries xz skipCompress original current archive)
    (noBackup : NoBackup current) (same : ¬ Differ original current) :
    restore xz ⟨archive⟩ = ⟨∅⟩ := by
  have notSaves := not_saves_of_not_differ same
  have unreserved : Unreserved xz skipCompress original current :=
    fun name entry saves => absurd saves (notSaves name entry)
  have noList : (collected xz archive).rmList = "" := by
    rw [carries.collected_rmList unreserved, newNames_eq_nil_of_not_differ same]
    rfl
  have noBackups : (collected xz archive).backups.isEmpty = true := by
    rw [ExtTreeMap.isEmpty_iff]
    apply ExtTreeMap.ext_getElem?
    intro name
    rw [ExtTreeMap.getElem?_empty, Option.eq_none_iff_forall_ne_some]
    intro entry found
    obtain ⟨savedName, savedEntry, saves, _⟩ := carries.exists_saves_of_collected found
    exact notSaves savedName savedEntry saves
  apply Cpio.ext
  apply ExtTreeMap.ext_getElem?
  intro name
  rw [carries.getElem?_restore noBackup, if_pos ⟨noList, noBackups⟩]
  exact ExtTreeMap.getElem?_empty.symm

theorem not_differ_self (entries : Entries) : ¬ Differ entries entries :=
  fun ⟨_, differs⟩ => differs rfl

/-! ## Copies that are not marked -/

/-- A saved entry that is taken for a packed one. -/
def Misread (xz : Xz) (original current : Entries) (name : String) : Prop :=
  ∃ entry data, Saves original current name entry ∧ endsWith name ".xz" = true ∧
    entry.Regular ∧ xz.decode entry.data = some data

theorem endsWith_backup (name : String) :
    endsWith (".backup/" ++ name) ".xz" = endsWith name ".xz" := by
  rw [Bool.eq_iff_iff, endsWith, endsWith, isSuffixOf_iff_suffix, isSuffixOf_iff_suffix,
    String.toList_append]
  constructor
  · intro ends
    rcases suffix_or_suffix_of_suffix ends (suffix_append _ _) with within | around
    · exact within
    · have short : name.toList ∈ ".xz".toList.tails := (mem_tails _ _).mpr around
      generalize name.toList = chars at ends short ⊢
      revert ends
      fin_cases short <;> decide
  · intro ends
    exact ends.trans (suffix_append _ _)

/-- A copy that is not misread goes back to its own name and contents. -/
theorem restoredAs_skip_of_not_misread (saves : Saves original current name entry)
    (clear : ¬ Misread xz original current name) :
    restoredAs xz (".backup/" ++ name) entry = (name, entry) := by
  have plain : (if endsWith (".backup/" ++ name) ".xz" then entry.decompress xz else none) =
      none := by
    rw [endsWith_backup]
    by_cases ends : endsWith name ".xz" = true
    · rw [if_pos ends, decompress]
      by_cases regular : entry.Regular
      · rw [if_pos regular, Option.map_eq_none_iff, Option.eq_none_iff_forall_ne_some]
        intro data decoded
        exact clear ⟨entry, data, saves, ends, regular, decoded⟩
      · rw [if_neg regular]
    · rw [if_neg ends]
  rw [restoredAs, plain]
  rw [dropFirst_append (by decide)]

/-- A misread copy loses the end of its name. -/
theorem restoredAs_skip_of_misread (saves : Saves original current name entry)
    (misread : Misread xz original current name) :
    ∃ stem data, name = stem ++ ".xz" ∧
      restoredAs xz (".backup/" ++ name) entry = (stem, { entry with data := data }) := by
  obtain ⟨other, data, otherSaves, ends, regular, decoded⟩ := misread
  cases saves.unique otherSaves
  have packed : (if endsWith (".backup/" ++ name) ".xz" then entry.decompress xz else none) =
      some { entry with data := data } := by
    rw [endsWith_backup, if_pos ends, decompress, if_pos regular, decoded]
    rfl
  obtain ⟨stem, rfl⟩ := endsWith_iff.mp ends
  refine ⟨stem, data, rfl, ?_⟩
  rw [restoredAs, packed]
  rw [← String.append_assoc, dropLast_append (by decide), dropFirst_append (by decide)]

/-- No saved entry has the name of one of the two special members. -/
def OrdinaryNames (original current : Entries) : Prop :=
  ∀ name entry, Saves original current name entry → name ≠ ".rmlist" ∧ name ≠ ".magisk"

theorem OrdinaryNames.unreserved (ordinary : OrdinaryNames original current) :
    Unreserved xz true original current := by
  intro name entry saves
  obtain ⟨notList, notMagisk⟩ := ordinary name entry saves
  exact ⟨fun equal => notList ((String.append_right_inj ".backup/").mp equal),
    fun equal => notMagisk ((String.append_right_inj ".backup/").mp equal)⟩

theorem readable_skip (clear : ∀ name, ¬ Misread xz original current name)
    (ordinary : OrdinaryNames original current) (name : String) :
    Readable xz true original current name where
  unreserved := ordinary.unreserved name
  back entry saves := restoredAs_skip_of_not_misread saves (clear name)
  own entry other otherEntry _ _ samePlace := (String.append_right_inj ".backup/").mp samePlace
  only other otherEntry saves restored := by
    rw [storedAs_skip, restoredAs_skip_of_not_misread saves (clear other)] at restored
    exact restored

/-- What is brought back under a name is its own copy, or a misread one. -/
theorem Carries.source_of_collected (carries : Carries xz true original current archive)
    (found : (collected xz archive).backups[name]? = some entry) :
    name ≠ ".rmlist" ∧ name ≠ ".magisk" ∧ ¬ Misread xz original current name ∨
      Misread xz original current (name ++ ".xz") := by
  obtain ⟨savedName, savedEntry, saves, notList, notMagisk, restored⟩ :=
    carries.exists_saves_of_collected found
  rw [storedAs_skip] at notList notMagisk restored
  by_cases misread : Misread xz original current savedName
  · obtain ⟨stem, data, rfl, shortened⟩ := restoredAs_skip_of_misread saves misread
    rw [shortened] at restored
    cases restored
    exact Or.inr misread
  · rw [restoredAs_skip_of_not_misread saves misread] at restored
    cases restored
    refine Or.inl ⟨?_, ?_, misread⟩
    · rintro rfl
      exact notList rfl
    · rintro rfl
      exact notMagisk rfl

/-- A saved entry of which nothing is collected does not come back. -/
theorem Carries.lost_of_not_collected (carries : Carries xz skipCompress original current archive)
    (noBackup : NoBackup current) (saves : Saves original current name entry)
    (missing : (collected xz archive).backups[name]? = none) :
    (restore xz ⟨archive⟩).entries[name]?.map data ≠
      original[name]?.map data := by
  rcases carries.getElem?_restore_of_none noBackup missing with gone | stayed
  · rw [gone, saves.1]
    nofun
  · rw [stayed]
    exact ne_of_saves saves

theorem exists_longest {entries : Entries} {holds : String → Prop}
    (some : ∃ name ∈ entries, holds name) :
    ∃ name ∈ entries, holds name ∧ ∀ other ∈ entries, holds other → other.length ≤ name.length := by
  classical
  obtain ⟨witness, present, witnessHolds⟩ := some
  have nonempty : (entries.keys.toFinset.filter holds).Nonempty := ⟨witness, Finset.mem_filter.mpr
      ⟨mem_toFinset.mpr (ExtTreeMap.mem_keys.mpr present), witnessHolds⟩⟩
  obtain ⟨name, mem, longest⟩ := Finset.exists_max_image _ String.length nonempty
  rw [Finset.mem_filter, mem_toFinset, ExtTreeMap.mem_keys] at mem
  refine ⟨name, mem.1, mem.2, fun other otherPresent otherHolds => longest other ?_⟩
  rw [Finset.mem_filter, mem_toFinset, ExtTreeMap.mem_keys]
  exact ⟨otherPresent, otherHolds⟩

theorem Saves.mem (saves : Saves original current name entry) : name ∈ original :=
  ExtTreeMap.mem_iff_isSome_getElem?.mpr (by rw [saves.1]; rfl)

theorem Misread.mem (misread : Misread xz original current name) : name ∈ original := by
  obtain ⟨_, _, saves, _⟩ := misread
  exact saves.mem

/-- Of the misread names the longest does not come back. -/
theorem Carries.lost_of_misread (carries : Carries xz true original current archive)
    (noBackup : NoBackup current) {misreadName : String}
    (misread : Misread xz original current misreadName) :
    ∃ name : String, (restore xz ⟨archive⟩).entries[name]?.map data ≠ original[name]?.map data := by
  obtain ⟨name, _, longestMisread, longest⟩ := exists_longest ⟨misreadName, misread.mem, misread⟩
  obtain ⟨entry, data, saves, _⟩ := id longestMisread
  refine ⟨name, carries.lost_of_not_collected noBackup saves ?_⟩
  rw [Option.eq_none_iff_forall_ne_some]
  intro last found
  rcases carries.source_of_collected found with ⟨_, _, clear⟩ | longer
  · exact clear longestMisread
  · have shorter := longest _ longer.mem longer
    exact absurd shorter (by simp)

/-- The new names that disappear are those some new name has as its normal form. -/
theorem Carries.removed_of_new (carries : Carries xz skipCompress original current archive)
    (noBackup : NoBackup current) (nulFree : NulFree current)
    (isNew : name ∈ newNames original current)
    (gone : (restore xz ⟨archive⟩).entries[name]? = none) :
    ∃ new ∈ newNames original current, new ≠ "" ∧ normPath new = name := by
  have someNew : newNames original current ≠ [] := ne_nil_of_mem isNew
  have hasList : (collected xz archive).rmList ≠ "" := by
    rw [carries.collected_rmList_of_new someNew]
    exact fun empty => someNew (terminated_eq_empty_iff.mp empty)
  rw [carries.getElem?_restore noBackup, if_neg fun both => hasList both.1,
    carries.collected_rmList_of_new someNew, split_newNames nulFree, Option.or_eq_none_iff] at gone
  obtain ⟨⟨entry, found⟩, _⟩ := mem_newNames_iff.mp isNew
  rw [found] at gone
  by_cases listed : name ∈ ((newNames original current).filter (· ≠ "")).map normPath
  · obtain ⟨new, mem, normal⟩ := mem_map.mp listed
    obtain ⟨newMem, nonempty⟩ := mem_filter.mp mem
    exact ⟨new, newMem, by simpa using nonempty, normal⟩
  · rw [if_neg listed] at gone
    cases gone.2

/-- If every new name disappears, each is its own normal form. -/
theorem removable_of_removed (removed : ∀ name ∈ newNames original current,
      ∃ new ∈ newNames original current, new ≠ "" ∧ normPath new = name) :
    Removable original current := by
  have normal : ∀ name ∈ newNames original current, normPath name = name := by
    intro name isNew
    obtain ⟨new, _, _, rfl⟩ := removed name isNew
    exact normPath_normPath new
  intro name present absent
  have isNew := mem_newNames.mpr ⟨present, absent⟩
  refine ⟨?_, normal name isNew⟩
  rintro rfl
  obtain ⟨new, newMem, nonempty, isEmpty⟩ := removed "" isNew
  exact nonempty ((normal new newMem).symm.trans isEmpty)

/-- Without compression the original comes back exactly if no copy is misread or has a special
name, new names can be removed, and there is a difference to undo. -/
theorem Carries.map_data_restore_iff (carries : Carries xz true original current archive)
    (noBackup : NoBackup current) (nulFree : NulFree current) (unequal : original ≠ current) :
    (∀ name : String, (restore xz ⟨archive⟩).entries[name]?.map data = original[name]?.map data) ↔
      (∀ name, ¬ Misread xz original current name) ∧ OrdinaryNames original current ∧
        Removable original current ∧ Differ original current := by
  constructor
  · intro back
    have clear : ∀ name, ¬ Misread xz original current name := by
      intro name misread
      obtain ⟨lost, differs⟩ := carries.lost_of_misread noBackup misread
      exact differs (back lost)
    refine ⟨clear, ?_, ?_, ?_⟩
    · intro name entry saves
      by_contra special
      refine carries.lost_of_not_collected noBackup saves ?_ (back name)
      rw [Option.eq_none_iff_forall_ne_some]
      intro last found
      rcases carries.source_of_collected found with ⟨notList, notMagisk, _⟩ | longer
      · exact special ⟨notList, notMagisk⟩
      · exact clear _ longer
    · refine removable_of_removed fun name isNew => carries.removed_of_new noBackup nulFree isNew ?_
      have same := back name
      rw [(mem_newNames_iff.mp isNew).2, Option.map_none, Option.map_eq_none_iff] at same
      exact same
    · by_contra same
      apply unequal
      apply ExtTreeMap.ext_getElem?
      intro name
      have emptied : original[name]?.map data = none := by
        rw [← back name, carries.restore_of_not_differ noBackup same]
        rfl
      have agree : current[name]?.map data = original[name]?.map data := by
        by_contra differs
        exact same ⟨name, differs⟩
      rw [Option.map_eq_none_iff.mp emptied, Option.map_eq_none_iff.mp (agree.trans emptied)]
  · rintro ⟨clear, ordinary, removable, differ⟩ name
    exact carries.map_data_restore noBackup nulFree ordinary.unreserved removable differ
      (readable_skip clear ordinary name)

/-! ## Names that are in both archives -/

/-- A saved entry that can be read back replaces whatever is there. -/
theorem Carries.getElem?_restore_of_saves
    (carries : Carries xz skipCompress original current archive) (noBackup : NoBackup current)
    (readable : Readable xz skipCompress original current name)
    (saves : Saves original current name entry) :
    (restore xz ⟨archive⟩).entries[name]? = some entry := by
  have found := carries.collected_of_saves readable saves
  have someBackup : ¬ ((collected xz archive).rmList = "" ∧
      (collected xz archive).backups.isEmpty = true) := by
    rintro ⟨_, noBackups⟩
    rw [ExtTreeMap.isEmpty_iff.mp noBackups] at found
    cases found
  rw [carries.getElem?_restore noBackup, if_neg someBackup, found, Option.some_or]

theorem clear_of_names (names : ∀ name ∈ original, endsWith name ".xz" = false) (name : String) :
    ¬ Misread xz original current name := by
  rintro ⟨entry, data, saves, ends, _⟩
  rw [names name saves.mem] at ends
  contradiction

theorem ordinaryNames_of_names (names : ∀ name ∈ original, name ≠ ".rmlist" ∧ name ≠ ".magisk") :
    OrdinaryNames original current :=
  fun name _ saves => names name saves.mem

end

/-- A name that is in both archives has the original entry again if its contents differ.  If
they do not, it keeps the entry it has, with its own mode, owner and device numbers. -/
theorem restore_backup_common (xz : Xz) (skipCompress : Bool) (c o : Cpio) (origin : List UInt8)
    (loaded : loadFromData origin = .ok o) (outsideC : NoBackup c.entries)
    (outsideO : NoBackup o.entries) (nulFree : NulFree c.entries) :
    ∃ saved : Cpio, backup xz c origin skipCompress = .ok saved ∧
      (∀ name before now, o.entries[name]? = some before → c.entries[name]? = some now →
        now.data ≠ before.data → Readable xz skipCompress o.entries c.entries name →
          (restore xz saved).entries[name]? = some before) ∧
      (Unreserved xz skipCompress o.entries c.entries → Removable o.entries c.entries →
        Differ o.entries c.entries →
        ∀ name before now, o.entries[name]? = some before → c.entries[name]? = some now →
          now.data = before.data → Readable xz skipCompress o.entries c.entries name →
            (restore xz saved).entries[name]? = some now) := by
  obtain ⟨saved, succeeded, carries⟩ := backup_carries xz skipCompress loaded outsideC outsideO
  refine ⟨saved, succeeded, ?_, ?_⟩
  · intro name before now originalFound currentFound differs readable
    refine carries.getElem?_restore_of_saves outsideC readable ⟨originalFound, fun other found => ?_⟩
    cases currentFound.symm.trans found
    exact differs
  · intro unreserved removable differ name before now originalFound currentFound same readable
    have restored := carries.getElem?_restore_of_readable outsideC nulFree unreserved removable
      differ readable
    rw [originalFound, currentFound, Option.map_some, Option.map_some, same, if_pos rfl] at restored
    exact restored

/-- The stock ramdisk with the mode of one file and the contents of another changed. -/
def retouched : Cpio :=
  ⟨.ofList [("dev", plainEntry sIfdir []), ("init", plainEntry (sIfreg ||| 0o755) [1]),
    ("init.rc", plainEntry sIfreg [4])]⟩

theorem plainNames_retouched : PlainNames retouched.entries := Map.forall_mem_iff.mpr (by decide)

theorem nulFree_retouched : NulFree retouched.entries := Map.forall_mem_iff.mpr (by decide)

theorem ordinaryNames_stock (current : Entries) : OrdinaryNames stock.entries current :=
  ordinaryNames_of_names (Map.forall_mem_iff.mpr (by decide))

theorem clear_stock (xz : Xz) (current : Entries) (name : String) :
    ¬ Misread xz stock.entries current name :=
  clear_of_names (Map.forall_mem_iff.mpr (by decide)) name

theorem differ_retouched : Differ stock.entries retouched.entries := ⟨"init.rc", by decide⟩

theorem restore_backup_common_retouched : loadFromData (dump stock) = .ok stock ∧
      ∃ saved : Cpio, backup marking retouched (dump stock) true = .ok saved ∧
        (restore marking saved).entries["init.rc"]? = some (plainEntry sIfreg [3]) ∧
        (restore marking saved).entries["init"]? = some (plainEntry (sIfreg ||| 0o755) [1]) := by
  obtain ⟨saved, succeeded, changed, kept⟩ := restore_backup_common marking true retouched stock
    (dump stock) loadFromData_dump_stock plainNames_retouched.noBackup plainNames_stock.noBackup
    nulFree_retouched
  have readable := readable_skip (clear_stock marking retouched.entries) (ordinaryNames_stock _)
  refine ⟨loadFromData_dump_stock, saved, succeeded, ?_, ?_⟩
  · exact changed "init.rc" _ (plainEntry sIfreg [4]) (by decide) (by decide) (by decide)
      (readable "init.rc")
  · exact kept (ordinaryNames_stock _).unreserved plainNames_retouched.removable differ_retouched
      "init" (plainEntry sIfreg [1]) _ (by decide) (by decide) (by decide) (readable "init")

/-- A changed mode is not undone, and of two equal archives nothing is left. -/
theorem not_restore_mode :
    NoBackup stock.entries ∧ NoBackup retouched.entries ∧ loadFromData (dump stock) = .ok stock ∧
      stock.entries["init"]?.map CpioEntry.mode = some sIfreg ∧
      retouched.entries["init"]?.map CpioEntry.mode = some (sIfreg ||| 0o755) ∧
      (∃ saved : Cpio, backup marking retouched (dump stock) true = .ok saved ∧
        (restore marking saved).entries["init"]?.map CpioEntry.mode = some (sIfreg ||| 0o755)) ∧
      ∃ saved : Cpio, backup marking stock (dump stock) true = .ok saved ∧
        (restore marking saved).entries["init"]? = none := by
  refine ⟨plainNames_stock.noBackup, plainNames_retouched.noBackup, loadFromData_dump_stock,
    by decide, by decide, ?_, ?_⟩
  · obtain ⟨saved, succeeded, carries⟩ := backup_carries marking true loadFromData_dump_stock
      plainNames_retouched.noBackup plainNames_stock.noBackup
    have restored := carries.getElem?_restore_of_readable plainNames_retouched.noBackup
      nulFree_retouched (ordinaryNames_stock _).unreserved plainNames_retouched.removable
      differ_retouched (readable_skip (clear_stock _ _) (ordinaryNames_stock _) "init")
    refine ⟨saved, succeeded, ?_⟩
    rw [restored]
    decide
  · obtain ⟨saved, succeeded, carries⟩ := backup_carries marking true loadFromData_dump_stock
      plainNames_stock.noBackup plainNames_stock.noBackup
    refine ⟨saved, succeeded, ?_⟩
    rw [carries.restore_of_not_differ plainNames_stock.noBackup (not_differ_self _)]
    exact ExtTreeMap.getElem?_empty

/-! ## Backups without compression -/

/-- Backing up without compression and restoring gives back the names and contents of the
original exactly if no copy is misread or has a special name, new names can be removed, and
there is a difference in names or contents. -/
theorem restore_backup_skip_iff (xz : Xz) (c o : Cpio) (origin : List UInt8)
    (loaded : loadFromData origin = .ok o) (outsideC : NoBackup c.entries)
    (outsideO : NoBackup o.entries) (nulFree : NulFree c.entries) (unequal : o.entries ≠ c.entries) :
    (∃ saved : Cpio, backup xz c origin true = .ok saved ∧
      ∀ name : String, (restore xz saved).entries[name]?.map CpioEntry.data =
        o.entries[name]?.map CpioEntry.data) ↔
      (∀ name, ¬ Misread xz o.entries c.entries name) ∧ OrdinaryNames o.entries c.entries ∧
        Removable o.entries c.entries ∧ Differ o.entries c.entries := by
  obtain ⟨saved, succeeded, carries⟩ := backup_carries xz true loaded outsideC outsideO
  rw [← carries.map_data_restore_iff outsideC nulFree unequal]
  constructor
  · rintro ⟨other, otherSucceeded, back⟩
    cases succeeded.symm.trans otherSucceeded
    exact back
  · intro back
    exact ⟨saved, succeeded, back⟩

theorem restore_backup_skip_iff_patched :
    loadFromData (dump stock) = .ok stock ∧ stock.entries ≠ patched.entries ∧
      ∃ saved : Cpio, backup marking patched (dump stock) true = .ok saved ∧
        ∀ name : String, (restore marking saved).entries[name]?.map CpioEntry.data =
          stock.entries[name]?.map CpioEntry.data := by
  have unequal : stock.entries ≠ patched.entries := by
    intro equal
    have same : stock.entries["init"]? = patched.entries["init"]? := by rw [equal]
    exact absurd same (by decide)
  refine ⟨loadFromData_dump_stock, unequal, ?_⟩
  rw [restore_backup_skip_iff marking patched stock (dump stock) loadFromData_dump_stock
    plainNames_patched.noBackup plainNames_stock.noBackup nulFree_patched unequal]
  exact ⟨clear_stock _ _, ordinaryNames_stock _, plainNames_patched.removable, "init", by decide⟩

/-- A ramdisk with a packed file in it. -/
def packedStock : Cpio :=
  ⟨.ofList [("a.xz", plainEntry sIfreg [0xfd, 7]), ("init", plainEntry sIfreg [1])]⟩

/-- The same without the packed file. -/
def unpackedStock : Cpio :=
  ⟨.ofList [("init", plainEntry sIfreg [1])]⟩

theorem loadFromData_dump_packedStock : loadFromData (dump packedStock) = .ok packedStock := by
  apply loadFromData_dump_eq
  refine ⟨by decide, Map.forall_getElem?_iff.mpr fun item mem => ?_⟩
  fin_cases mem <;> constructor <;> decide

/-- A packed file does not come back. -/
theorem not_restore_packed : NoBackup packedStock.entries ∧ NoBackup unpackedStock.entries ∧
      loadFromData (dump packedStock) = .ok packedStock ∧
      packedStock.entries["a.xz"]? = some (plainEntry sIfreg [0xfd, 7]) ∧
      ∃ saved : Cpio, backup marking unpackedStock (dump packedStock) true = .ok saved ∧
        (restore marking saved).entries["a.xz"]? = none := by
  have outsideO : NoBackup packedStock.entries := Map.forall_mem_iff.mpr (by decide)
  have outsideC : NoBackup unpackedStock.entries := Map.forall_mem_iff.mpr (by decide)
  have absent : unpackedStock.entries["a.xz"]? = none := by decide
  have saves : Saves packedStock.entries unpackedStock.entries "a.xz"
      (plainEntry sIfreg [0xfd, 7]) := by
    refine ⟨by decide, fun other found => ?_⟩
    cases found
  have misread : Misread marking packedStock.entries unpackedStock.entries "a.xz" :=
    ⟨_, [7], saves, by decide, by decide, rfl⟩
  obtain ⟨saved, succeeded, carries⟩ :=
    backup_carries marking true loadFromData_dump_packedStock outsideC outsideO
  refine ⟨outsideO, outsideC, loadFromData_dump_packedStock, saves.1, saved, succeeded, ?_⟩
  have missing : (collected marking saved.entries).backups["a.xz"]? = none := by
    rw [Option.eq_none_iff_forall_ne_some]
    intro entry found
    rcases carries.source_of_collected found with ⟨_, _, clear⟩ | longer
    · exact clear misread
    · exact absurd longer.mem (by decide)
  rcases carries.getElem?_restore_of_none outsideC missing with gone | stayed
  · exact gone
  · exact stayed.trans absent

/-! ## Backups against an identical original -/

/-- Restoring after a backup against an identical original leaves an archive without
entries. -/
theorem restore_backup_self (xz : Xz) (skipCompress : Bool) (r : Cpio) (origin : List UInt8)
    (loaded : loadFromData origin = .ok r) (outside : NoBackup r.entries) :
    ∃ saved : Cpio, backup xz r origin skipCompress = .ok saved ∧ restore xz saved = ⟨∅⟩ := by
  obtain ⟨saved, succeeded, carries⟩ := backup_carries xz skipCompress loaded outside outside
  exact ⟨saved, succeeded, carries.restore_of_not_differ outside (not_differ_self r.entries)⟩

theorem restore_backup_self_stock : loadFromData (dump stock) = .ok stock ∧
      ∃ saved : Cpio, backup marking stock (dump stock) false = .ok saved ∧
        restore marking saved = ⟨∅⟩ :=
  ⟨loadFromData_dump_stock, restore_backup_self marking false stock (dump stock)
    loadFromData_dump_stock plainNames_stock.noBackup⟩

/-- The stock ramdisk does not survive a backup against itself. -/
theorem not_restore_stock : NoBackup stock.entries ∧ loadFromData (dump stock) = .ok stock ∧
      stock.entries["init"]? = some (plainEntry sIfreg [1]) ∧
      ∃ saved : Cpio, backup marking stock (dump stock) false = .ok saved ∧
        (restore marking saved).entries["init"]? = none := by
  refine ⟨plainNames_stock.noBackup, loadFromData_dump_stock, by decide, ?_⟩
  obtain ⟨saved, succeeded, carries⟩ := backup_carries marking false loadFromData_dump_stock
    plainNames_stock.noBackup plainNames_stock.noBackup
  refine ⟨saved, succeeded, ?_⟩
  rw [carries.restore_of_not_differ plainNames_stock.noBackup (not_differ_self _)]
  exact ExtTreeMap.getElem?_empty

end Magisk.Boot.Cpio
