import Magisk.Boot.Cpio.Restore
import Magisk.Bytes.Order

/-!
# The merge of a backup

The comparison loop holds one element of each iterator and puts back the one it did not
use.  What it has not dealt with yet is what it holds followed by what the iterators still
have, and on that its actions are those of the comparison in step.  A backup without
compression then is the current archive with the saved entries and the new names below
`.backup/`.
-/

namespace Magisk.Boot.Cpio

open Std (ExtTreeMap)
open Option Std.ExtTreeMap List Bytes Text

/-! ## The loop with held elements -/

/-- The two iterators of the comparison loop and the elements held of them. -/
structure Heads where
  lhs : Option (String × CpioEntry)
  left : List (String × CpioEntry)
  rhs : Option (String × CpioEntry)
  right : List (String × CpioEntry)

/-- Move an iterator forward if nothing is held of it. -/
def refill : Option (String × CpioEntry) → List (String × CpioEntry) →
    Option (String × CpioEntry) × List (String × CpioEntry)
  | none, items => (items.head?, items.tail)
  | some item, items => (some item, items)

namespace Heads

/-- The loop is entered with the first element of each. -/
def start (left right : List (String × CpioEntry)) : Heads :=
  ⟨left.head?, left.tail, right.head?, right.tail⟩

/-- One round of the loop: its action and the elements held after it, or `none` where it
breaks. -/
def round (heads : Heads) : Option (Action × Heads) :=
  let (lhs, left) := refill heads.lhs heads.left
  let (rhs, right) := refill heads.rhs heads.right
  match lhs, rhs with
  | some (ln, le), some (rn, re) =>
    match compare ln rn with
    | .lt => some (.backup ln le, ⟨none, left, some (rn, re), right⟩)
    | .gt => some (.record rn, ⟨some (ln, le), left, none, right⟩)
    | .eq => some (if re.data ≠ le.data then .backup ln le else .noop, ⟨none, left, none, right⟩)
  | some (ln, le), none => some (.backup ln le, ⟨none, left, none, right⟩)
  | none, some (rn, _) => some (.record rn, ⟨none, left, none, right⟩)
  | none, none => none

/-- The original entries that have not been dealt with. -/
def lefts (heads : Heads) : List (String × CpioEntry) :=
  heads.lhs.toList ++ heads.left

/-- The current entries that have not been dealt with. -/
def rights (heads : Heads) : List (String × CpioEntry) :=
  heads.rhs.toList ++ heads.right

theorem refill_eq (held : Option (String × CpioEntry)) (items : List (String × CpioEntry)) :
    refill held items = ((held.toList ++ items).head?, (held.toList ++ items).tail) := by
  cases held <;> rfl

/-- What a round does depends on the entries that are left alone. -/
theorem round_eq (heads : Heads) : heads.round =
      match heads.lefts, heads.rights with
      | (ln, le) :: left, (rn, re) :: right =>
        match compare ln rn with
        | .lt => some (.backup ln le, ⟨none, left, some (rn, re), right⟩)
        | .gt => some (.record rn, ⟨some (ln, le), left, none, right⟩)
        | .eq =>
          some (if re.data ≠ le.data then .backup ln le else .noop, ⟨none, left, none, right⟩)
      | (ln, le) :: left, [] => some (.backup ln le, ⟨none, left, none, []⟩)
      | [], (rn, _) :: right => some (.record rn, ⟨none, [], none, right⟩)
      | [], [] => none := by
  rw [round, refill_eq, refill_eq, ← lefts, ← rights]
  cases heads.lefts <;> cases heads.rights <;> rfl

/-- A round takes the next action of the comparison and leaves the rest of it. -/
theorem actions_round (heads : Heads) : actions heads.lefts heads.rights =
      match heads.round with
      | none => []
      | some (action, next) => action :: actions next.lefts next.rights := by
  rw [round_eq]
  rcases heads.lefts with _ | ⟨⟨ln, le⟩, left⟩
  · rcases heads.rights with _ | ⟨⟨rn, re⟩, right⟩
    · rw [actions]
    · rw [actions]
      rfl
  · rcases heads.rights with _ | ⟨⟨rn, re⟩, right⟩
    · rw [actions]
      rfl
    · rw [actions]
      dsimp only
      cases compare ln rn <;> rfl

theorem length_round {heads next : Heads} {action : Action}
    (round : heads.round = some (action, next)) :
    next.lefts.length + next.rights.length < heads.lefts.length + heads.rights.length := by
  rw [round_eq] at round
  generalize heads.lefts = lefts at round ⊢
  generalize heads.rights = rights at round ⊢
  split at round
  · split at round
    all_goals
      cases round
      simp only [lefts, rights, toList_none, toList_some, nil_append, cons_append, length_cons]
      omega
  · cases round
    simp [lefts, rights]
  · cases round
    simp [lefts, rights]
  · contradiction

/-- The actions of the loop, round after round until it breaks. -/
def loop (heads : Heads) : List Action :=
  match _round : heads.round with
  | none => []
  | some (action, next) => action :: loop next
termination_by heads.lefts.length + heads.rights.length
decreasing_by exact length_round _round

/-- The loop performs the comparison of the entries it has not dealt with. -/
theorem loop_eq_actions (heads : Heads) : heads.loop = actions heads.lefts heads.rights := by
  fun_induction loop heads with
  | case1 heads broke => rw [actions_round, broke]
  | case2 heads action next round ih => rw [actions_round, round, ih]

theorem loop_start (left right : List (String × CpioEntry)) :
    (start left right).loop = actions left right := by
  rw [loop_eq_actions]
  cases left <;> cases right <;> rfl

end Heads

/-! ## New names in order -/

/-- The recorded names are met in the order of the current archive. -/
theorem recorded_sublist (left right : List (String × CpioEntry)) :
    ((actions left right).filterMap Action.recorded).Sublist (right.map Prod.fst) := by
  fun_induction actions left right with
  | case1 ln le left rn re right less ih => exact ih
  | case2 ln le left rn re right greater ih => exact ih.cons_cons rn
  | case3 ln le left rn re right equal ih =>
    have notRecorded : (if re.data ≠ le.data then Action.backup ln le else .noop).recorded =
        none := by
      split <;> rfl
    rw [filterMap_cons_none notRecorded]
    exact ih.cons rn
  | case4 ln le left ih => exact ih
  | case5 rn re right ih => exact ih.cons_cons rn
  | case6 => exact nil_sublist _

/-- The new names are listed in ascending byte order. -/
theorem newNames_ordered (original current : Entries) :
    ((newNames original current).map utf8).Pairwise (· < ·) := by
  have ordered : (current.toList.map Prod.fst).Pairwise fun left right => compare left right = .lt :=
    pairwise_map.mpr (ordered_toList current)
  exact pairwise_map.mpr ((ordered.sublist (recorded_sublist _ _)).imp utf8_lt)

theorem utf8_terminated_nul (names : List String) :
    utf8 (terminated (Char.ofNat 0) names) = names.flatMap fun name => utf8 name ++ [0] := by
  induction names with
  | nil => decide
  | cons name names ih =>
    have one := terminated_append (Char.ofNat 0) [name] names
    have nul : utf8 (String.singleton (Char.ofNat 0)) = [0] := by decide
    rw [terminated_singleton, singleton_append] at one
    rw [one, utf8_append, utf8_append, nul, ih, flatMap_cons]

/-! ## A backup without compression -/

/-- `saved` is `current` with the backup directory against `original`: the entries that were
there, the directory, the original entries that are missing or different, the names that are
new, and nothing else. -/
structure Merged (original current saved : Entries) : Prop where
  unchanged : ∀ name ∈ current, saved[name]? = current[name]?
  root : saved[".backup"]? = some (plainEntry sIfdir [])
  kept : ∀ name entry, Saves original current name entry →
    saved[".backup/" ++ name]? = some entry
  list : ∃ names : List String, (names.map utf8).Pairwise (· < ·) ∧
    (∀ name, name ∈ names ↔ name ∈ current ∧ name ∉ original) ∧
    (names ≠ [] → saved[".backup/.rmlist"]? =
      some (plainEntry sIfreg (names.flatMap fun name => utf8 name ++ [0])))
  nothingElse : ∀ name ∈ saved, name ∈ current ∨ name = ".backup" ∨
    (∃ savedName entry, Saves original current savedName entry ∧ name = ".backup/" ++ savedName) ∨
    (name = ".backup/.rmlist" ∧ ∃ new ∈ current, new ∉ original)

section Merged

variable {xz : Xz} {original current : Entries}

theorem getElem?_directory_root (skipCompress : Bool) :
    (directory xz skipCompress original current)[".backup"]? = some (plainEntry sIfdir []) := by
  have notStored : ∀ entry, (".backup", entry) ∉ storedItems xz skipCompress original current := by
    intro entry mem
    obtain ⟨name, originalEntry, _, stored⟩ := mem_storedItems_iff.mp mem
    have starts := startsWith_storedAs xz skipCompress name originalEntry
    rw [stored] at starts
    exact absurd starts (show startsWith ".backup" ".backup/" ≠ true by decide)
  rw [getElem?_directory, if_neg fun both => absurd both.1 (by decide), storedEntries,
    Map.getElem?_insertMany_of_notMem notStored, getElem?_insert_self]

/-- Without compression a saved entry is found below the directory as it was. -/
theorem getElem?_directory_skip {name : String} {entry : CpioEntry}
    (saves : Saves original current name entry) (notList : name ≠ ".rmlist") :
    (directory xz true original current)[".backup/" ++ name]? = some entry := by
  have notReserved : (storedAs xz true name entry).1 ≠ ".backup/.rmlist" := by
    exact fun equal => notList ((String.append_right_inj ".backup/").mp equal)
  obtain ⟨other, otherEntry, otherSaves, samePlace, found⟩ :=
    exists_directory_storedAs saves notReserved
  cases (String.append_right_inj ".backup/").mp samePlace
  cases saves.unique otherSaves
  exact found

theorem mem_newNames {name : String} :
    name ∈ newNames original current ↔ name ∈ current ∧ name ∉ original := by
  rw [mem_newNames_iff, mem_iff_isSome_getElem?, mem_iff_isSome_getElem?,
    isSome_iff_exists, Bool.not_eq_true, isSome_eq_false_iff, isNone_iff_eq_none]

theorem merged_directory (noBackup : NoBackup current) (noList : ".rmlist" ∉ original) :
    Merged original current (current.insertMany (directory xz true original current).toList) := by
  constructor
  · intro name present
    obtain ⟨notRoot, notBelow⟩ := noBackup name present
    rw [Map.getElem?_insertMany_toList, getElem?_directory_of_outside notRoot notBelow, none_or]
  · rw [Map.getElem?_insertMany_toList, getElem?_directory_root, some_or]
  · intro name entry saves
    have notList : name ≠ ".rmlist" := by
      rintro rfl
      exact noList (mem_iff_isSome_getElem?.mpr (by rw [saves.1]; rfl))
    rw [Map.getElem?_insertMany_toList, getElem?_directory_skip saves notList, some_or]
  · refine ⟨newNames original current, newNames_ordered original current,
      fun name => mem_newNames, fun someNew => ?_⟩
    rw [Map.getElem?_insertMany_toList, getElem?_directory, if_pos ⟨rfl, someNew⟩, some_or,
      rmEntry, utf8_terminated_nul]
  · intro name present
    rw [mem_iff_isSome_getElem?, Map.getElem?_insertMany_toList, isSome_or,
      Bool.or_eq_true, ← mem_iff_isSome_getElem?, ← mem_iff_isSome_getElem?]
      at present
    rcases present with inDirectory | inCurrent
    · right
      by_cases isRoot : name = ".backup"
      · exact Or.inl isRoot
      · right
        by_cases isList : name = ".backup/.rmlist" ∧ newNames original current ≠ []
        · obtain ⟨new, isNew⟩ := exists_mem_of_ne_nil _ isList.2
          exact Or.inr ⟨isList.1, new, mem_newNames.mp isNew⟩
        · obtain ⟨entry, found⟩ := isSome_iff_exists.mp (mem_iff_isSome_getElem?.mp inDirectory)
          obtain ⟨originalName, originalEntry, saves, stored⟩ :=
            exists_storedAs_of_directory found isRoot isList
          exact Or.inl ⟨originalName, originalEntry, saves, (congrArg Prod.fst stored).symm⟩
    · exact Or.inl inCurrent

end Merged

/-- A backup without compression adds the saved entries and the list of new names, and
nothing else. -/
theorem backup_merged (xz : Xz) (c o : Cpio) (origin : List UInt8)
    (loaded : loadFromData origin = .ok o) (outsideC : NoBackup c.entries)
    (outsideO : NoBackup o.entries) (noList : ".rmlist" ∉ o.entries) :
    ∃ saved : Cpio, backup xz c origin true = .ok saved ∧
      Merged o.entries c.entries saved.entries := by
  refine ⟨backupAgainst xz c o true, ?_, ?_⟩
  · rw [backup, loaded]
    rfl
  · rw [backupAgainst_eq outsideC outsideO]
    exact merged_directory outsideC noList

theorem backup_merged_patched : loadFromData (dump stock) = .ok stock ∧
      ∃ saved : Cpio, backup marking patched (dump stock) true = .ok saved ∧
        Merged stock.entries patched.entries saved.entries :=
  ⟨loadFromData_dump_stock, backup_merged marking patched stock (dump stock)
    loadFromData_dump_stock plainNames_patched.noBackup plainNames_stock.noBackup (by decide)⟩

end Magisk.Boot.Cpio
