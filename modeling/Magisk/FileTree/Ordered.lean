import Magisk.FileTree.Core

/-!
# Entries in the order of their names

A list of entries that is kept in the order of the names stands for a map: it is
determined by what is found under each name.  An entry is changed, or entered where
it belongs, in one pass.
-/

namespace Magisk.FileTree

open List

universe u v

variable {Name : Type u} {Value : Type v} [LinearOrder Name]

/-- The names are increasing. -/
def Ordered (entries : List (Name × Value)) : Prop :=
  entries.Pairwise fun first second => first.1 < second.1

/-- Change the entry of a name, or enter one. -/
def upsert (name : Name) (change : Option Value → Value) :
    List (Name × Value) → List (Name × Value)
  | [] => [(name, change none)]
  | (first, value) :: rest =>
    if name < first then (name, change none) :: (first, value) :: rest
    else if name = first then (first, change (some value)) :: rest
    else (first, value) :: upsert name change rest

section Upsert

variable {name other : Name} {change : Option Value → Value} {entries rest : List (Name × Value)}
  {first : Name} {value : Value}

theorem upsert_of_lt (before : name < first) :
    upsert name change ((first, value) :: rest) =
      (name, change none) :: (first, value) :: rest :=
  if_pos before

theorem upsert_self :
    upsert name change ((name, value) :: rest) = (name, change (some value)) :: rest := by
  rw [upsert, if_neg (lt_irrefl name), if_pos rfl]

theorem upsert_of_gt (behind : first < name) :
    upsert name change ((first, value) :: rest) = (first, value) :: upsert name change rest := by
  rw [upsert, if_neg (not_lt_of_gt behind), if_neg (ne_of_gt behind)]

/-- Names before all names of a list are not found in it. -/
theorem find_eq_none_of_forall_lt (before : ∀ entry ∈ entries, name < entry.1) :
    find name entries = none := by
  apply find_eq_none_of_notMem
  intro mem
  rcases mem_map.mp mem with ⟨entry, entryMem, rfl⟩
  exact lt_irrefl _ (before entry entryMem)

theorem find_upsert_self (ordered : Ordered entries) :
    find name (upsert name change entries) = some (change (find name entries)) := by
  induction entries with
  | nil => exact if_pos rfl
  | cons entry rest ih =>
    rcases entry with ⟨first, value⟩
    rw [Ordered, pairwise_cons] at ordered
    rcases lt_trichotomy name first with before | rfl | behind
    · have absent : find name ((first, value) :: rest) = none := by
        apply find_eq_none_of_forall_lt
        intro entry mem
        rcases mem_cons.mp mem with rfl | mem
        · exact before
        · exact before.trans (ordered.1 entry mem)
      rw [upsert_of_lt before, absent]
      exact if_pos rfl
    · rw [upsert_self, find, if_pos rfl, find, if_pos rfl]
    · rw [upsert_of_gt behind, find, if_neg (ne_of_lt behind), find, if_neg (ne_of_lt behind),
        ih ordered.2]

theorem find_upsert_of_ne (different : other ≠ name) :
    find other (upsert name change entries) = find other entries := by
  induction entries with
  | nil => exact if_neg (Ne.symm different)
  | cons entry rest ih =>
    rcases entry with ⟨first, value⟩
    rcases lt_trichotomy name first with before | rfl | behind
    · rw [upsert_of_lt before, find, if_neg (Ne.symm different)]
    · rw [upsert_self, find, if_neg (Ne.symm different), find, if_neg (Ne.symm different)]
    · rw [upsert_of_gt behind, find, find, ih]

/-- An entry after an upsert is the changed one or an old one. -/
theorem mem_upsert {entry : Name × Value} (mem : entry ∈ upsert name change entries) :
    (entry.1 = name ∧ ∃ old, entry.2 = change old ∧ ∀ node, old = some node →
        (name, node) ∈ entries) ∨ entry ∈ entries := by
  induction entries with
  | nil =>
    cases mem_singleton.mp mem
    exact Or.inl ⟨rfl, none, rfl, nofun⟩
  | cons head rest ih =>
    rcases head with ⟨first, value⟩
    rcases lt_trichotomy name first with before | rfl | behind
    · rw [upsert_of_lt before] at mem
      rcases mem_cons.mp mem with rfl | mem
      · exact Or.inl ⟨rfl, none, rfl, nofun⟩
      · exact Or.inr mem
    · rw [upsert_self] at mem
      rcases mem_cons.mp mem with rfl | mem
      · refine Or.inl ⟨rfl, some value, rfl, ?_⟩
        rintro node ⟨⟩
        exact mem_cons_self
      · exact Or.inr (mem_cons_of_mem _ mem)
    · rw [upsert_of_gt behind] at mem
      rcases mem_cons.mp mem with rfl | mem
      · exact Or.inr mem_cons_self
      · rcases ih mem with ⟨same, old, changed, stored⟩ | mem
        · exact Or.inl ⟨same, old, changed, fun node isOld =>
            mem_cons_of_mem _ (stored node isOld)⟩
        · exact Or.inr (mem_cons_of_mem _ mem)

theorem ordered_upsert (ordered : Ordered entries) : Ordered (upsert name change entries) := by
  induction entries with
  | nil => exact pairwise_singleton _ _
  | cons entry rest ih =>
    rcases entry with ⟨first, value⟩
    have parts := pairwise_cons.mp ordered
    rcases lt_trichotomy name first with before | rfl | behind
    · rw [upsert_of_lt before]
      refine pairwise_cons.mpr ⟨fun entry mem => ?_, ordered⟩
      rcases mem_cons.mp mem with rfl | mem
      · exact before
      · exact before.trans (parts.1 entry mem)
    · rw [upsert_self]
      exact pairwise_cons.mpr parts
    · rw [upsert_of_gt behind]
      refine pairwise_cons.mpr ⟨fun entry mem => ?_, ih parts.2⟩
      rcases mem_upsert mem with ⟨same, _⟩ | mem
      · rw [same]
        exact behind
      · exact parts.1 entry mem

end Upsert

/-- An ordered list is determined by what is found in it. -/
theorem Ordered.ext {left right : List (Name × Value)} (leftOrdered : Ordered left)
    (rightOrdered : Ordered right) (same : ∀ name, find name left = find name right) :
    left = right := by
  have first : ∀ {name : Name} {value : Value} {rest : List (Name × Value)},
      find name ((name, value) :: rest) = some value := if_pos rfl
  induction left generalizing right with
  | nil =>
    cases right with
    | nil => rfl
    | cons entry rest =>
      have found := same entry.1
      rw [first] at found
      cases found
  | cons entry rest ih =>
    cases right with
    | nil =>
      have found := same entry.1
      rw [first] at found
      cases found
    | cons other others =>
      rcases entry with ⟨name, value⟩
      rcases other with ⟨otherName, otherValue⟩
      have parts := pairwise_cons.mp leftOrdered
      have otherParts := pairwise_cons.mp rightOrdered
      rcases lt_trichotomy name otherName with before | rfl | behind
      · have found := same name
        rw [first, find_eq_none_of_forall_lt] at found
        · cases found
        · intro entry mem
          rcases mem_cons.mp mem with rfl | mem
          · exact before
          · exact before.trans (otherParts.1 entry mem)
      · have found := same name
        rw [first, first, Option.some.injEq] at found
        subst found
        congr 1
        apply ih parts.2 otherParts.2
        intro key
        by_cases here : name = key
        · subst here
          rw [find_eq_none_of_forall_lt parts.1, find_eq_none_of_forall_lt otherParts.1]
        · have later := same key
          rwa [find, if_neg here, find, if_neg here] at later
      · have found := same otherName
        rw [first, find_eq_none_of_forall_lt] at found
        · cases found
        · intro entry mem
          rcases mem_cons.mp mem with rfl | mem
          · exact behind
          · exact behind.trans (parts.1 entry mem)

end Magisk.FileTree
