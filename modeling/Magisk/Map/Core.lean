import Mathlib

/-!
# Ordered maps extended by other maps

Lookup in an ordered map after all entries of another one have been inserted
into it.  The inserted map wins on every key it has.
-/

namespace Magisk.Map

open Std.ExtTreeMap List Std

universe u v

variable {α : Type u} {β : Type v} {cmp : α → α → Ordering} [TransCmp cmp] [LawfulEqCmp cmp]
  {map : ExtTreeMap α β cmp} {items : List (α × β)} {key : α} {value : β}

/-- Keys outside the inserted list keep their value. -/
theorem getElem?_insertMany_of_notMem (absent : ∀ value, (key, value) ∉ items) :
    (map.insertMany items)[key]? = map[key]? := by
  induction items generalizing map with
  | nil => rfl
  | cons item items ih =>
    obtain ⟨other, value⟩ := item
    have other_ne : cmp other key ≠ .eq := by
      intro equal
      cases LawfulEqCmp.eq_of_compare equal
      exact absent value mem_cons_self
    rw [ExtTreeMap.insertMany_cons, ih (fun value mem => absent value (mem_cons_of_mem _ mem)),
      ExtTreeMap.getElem?_insert, if_neg other_ne]

/-- Lookup after inserting a list of distinct keys. -/
theorem getElem?_insertMany_of_mem (distinct : items.Pairwise fun a b => ¬ cmp a.1 b.1 = .eq)
    (mem : (key, value) ∈ items) : (map.insertMany items)[key]? = some value := by
  induction items generalizing map with
  | nil => simp at mem
  | cons item items ih =>
    obtain ⟨headDistinct, tailDistinct⟩ := pairwise_cons.mp distinct
    rw [insertMany_cons]
    rcases mem_cons.mp mem with rfl | tailMem
    · rw [getElem?_insertMany_of_notMem, getElem?_insert_self]
      intro other otherMem
      exact headDistinct _ otherMem ReflCmp.compare_self
    · exact ih tailDistinct tailMem

/-- Every key of the inserted list is found, with one of its listed values. -/
theorem exists_getElem?_insertMany_eq_some (map : ExtTreeMap α β cmp) (mem : (key, value) ∈ items) :
    ∃ last, (map.insertMany items)[key]? = some last ∧ (key, last) ∈ items := by
  induction items generalizing map value with
  | nil => simp at mem
  | cons item items ih =>
    rw [insertMany_cons]
    by_cases later : ∃ other, (key, other) ∈ items
    · obtain ⟨other, otherMem⟩ := later
      obtain ⟨last, found, lastMem⟩ := ih (map.insert item.1 item.2) otherMem
      exact ⟨last, found, mem_cons_of_mem item lastMem⟩
    · rcases mem_cons.mp mem with rfl | tailMem
      · refine ⟨value, ?_, mem_cons_self⟩
        rw [getElem?_insertMany_of_notMem (not_exists.mp later), getElem?_insert_self]
      · exact absurd ⟨value, tailMem⟩ later

/-- A value found after inserting a list is listed or was there before. -/
theorem mem_or_of_getElem?_insertMany_eq_some (found : (map.insertMany items)[key]? = some value) :
    (key, value) ∈ items ∨ map[key]? = some value := by
  by_cases listed : ∃ other, (key, other) ∈ items
  · obtain ⟨other, otherMem⟩ := listed
    obtain ⟨last, lastFound, lastMem⟩ := exists_getElem?_insertMany_eq_some map otherMem
    rw [found, Option.some.injEq] at lastFound
    exact Or.inl (lastFound ▸ lastMem)
  · rw [getElem?_insertMany_of_notMem (not_exists.mp listed)] at found
    exact Or.inr found

/-- Extending by a map overrides exactly its own keys. -/
theorem getElem?_insertMany_toList (map extension : ExtTreeMap α β cmp) (key : α) :
    (map.insertMany extension.toList)[key]? = extension[key]?.or map[key]? := by
  cases lookup : extension[key]? with
  | some value =>
    exact getElem?_insertMany_of_mem distinct_keys_toList
      (mem_toList_iff_getElem?_eq_some.mpr lookup)
  | none =>
    apply getElem?_insertMany_of_notMem
    intro value mem
    rw [mem_toList_iff_getElem?_eq_some, lookup] at mem
    contradiction

/-- Inserting all entries of a map into the empty one copies it. -/
theorem empty_insertMany_toList (map : ExtTreeMap α β cmp) :
    (∅ : ExtTreeMap α β cmp).insertMany map.toList = map := by
  apply ExtTreeMap.ext_getElem?
  intro key
  rw [getElem?_insertMany_toList, ExtTreeMap.getElem?_empty, Option.or_none]

/-- A property of all entries of a map can be checked on its list. -/
theorem forall_getElem?_iff {property : α → β → Prop} :
    (∀ key value, map[key]? = some value → property key value) ↔
      ∀ item ∈ map.toList, property item.1 item.2 := by
  constructor
  · intro all item mem
    exact all item.1 item.2 (mem_toList_iff_getElem?_eq_some.mp mem)
  · intro all key value found
    exact all (key, value) (mem_toList_iff_getElem?_eq_some.mpr found)

theorem forall_mem_iff {property : α → Prop} :
    (∀ key ∈ map, property key) ↔ ∀ item ∈ map.toList, property item.1 := by
  constructor
  · intro all item mem
    apply all
    rw [mem_iff_isSome_getElem?, mem_toList_iff_getElem?_eq_some.mp mem, Option.isSome_some]
  · intro all key mem
    rw [mem_iff_isSome_getElem?, Option.isSome_iff_exists] at mem
    obtain ⟨value, found⟩ := mem
    exact all (key, value) (mem_toList_iff_getElem?_eq_some.mpr found)

end Magisk.Map
