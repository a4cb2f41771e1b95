import Mathlib

/-!
# Binary search

The binary search of Rust's slices: the searched part is halved without looking
whether the middle element is the one that is searched for, and only the last
element that is left is compared for equality.  On a list that is ordered with
respect to what is searched for, the search returns the position of an equal
element, or the position where such an element would have to be inserted.
-/

namespace Magisk.Search

open List

universe u

variable {base : Nat} {α : Type u}

/-- The start of the part of one element that is left in the end. -/
def narrow (compare : α → Ordering) (list : List α) (base size : Nat) : Nat :=
  if size ≤ 1 then base
  else
    let half := size / 2
    let mid := base + half
    let base := if list[mid]?.any fun a => compare a = .gt then base else mid
    narrow compare list base (size - half)
termination_by size

/-- `binary_search_by`: the position of an equal element, or as an error where it
would be inserted. -/
def binarySearchBy (compare : α → Ordering) (list : List α) : Except Nat Nat :=
  let base := narrow compare list 0 list.length
  match list[base]? with
  | none => .error 0
  | some a =>
    match compare a with
    | .eq => .ok base
    | .lt => .error (base + 1)
    | .gt => .error base

/-- The elements that are less come first and those that are greater last. -/
def Ordered (compare : α → Ordering) (list : List α) : Prop :=
  list.Pairwise fun a b =>
    (compare b = .lt → compare a = .lt) ∧ (compare a = .gt → compare b = .gt)

variable {a b : α}

section Narrow

variable {compare : α → Ordering} {list : List α} {i j : Nat}

/-- What the loop keeps: everything behind the part is greater, and its first
element is not, unless it is the first of all. -/
structure Encloses (compare : α → Ordering) (list : List α) (base size : Nat) : Prop where
  positive : 0 < size
  inside : base + size ≤ list.length
  behind : ∀ index a, base + size ≤ index → list[index]? = some a → compare a = .gt
  first : 0 < base → ∀ a, list[base]? = some a → compare a ≠ .gt

theorem Ordered.gt_of_le (ordered : Ordered compare list) (le : i ≤ j) (first : list[i]? = some a)
    (second : list[j]? = some b) (greater : compare a = .gt) : compare b = .gt := by
  rcases Nat.eq_or_lt_of_le le with rfl | lt
  · rw [first, Option.some.injEq] at second
    rwa [← second]
  · rw [List.getElem?_eq_some_iff] at first second
    rcases first with ⟨small, rfl⟩
    rcases second with ⟨large, rfl⟩
    exact (pairwise_iff_getElem.mp ordered i j small large lt).2 greater

theorem Ordered.lt_of_le (ordered : Ordered compare list) (le : i ≤ j) (first : list[i]? = some a)
    (second : list[j]? = some b) (less : compare b = .lt) : compare a = .lt := by
  rcases Nat.eq_or_lt_of_le le with rfl | lt
  · rw [first, Option.some.injEq] at second
    rwa [second]
  · rw [List.getElem?_eq_some_iff] at first second
    rcases first with ⟨small, rfl⟩
    rcases second with ⟨large, rfl⟩
    exact (pairwise_iff_getElem.mp ordered i j small large lt).1 less

theorem encloses_narrow (ordered : Ordered compare list) {size : Nat}
    (encloses : Encloses compare list base size) :
    Encloses compare list (narrow compare list base size) 1 := by
  induction size using Nat.strong_induction_on generalizing base with
  | _ size ih =>
    rw [narrow]
    split
    · rename_i one
      have isOne : size = 1 := Nat.le_antisymm one encloses.positive
      rwa [isOne] at encloses
    · have inside := encloses.inside
      have middle : base + size / 2 < list.length := by omega
      have found := getElem?_eq_getElem middle
      apply ih (size - size / 2) (by omega)
      rw [found, Option.any_some]
      split
      · rename_i greater
        rw [decide_eq_true_eq] at greater
        refine ⟨by omega, by omega, ?_, encloses.first⟩
        intro index a behind isElement
        exact ordered.gt_of_le (by omega) found isElement greater
      · rename_i notGreater
        rw [decide_eq_true_eq] at notGreater
        refine ⟨by omega, by omega, ?_, ?_⟩
        · intro index a behind isElement
          exact encloses.behind index a (by omega) isElement
        · intro _ a isElement
          rw [found, Option.some.injEq] at isElement
          rwa [← isElement]

end Narrow

variable {compare : α → Ordering} {list : List α}

/-- The outcome of a search. -/
inductive Outcome (compare : α → Ordering) (list : List α) : Except Nat Nat → Prop
  | found (before after : List α) (a : α) (split : list = before ++ a :: after)
      (equal : compare a = .eq) : Outcome compare list (.ok before.length)
  | absent (before after : List α) (split : list = before ++ after)
      (less : ∀ a ∈ before, compare a = .lt) (greater : ∀ a ∈ after, compare a = .gt) :
      Outcome compare list (.error before.length)

theorem Encloses.gt_of_mem_drop (encloses : Encloses compare list base 1)
    (mem : a ∈ list.drop (base + 1)) : compare a = .gt := by
  rcases mem_iff_getElem?.mp mem with ⟨index, isElement⟩
  rw [getElem?_drop] at isElement
  exact encloses.behind _ a (Nat.le_add_right _ _) isElement

theorem Ordered.lt_of_mem_take (ordered : Ordered compare list) (found : list[base]? = some b)
    (less : compare b = .lt) (mem : a ∈ list.take (base + 1)) : compare a = .lt := by
  rcases mem_iff_getElem?.mp mem with ⟨index, isElement⟩
  rw [getElem?_take] at isElement
  split at isElement
  · rename_i small
    exact ordered.lt_of_le (Nat.le_of_lt_succ small) isElement found less
  · cases isElement

/-- A search on an ordered list finds what is there. -/
theorem outcome_binarySearchBy (ordered : Ordered compare list) :
    Outcome compare list (binarySearchBy compare list) := by
  rcases Nat.eq_zero_or_pos list.length with empty | positive
  · rw [length_eq_zero_iff.mp empty]
    have nothing : binarySearchBy compare ([] : List α) = .error 0 := by
      rfl
    exact .absent [] [] rfl nofun nofun
  · have whole : Encloses compare list 0 list.length := by
      refine ⟨positive, by omega, ?_, fun zero => absurd zero (Nat.lt_irrefl 0)⟩
      intro index a behind isElement
      rw [getElem?_eq_none (by omega)] at isElement
      cases isElement
    have encloses := encloses_narrow ordered whole
    rw [binarySearchBy]
    generalize narrow compare list 0 list.length = base at encloses ⊢
    have inside := encloses.inside
    have small : base < list.length := by omega
    have lengths : (list.take base).length = base ∧ (list.take (base + 1)).length = base + 1 := by
      simp only [length_take]
      omega
    have found := getElem?_eq_getElem small
    rw [found]
    dsimp only
    split
    · rename_i equal
      have outcome := Outcome.found (list.take base) (list.drop (base + 1)) list[base]
        (by rw [← drop_eq_getElem_cons small, take_append_drop]) equal
      rwa [lengths.1] at outcome
    · rename_i less
      have outcome : Outcome compare list (.error (list.take (base + 1)).length) :=
        .absent (list.take (base + 1)) (list.drop (base + 1)) (take_append_drop _ _).symm
          (fun _ mem => ordered.lt_of_mem_take found less mem)
          (fun _ mem => encloses.gt_of_mem_drop mem)
      rwa [lengths.2] at outcome
    · rename_i greater
      have first : base = 0 := by
        by_contra later
        exact encloses.first (Nat.pos_of_ne_zero later) _ found greater
      subst first
      refine Outcome.absent [] list rfl nofun ?_
      intro a mem
      rcases mem_iff_getElem?.mp mem with ⟨index, isElement⟩
      exact ordered.gt_of_le (Nat.zero_le index) found isElement greater

/-! ## Edits at a position that was found -/

theorem modify_middle (before after : List α) (a : α) (edit : α → α) :
    (before ++ a :: after).modify before.length edit = before ++ edit a :: after := by
  induction before with
  | nil => rfl
  | cons first before ih =>
    rw [cons_append, length_cons, modify_succ_cons, ih, cons_append]

theorem insertIdx_middle (before after : List α) (a : α) :
    (before ++ after).insertIdx before.length a = before ++ a :: after := by
  induction before with
  | nil => rfl
  | cons first before ih =>
    rw [cons_append, length_cons, insertIdx_succ_cons, ih, cons_append]

theorem eraseIdx_middle (before after : List α) (a : α) :
    (before ++ a :: after).eraseIdx before.length = before ++ after := by
  rw [eraseIdx_append_of_length_le le_rfl, Nat.sub_self, eraseIdx_cons_zero]

end Magisk.Search
