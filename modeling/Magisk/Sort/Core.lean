import Mathlib

/-!
# What a stable sort does to pairs

Sorting by a total preorder keeps two elements in their order exactly when the
preorder allows it.  A relation that has to hold between any earlier and any
later element of the sorted list can therefore be read off the list as it was.
-/

namespace Magisk.Sort

open List

universe u

variable {α : Type u} {r : α → α → Prop} [DecidableRel r]

/-- A relation in the direction in which the sort leaves the two elements. -/
def InSortedOrder (r related : α → α → Prop) [DecidableRel r] (first second : α) : Prop :=
  if r first second then related first second else related second first

theorem pairwise_orderedInsert_iff [IsTrans α r] {related : α → α → Prop} {element : α}
    {sorted : List α} (ordered : sorted.Pairwise r) :
    (sorted.orderedInsert r element).Pairwise related ↔
      (∀ other ∈ sorted, InSortedOrder r related element other) ∧ sorted.Pairwise related := by
  induction sorted with
  | nil => simp
  | cons head rest ih =>
    rw [pairwise_cons] at ordered
    rw [orderedInsert_cons]
    by_cases first : r element head
    · have firstOfAll : ∀ other ∈ head :: rest, r element other := by
        intro other mem
        rcases mem_cons.mp mem with rfl | mem
        · exact first
        · exact IsTrans.trans _ _ _ first (ordered.1 other mem)
      rw [if_pos first, pairwise_cons]
      refine and_congr_left fun _ => forall₂_congr fun other mem => ?_
      rw [InSortedOrder, if_pos (firstOfAll other mem)]
    · rw [if_neg first, pairwise_cons, ih ordered.2, pairwise_cons,
        forall_mem_cons, InSortedOrder, if_neg first]
      simp only [mem_orderedInsert, forall_eq_or_imp]
      constructor
      · rintro ⟨⟨last, before⟩, others, related⟩
        exact ⟨⟨last, others⟩, before, related⟩
      · rintro ⟨⟨last, others⟩, before, related⟩
        exact ⟨⟨last, before⟩, others, related⟩

/-- What holds between the elements of the sorted list holds between the elements
of the list in the order the sort gives them. -/
theorem pairwise_insertionSort_iff [IsTrans α r] [Std.Total r] {related : α → α → Prop}
    (elements : List α) :
    (elements.insertionSort r).Pairwise related ↔ elements.Pairwise (InSortedOrder r related) := by
  induction elements with
  | nil => simp
  | cons element rest ih =>
    rw [insertionSort_cons,
      pairwise_orderedInsert_iff (pairwise_insertionSort r rest), ih, pairwise_cons]
    simp only [mem_insertionSort]

end Magisk.Sort
