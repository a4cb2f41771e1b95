import Mathlib

/-!
# Relations as rows of bitmaps

A relation between numbers is kept as a list of bitmaps, one for each number of
the left side.  A bit is set in an existing row, or a new row is added behind the
last one.
-/

namespace Magisk.Relation

open List

/-- Bitmaps, in the order of their numbers. -/
abbrev Rows := List (Finset Nat)

/-- The bit `j` of row `i` is set. -/
def Has (rows : Rows) (i j : Nat) : Prop :=
  j ∈ rows.getD i ∅

instance (rows : Rows) (i j : Nat) : Decidable (Has rows i j) :=
  inferInstanceAs (Decidable (j ∈ rows.getD i ∅))

/-- Set the bit `j` of row `i`. -/
def setBit (rows : Rows) (i j : Nat) : Rows :=
  rows.modify i (insert j)

@[simp]
theorem length_setBit (rows : Rows) (i j : Nat) : (setBit rows i j).length = rows.length :=
  length_modify _ _ _

/-- Only existing rows have bits. -/
theorem Has.lt_length {rows : Rows} {i j : Nat} (has : Has rows i j) : i < rows.length := by
  by_contra outside
  rw [Has, getD_eq_default _ _ (Nat.le_of_not_lt outside)] at has
  exact Finset.notMem_empty j has

theorem has_setBit {rows : Rows} {row : Nat} (inside : row < rows.length) (bit i j : Nat) :
    Has (setBit rows row bit) i j ↔ Has rows i j ∨ i = row ∧ j = bit := by
  rw [Has, Has, setBit, getD_eq_getElem?_getD, getD_eq_getElem?_getD,
    getElem?_modify]
  by_cases here : row = i
  · subst here
    rw [getElem?_eq_getElem inside]
    simp only [if_true, Option.map_eq_map, Option.map_some, Option.getD_some, Finset.mem_insert,
      true_and]
    exact or_comm
  · have other : ¬ i = row := fun same => here same.symm
    simp only [if_neg here, other, false_and, or_false, id_map']

theorem has_append (rows : Rows) (bits : Finset Nat) (i j : Nat) :
    Has (rows ++ [bits]) i j ↔ Has rows i j ∨ i = rows.length ∧ j ∈ bits := by
  rw [Has, Has]
  rcases Nat.lt_trichotomy i rows.length with before | rfl | behind
  · rw [getD_append _ _ _ _ before]
    have other : i ≠ rows.length := Nat.ne_of_lt before
    simp only [other, false_and, or_false]
  · rw [getD_append_right _ _ _ _ le_rfl, getD_eq_default rows _ le_rfl, Nat.sub_self]
    simp
  · have other : i ≠ rows.length := Nat.ne_of_gt behind
    rw [getD_eq_default _ _ (by rw [length_append, length_singleton]; exact behind),
      getD_eq_default _ _ (Nat.le_of_lt behind)]
    simp only [other, false_and, or_false]

end Magisk.Relation
