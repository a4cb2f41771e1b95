import Mathlib

/-!
# Multimaps

A multimap is kept as the list of its nodes in search order.  Edits address the
first or the last node of a key that satisfies a test, and either replace or
remove it.  Each edit is described by its effect on the values of its own key;
the values of every other key are untouched.
-/

namespace Magisk.Multimap

open List

universe u v

/-! ## Editing one element of a list -/

section Lists

variable {α : Type u}

/-- Replace or remove the first element that satisfies `test`. -/
def alterFirst (test : α → Bool) (edit : α → Option α) : List α → List α
  | [] => []
  | a :: rest => if test a then (edit a).toList ++ rest else a :: alterFirst test edit rest

/-- Replace or remove the last element that satisfies `test`. -/
def alterLast (test : α → Bool) (edit : α → Option α) (list : List α) : List α :=
  (alterFirst test edit list.reverse).reverse

variable {test : α → Bool} {list : List α}

/-- If at most one element satisfies the test, replacing it is a map. -/
theorem alterFirst_eq_map (replace : α → α) (unique : list.countP test ≤ 1) :
    alterFirst test (fun a => some (replace a)) list =
      list.map fun a => if test a then replace a else a := by
  induction list with
  | nil => rfl
  | cons a rest ih =>
    by_cases holds : test a = true
    · rw [countP_cons_of_pos holds, Nat.succ_le_succ_iff, Nat.le_zero, countP_eq_zero] at unique
      have untouched : rest.map (fun b => if test b then replace b else b) = rest := by
        conv_rhs => rw [← map_id rest]
        apply map_congr_left
        intro b mem
        rw [if_neg (unique b mem), id]
      rw [alterFirst, if_pos holds, map_cons, if_pos holds, untouched]
      rfl
    · rw [countP_cons_of_neg holds] at unique
      rw [alterFirst, if_neg holds, map_cons, if_neg holds, ih unique]

/-- If at most one element satisfies the test, removing it is a filter. -/
theorem alterFirst_eq_filter (unique : list.countP test ≤ 1) :
    alterFirst test (fun _ => none) list = list.filter fun a => !test a := by
  induction list with
  | nil => rfl
  | cons a rest ih =>
    by_cases holds : test a = true
    · rw [countP_cons_of_pos holds, Nat.succ_le_succ_iff, Nat.le_zero, countP_eq_zero] at unique
      have untouched : rest.filter (fun b => !test b) = rest := by
        rw [filter_eq_self]
        intro b mem
        simpa using unique b mem
      rw [alterFirst, if_pos holds, filter_cons_of_neg (by simpa using holds), untouched]
      rfl
    · rw [countP_cons_of_neg holds] at unique
      rw [alterFirst, if_neg holds, filter_cons_of_pos (by simpa using holds), ih unique]

theorem alterLast_eq_map (replace : α → α) (unique : list.countP test ≤ 1) :
    alterLast test (fun a => some (replace a)) list =
      list.map fun a => if test a then replace a else a := by
  rw [← countP_reverse] at unique
  rw [alterLast, alterFirst_eq_map replace unique, ← map_reverse, reverse_reverse]

theorem alterLast_eq_filter (unique : list.countP test ≤ 1) :
    alterLast test (fun _ => none) list = list.filter fun a => !test a := by
  rw [← countP_reverse] at unique
  rw [alterLast, alterFirst_eq_filter unique, ← filter_reverse, reverse_reverse]

/-- A list with an element that satisfies a test has a last one. -/
theorem exists_last (present : list.any test = true) :
    ∃ before item after, list = before ++ item :: after ∧ test item = true ∧
      ∀ later ∈ after, test later = false := by
  induction list with
  | nil => cases present
  | cons a rest ih =>
    cases later : rest.any test with
    | true =>
      obtain ⟨before, item, after, rfl, holds, none⟩ := ih later
      exact ⟨a :: before, item, after, rfl, holds, none⟩
    | false =>
      rw [any_cons, later, Bool.or_false] at present
      refine ⟨[], a, rest, rfl, present, ?_⟩
      intro b mem
      exact Bool.eq_false_iff.mpr (any_eq_false.mp later b mem)

theorem alterFirst_append (edit : α → Option α) {before : List α}
    (none : ∀ earlier ∈ before, test earlier = false) (rest : List α) :
    alterFirst test edit (before ++ rest) = before ++ alterFirst test edit rest := by
  induction before with
  | nil => rfl
  | cons a before ih =>
    have notHere := none a mem_cons_self
    rw [cons_append, alterFirst, notHere, if_neg (by decide),
      ih fun b mem => none b (mem_cons_of_mem a mem), cons_append]

/-- The last element that satisfies the test is the one that is edited. -/
theorem alterLast_append_cons (edit : α → Option α) (before : List α) {item : α} {after : List α}
    (holds : test item = true) (none : ∀ later ∈ after, test later = false) :
    alterLast test edit (before ++ item :: after) = before ++ ((edit item).toList ++ after) := by
  have noneReversed : ∀ later ∈ after.reverse, test later = false :=
    fun later mem => none later (mem_reverse.mp mem)
  have reversed : (before ++ item :: after).reverse =
      after.reverse ++ (item :: before.reverse) := by
    rw [reverse_append, reverse_cons, append_assoc]
    rfl
  have one : (edit item).toList.reverse = (edit item).toList := by
    cases edit item <;> rfl
  rw [alterLast, reversed, alterFirst_append edit noneReversed, alterFirst, if_pos holds,
    reverse_append, reverse_append, reverse_reverse, reverse_reverse, one,
    append_assoc]

end Lists

/-! ## Nodes and values -/

variable {K : Type u} {V : Type v} [DecidableEq K]

/-- The values stored under `key`, in search order. -/
def values (key : K) (nodes : List (K × V)) : List V :=
  (nodes.filter fun node => node.1 = key).map Prod.snd

/-- Edit the first value of `key` that satisfies `test`. -/
def editFirst (key : K) (test : V → Bool) (edit : V → Option V) (nodes : List (K × V)) :
    List (K × V) :=
  alterFirst (fun node => decide (node.1 = key) && test node.2)
    (fun node => (edit node.2).map fun value => (node.1, value)) nodes

/-- Edit the last value of `key` that satisfies `test`. -/
def editLast (key : K) (test : V → Bool) (edit : V → Option V) (nodes : List (K × V)) :
    List (K × V) :=
  (editFirst key test edit nodes.reverse).reverse

theorem values_cons_self (key : K) (value : V) (nodes : List (K × V)) :
    values key ((key, value) :: nodes) = value :: values key nodes := by
  simp [values]

variable {key other : K}

theorem values_cons_of_ne (ne : other ≠ key) (value : V) (nodes : List (K × V)) :
    values key ((other, value) :: nodes) = values key nodes := by
  simp [values, ne]

theorem values_reverse (key : K) (nodes : List (K × V)) :
    values key nodes.reverse = (values key nodes).reverse := by
  rw [values, filter_reverse, map_reverse]
  rfl

/-- Editing a key edits its values. -/
theorem values_editFirst_self (key : K) (test : V → Bool) (edit : V → Option V)
    (nodes : List (K × V)) :
    values key (editFirst key test edit nodes) = alterFirst test edit (values key nodes) := by
  induction nodes with
  | nil => rfl
  | cons node nodes ih =>
    obtain ⟨other, value⟩ := node
    rw [editFirst] at ih ⊢
    by_cases same : other = key
    · subst same
      rw [values_cons_self, alterFirst, alterFirst]
      cases holds : test value with
      | false => simp only [Bool.and_false, Bool.false_eq_true, if_false, values_cons_self, ih]
      | true =>
        cases edited : edit value with
        | none => simp
        | some new => simp [values_cons_self]
    · rw [values_cons_of_ne same, alterFirst]
      simp only [same, decide_false, Bool.false_and, Bool.false_eq_true, if_false]
      rw [values_cons_of_ne same, ih]

/-- Editing a key leaves the values of the others alone. -/
theorem values_editFirst_of_ne (ne : other ≠ key) (test : V → Bool) (edit : V → Option V)
    (nodes : List (K × V)) : values other (editFirst key test edit nodes) = values other nodes := by
  induction nodes with
  | nil => rfl
  | cons node nodes ih =>
    obtain ⟨nodeKey, value⟩ := node
    rw [editFirst] at ih ⊢
    rw [alterFirst]
    by_cases here : nodeKey = key
    · subst here
      cases test value with
      | false =>
        simp only [Bool.and_false, Bool.false_eq_true, if_false]
        rw [values_cons_of_ne ne.symm, values_cons_of_ne ne.symm, ih]
      | true =>
        cases edit value with
        | none => simp [values_cons_of_ne ne.symm]
        | some new => simp [values_cons_of_ne ne.symm]
    · simp only [here, decide_false, Bool.false_and, Bool.false_eq_true, if_false]
      by_cases there : nodeKey = other
      · subst there
        rw [values_cons_self, values_cons_self, ih]
      · rw [values_cons_of_ne there, values_cons_of_ne there, ih]

theorem values_editLast_self (key : K) (test : V → Bool) (edit : V → Option V)
    (nodes : List (K × V)) :
    values key (editLast key test edit nodes) = alterLast test edit (values key nodes) := by
  rw [editLast, values_reverse, values_editFirst_self, values_reverse]
  rfl

theorem values_editLast_of_ne (ne : other ≠ key) (test : V → Bool) (edit : V → Option V)
    (nodes : List (K × V)) : values other (editLast key test edit nodes) = values other nodes := by
  rw [editLast, values_reverse, values_editFirst_of_ne ne, values_reverse, reverse_reverse]

end Magisk.Multimap
