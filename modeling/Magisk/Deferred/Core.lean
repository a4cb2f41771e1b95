import Mathlib

/-!
# Deferred operations

Operations are decided on in one order and carried out on a store later.  What
the store will be is found by replaying those that are still due.  An operation
can be carried out ahead of earlier ones that are independent of it: the rest
stays possible and the replay ends in the same store.
-/

namespace Magisk.Deferred

universe u v

/-- Operations on a store, some of which are only possible on some stores. -/
structure Operations (Store : Type u) (Op : Type v) where
  apply : Store → Op → Store
  possible : Store → Op → Prop

variable {Store : Type u} {Op : Type v} (operations : Operations Store Op)

namespace Operations

/-- Carry out all operations in order. -/
def replay (store : Store) (due : List Op) : Store :=
  due.foldl operations.apply store

/-- All operations are possible in order. -/
def Feasible : Store → List Op → Prop
  | _, [] => True
  | store, op :: due => operations.possible store op ∧ Feasible (operations.apply store op) due

/-- The order of two operations does not matter, and neither needs the other. -/
structure Independent (first second : Op) : Prop where
  commute : ∀ store, operations.apply (operations.apply store first) second =
    operations.apply (operations.apply store second) first
  ahead : ∀ store, operations.possible (operations.apply store first) second →
    operations.possible store second
  after : ∀ store, operations.possible store first →
    operations.possible (operations.apply store second) first

variable {operations}

theorem replay_concat (store : Store) (due : List Op) (op : Op) :
    operations.replay store (due ++ [op]) = operations.apply (operations.replay store due) op := by
  rw [replay, List.foldl_append]
  rfl

theorem Feasible.concat {store : Store} {due : List Op} (feasible : operations.Feasible store due)
    {op : Op} (possible : operations.possible (operations.replay store due) op) :
    operations.Feasible store (due ++ [op]) := by
  induction due generalizing store with
  | nil => exact ⟨possible, trivial⟩
  | cons first due ih => exact ⟨feasible.1, ih feasible.2 possible⟩

/-- An operation can be carried out ahead of those it is independent of. -/
theorem Feasible.ahead {store : Store} {before after : List Op} {op : Op}
    (feasible : operations.Feasible store (before ++ op :: after))
    (independent : ∀ first ∈ before, operations.Independent first op) :
    operations.possible store op ∧
      operations.Feasible (operations.apply store op) (before ++ after) ∧
      operations.replay (operations.apply store op) (before ++ after) =
        operations.replay store (before ++ op :: after) := by
  induction before generalizing store with
  | nil => exact ⟨feasible.1, feasible.2, rfl⟩
  | cons first before ih =>
    have swaps := independent first List.mem_cons_self
    rcases ih feasible.2 fun other mem => independent other (List.mem_cons_of_mem first mem) with
      ⟨possible, rest, same⟩
    rw [swaps.commute] at rest same
    exact ⟨swaps.ahead store possible, ⟨swaps.after store feasible.1, rest⟩, same⟩

end Operations

end Magisk.Deferred
