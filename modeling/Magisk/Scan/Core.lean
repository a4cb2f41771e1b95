import Mathlib

/-!
# Loops that stop at the first failure

A loop visits the items of a list one after another and ends early when a visit
fails.  If whether a visit fails depends on the item alone, the loop is a fold over
the items it visits: those before the first failing one, and that one.
-/

namespace Magisk.Scan

universe u v

variable {α : Type u} {σ : Type v}

/-- Visit items in turn; a visit returns the new state and whether the loop goes
on. -/
def walk (visit : σ → α → σ × Bool) : σ → List α → σ × Bool
  | state, [] => (state, true)
  | state, item :: rest =>
    match visit state item with
    | (next, true) => walk visit next rest
    | (next, false) => (next, false)

/-- The items up to the first failing one. -/
def visited (fails : α → Bool) : List α → List α
  | [] => []
  | item :: rest => if fails item then [item] else item :: visited fails rest

variable {fails : α → Bool} {item : α}

theorem visited_cons_of_fails (fail : fails item = true) (rest : List α) :
    visited fails (item :: rest) = [item] := by
  rw [visited, if_pos fail]

theorem visited_cons_of_passes (pass : fails item = false) (rest : List α) :
    visited fails (item :: rest) = item :: visited fails rest := by
  rw [visited, if_neg (Bool.eq_false_iff.mp pass)]

/-- The loop is a fold over the visited items, and goes on to the end if none
fails. -/
theorem walk_eq {visit : σ → α → σ × Bool}
    (decides : ∀ state item, (visit state item).2 = !fails item) (state : σ) (items : List α) :
    walk visit state items =
      ((visited fails items).foldl (fun state item => (visit state item).1) state,
        !items.any fails) := by
  induction items generalizing state with
  | nil => rfl
  | cons item rest ih =>
    have decided := decides state item
    rw [walk, List.any_cons]
    cases fail : fails item with
    | true =>
      rw [fail] at decided
      rw [visited_cons_of_fails fail]
      rcases visited : visit state item with ⟨next, goesOn⟩
      rw [visited] at decided
      cases decided
      simp [visited]
    | false =>
      rw [fail] at decided
      rw [visited_cons_of_passes fail, List.foldl_cons]
      rcases visited : visit state item with ⟨next, goesOn⟩
      rw [visited] at decided
      cases decided
      exact ih next

end Magisk.Scan
