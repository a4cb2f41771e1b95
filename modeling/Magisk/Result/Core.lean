import Mathlib

/-!
# Results of fallible code

How a sequence of two fallible computations succeeds.
-/

namespace Magisk.Result

universe u v

variable {ε : Type u} {α β : Type v} {first : Except ε α} {second : α → Except ε β}
  {result : β}

/-- A sequence of two computations succeeds exactly when both do. -/
theorem bind_eq_ok_iff :
    (first >>= second) = .ok result ↔ ∃ value, first = .ok value ∧ second value = .ok result := by
  cases first with
  | error error => simp [bind, Except.bind]
  | ok value => simp [bind, Except.bind]

/-- A sequence that succeeds has come through its first half. -/
theorem bind_eq_ok (ran : (first >>= second) = .ok result) :
    ∃ value, first = .ok value ∧ second value = .ok result :=
  bind_eq_ok_iff.mp ran

@[simp]
theorem ok_bind (value : α) (next : α → Except ε β) : (Except.ok value >>= next) = next value :=
  rfl

end Magisk.Result
