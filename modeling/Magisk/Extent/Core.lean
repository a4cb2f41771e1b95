import Mathlib

/-!
# Lists of extents

An ordered list of runs of units as another way to write an ordered list of
units, after the manner of file systems.  Data laid over the list goes to the
bytes of its units in order; it forms one run exactly when every extent that
receives data starts where the one before it has ended.
-/

namespace Magisk.Extent

open List

variable {index place other : Nat}

/-- `count` units from `start` on. -/
structure Span where
  start : Nat
  count : Nat
  deriving DecidableEq, Repr

/-- A unit of the run. -/
def Span.Holds (span : Span) (unit : Nat) : Prop :=
  span.start ≤ unit ∧ unit < span.start + span.count

instance (span : Span) (unit : Nat) : Decidable (span.Holds unit) :=
  inferInstanceAs (Decidable (_ ∧ _))

/-- No unit is in both runs. -/
def Span.Apart (first second : Span) : Prop :=
  ∀ unit, ¬ (first.Holds unit ∧ second.Holds unit)

instance : Std.Symm Span.Apart where
  symm _ _ apart unit holds := apart unit holds.symm

/-- The number of bytes in a list of runs, with `size` bytes a unit. -/
def capacity (size : Nat) (spans : List Span) : Nat :=
  (spans.map fun span => span.count * size).sum

/-- Where byte `index` of data laid over the runs goes. -/
def position (size : Nat) : List Span → Nat → Option Nat
  | [], _ => none
  | span :: spans, index =>
    if index < span.count * size then some (span.start * size + index)
    else position size spans (index - span.count * size)

/-- The runs that receive some of `amount` bytes follow one another from unit
`start` on. -/
def InOneRun (size : Nat) : Nat → List Span → Nat → Prop
  | _, [], _ => True
  | start, span :: spans, amount =>
    (amount = 0 ∨ span.count * size = 0 ∨ span.start = start) ∧
      InOneRun size (start + span.count) spans (amount - span.count * size)

instance decidableInOneRun (size : Nat) :
    (start : Nat) → (spans : List Span) → (amount : Nat) →
      Decidable (InOneRun size start spans amount)
  | _, [], _ => isTrue trivial
  | start, span :: spans, amount =>
    have := decidableInOneRun size (start + span.count) spans (amount - span.count * size)
    inferInstanceAs (Decidable (_ ∧ _))

variable {size : Nat}

/-! ## Positions -/

@[simp]
theorem capacity_cons (span : Span) (spans : List Span) :
    capacity size (span :: spans) = span.count * size + capacity size spans :=
  rfl

variable {spans : List Span}

/-- Data that fits has a place for each of its bytes. -/
theorem exists_position (fits : index < capacity size spans) :
    ∃ place, position size spans index = some place := by
  induction spans generalizing index with
  | nil => exact absurd fits (Nat.not_lt_zero _)
  | cons span spans ih =>
    rw [position]
    split
    · exact ⟨_, rfl⟩
    · apply ih
      rw [capacity_cons] at fits
      omega

/-- A place lies in a unit of one of the runs. -/
theorem exists_holds_of_position (found : position size spans index = some place) :
    ∃ span ∈ spans, span.Holds (place / size) ∧ place < (span.start + span.count) * size := by
  induction spans generalizing index with
  | nil => cases found
  | cons span spans ih =>
    rw [position] at found
    split at found
    · cases found
      have positive : 0 < size := Nat.pos_of_ne_zero (by rintro rfl; omega)
      have below : span.start * size + index < (span.start + span.count) * size := by
        rw [Nat.add_mul]
        omega
      refine ⟨span, mem_cons_self, ⟨?_, ?_⟩, below⟩
      · exact (Nat.le_div_iff_mul_le positive).mpr (Nat.le_add_right _ _)
      · exact (Nat.div_lt_iff_lt_mul positive).mpr below
    · rcases ih found with ⟨other, mem, holds⟩
      exact ⟨other, mem_cons_of_mem _ mem, holds⟩

/-- Places in two lists of runs that do not meet are different. -/
theorem position_ne_of_apart {first second : List Span}
    (apart : ∀ span ∈ first, ∀ another ∈ second, span.Apart another)
    (found : position size first index = some place) : position size second other ≠ some place := by
  intro foundToo
  rcases exists_holds_of_position found with ⟨span, mem, holds, _⟩
  rcases exists_holds_of_position foundToo with ⟨another, memOther, holdsToo, _⟩
  exact apart span mem another memOther _ ⟨holds, holdsToo⟩

/-- Runs that do not meet have a place for one byte only. -/
theorem position_injective (apart : spans.Pairwise Span.Apart)
    (found : position size spans index = some place)
    (foundToo : position size spans other = some place) : index = other := by
  induction spans generalizing index other with
  | nil => cases found
  | cons span spans ih =>
    rw [pairwise_cons] at apart
    have meets : ∀ {inside behind : Nat}, inside < span.count * size →
        position size spans behind ≠ some (span.start * size + inside) := by
      intro inside behind within
      have alone : position size [span] inside = some (span.start * size + inside) := by
        rw [position, if_pos within]
      refine position_ne_of_apart (fun first mem another memOther => ?_) alone
      rw [mem_singleton.mp mem]
      exact apart.1 another memOther
    rw [position] at found foundToo
    split at found
    · rename_i inside
      cases found
      split at foundToo
      · have same := Option.some.inj foundToo
        omega
      · exact absurd foundToo (meets inside)
    · split at foundToo
      · rename_i inside
        cases foundToo
        exact absurd found (meets inside)
      · have same := ih apart.2 found foundToo
        omega

/-! ## Data in one run -/

/-- The runs follow one another exactly when each byte goes where it would go if
there were one run only. -/
theorem inOneRun_iff {start : Nat} {amount : Nat} :
    InOneRun size start spans amount ↔
      ∀ index place, index < amount → position size spans index = some place →
        place = start * size + index := by
  induction spans generalizing start amount with
  | nil =>
    rw [InOneRun, true_iff]
    intro index place _ found
    cases found
  | cons span spans ih =>
    rw [InOneRun, ih]
    constructor
    · rintro ⟨starts, follow⟩ index place received found
      rw [position] at found
      split at found
      · cases found
        rcases starts with none | empty | rfl
        · omega
        · omega
        · rfl
      · have placed := follow _ _ (by omega) found
        rw [placed, Nat.add_mul]
        omega
    · intro follow
      constructor
      · by_cases nothing : amount = 0
        · exact Or.inl nothing
        by_cases empty : span.count * size = 0
        · exact Or.inr (Or.inl empty)
        have placed := follow 0 (span.start * size) (by omega)
          (by rw [position, if_pos (by omega), Nat.add_zero])
        have positive : 0 < size := Nat.pos_of_ne_zero (by rintro rfl; exact empty rfl)
        exact Or.inr (Or.inr (Nat.eq_of_mul_eq_mul_right positive (by omega)))
      · intro index place received found
        have placed := follow (index + span.count * size) place (by omega)
          (by rw [position, if_neg (by omega), Nat.add_sub_cancel, found])
        rw [Nat.add_mul]
        omega

end Magisk.Extent
