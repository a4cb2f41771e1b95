import Mathlib

/-!
# Interleavings, invariants and fairness

A system takes labelled steps from an initial state.  An execution is an
infinite sequence of states in which, at each moment, one step is taken or
nothing happens, so finite runs are executions too.  Invariants are proved along
executions whose steps meet a condition; progress is proved from weak fairness,
one acting agent at a time.
-/

namespace Magisk.Interleaving

universe u v w

variable {time : Nat}

/-- A system of labelled steps; a label may be impossible in a state. -/
structure System (State : Type u) (Label : Type v) where
  initial : State
  step : State → Label → Option State

variable {State : Type u} {Label : Type v} {Agent : Type w} {system : System State Label}
  {last : State} {labels : List Label}

namespace System

/-- What happens at one moment. -/
def advance (system : System State Label) (state : State) : Option Label → Option State
  | none => some state
  | some label => system.step state label

/-- Take a list of steps. -/
def run (system : System State Label) : State → List Label → Option State
  | state, [] => some state
  | state, label :: labels => (system.step state label).bind fun next => system.run next labels

/-- The states of a finite run, the last of which is kept forever. -/
def trace (system : System State Label) : State → List Label → Nat → State
  | state, [], _ => state
  | state, _ :: _, 0 => state
  | state, label :: labels, time + 1 =>
    match system.step state label with
    | some next => system.trace next labels time
    | none => state

theorem trace_zero (system : System State Label) (state : State) (labels : List Label) :
    system.trace state labels 0 = state := by
  cases labels <;> rfl

variable {state : State}

/-- The trace of a run advances by its labels. -/
theorem advance_trace (runs : system.run state labels = some last) (time : Nat) :
    system.advance (system.trace state labels time) labels[time]? =
      some (system.trace state labels (time + 1)) := by
  induction labels generalizing state time with
  | nil => rfl
  | cons label labels ih =>
    obtain ⟨next, stepEq, rest⟩ := Option.bind_eq_some_iff.mp runs
    cases time with
    | zero => simp only [trace, stepEq, trace_zero, advance, List.getElem?_cons_zero]
    | succ time =>
      simp only [trace, stepEq]
      exact ih rest time

theorem trace_of_length_le (runs : system.run state labels = some last)
    (passed : labels.length ≤ time) : system.trace state labels time = last := by
  induction labels generalizing state time with
  | nil => exact Option.some.inj runs
  | cons label labels ih =>
    obtain ⟨next, stepEq, rest⟩ := Option.bind_eq_some_iff.mp runs
    cases time with
    | zero => exact absurd passed (Nat.not_succ_le_zero _)
    | succ time =>
      simp only [trace, stepEq]
      exact ih rest (Nat.le_of_succ_le_succ passed)

end System

/-- An infinite run; nothing happens at a moment without a label. -/
structure Execution (system : System State Label) where
  state : Nat → State
  label : Nat → Option Label
  start : state 0 = system.initial
  follows : ∀ time, system.advance (state time) (label time) = some (state (time + 1))

namespace Execution

/-- A finite run, kept at its last state. -/
def ofLabels (system : System State Label) (labels : List Label) {last : State}
    (runs : system.run system.initial labels = some last) : Execution system where
  state := system.trace system.initial labels
  label time := labels[time]?
  start := system.trace_zero _ _
  follows := System.advance_trace runs

/-- A finite run stays where it ends. -/
theorem state_ofLabels_of_length_le (runs : system.run system.initial labels = some last)
    (passed : labels.length ≤ time) :
    (ofLabels system labels runs).state time = system.trace system.initial labels labels.length :=
  (System.trace_of_length_le runs passed).trans (System.trace_of_length_le runs le_rfl).symm

theorem step_eq (execution : Execution system) {label : Label}
    (taken : execution.label time = some label) :
    system.step (execution.state time) label = some (execution.state (time + 1)) := by
  have advances := execution.follows time
  rw [taken] at advances
  exact advances

theorem state_succ_of_none (execution : Execution system) (nothing : execution.label time = none) :
    execution.state (time + 1) = execution.state time := by
  have advances := execution.follows time
  rw [nothing] at advances
  exact (Option.some.inj advances).symm

/-! ## Invariants -/

/-- Every step meets a condition on the state before it. -/
def Meets (execution : Execution system) (allowed : State → Label → Prop) : Prop :=
  ∀ time label, execution.label time = some label → allowed (execution.state time) label

variable {allowed : State → Label → Prop} {execution : Execution system} {holds : State → Prop}
  {ready : Agent → State → Prop}

theorem meets_ofLabels (runs : system.run system.initial labels = some last)
    (each : ∀ time : Fin labels.length,
      allowed (system.trace system.initial labels time) (labels.get time)) :
    (ofLabels system labels runs).Meets allowed := by
  intro time label taken
  obtain ⟨inside, rfl⟩ := List.getElem?_eq_some_iff.mp taken
  exact each ⟨time, inside⟩

/-- What the initial state has and every allowed step keeps holds at all times. -/
theorem invariant (meets : execution.Meets allowed) (initially : holds system.initial)
    (kept : ∀ {state label next}, holds state → allowed state label →
      system.step state label = some next → holds next) (time : Nat) :
    holds (execution.state time) := by
  induction time with
  | zero =>
    rw [execution.start]
    exact initially
  | succ time ih =>
    cases taken : execution.label time with
    | none =>
      rw [execution.state_succ_of_none taken]
      exact ih
    | some label => exact kept ih (meets time label taken) (execution.step_eq taken)

/-- If a step keeps a property exactly when it meets a condition, then the
property holds at all times exactly when all steps meet the condition. -/
theorem forall_iff_meets (initially : holds system.initial)
    (kept : ∀ {time label}, execution.label time = some label → holds (execution.state time) →
      (holds (execution.state (time + 1)) ↔ allowed (execution.state time) label)) :
    (∀ time, holds (execution.state time)) ↔ execution.Meets allowed := by
  constructor
  · intro always time label taken
    exact (kept taken (always time)).mp (always (time + 1))
  · intro meets time
    induction time with
    | zero =>
      rw [execution.start]
      exact initially
    | succ time ih =>
      cases taken : execution.label time with
      | none =>
        rw [execution.state_succ_of_none taken]
        exact ih
      | some label => exact (kept taken ih).mpr (meets time label taken)

/-- Two conditions on the steps that agree where an invariant holds, which the
steps that meet them keep. -/
theorem meets_iff_meets {observed : State → Label → Prop} (initially : holds system.initial)
    (kept : ∀ {state label next}, holds state → allowed state label →
      system.step state label = some next → holds next)
    (agree : ∀ {state label}, holds state → (observed state label ↔ allowed state label)) :
    execution.Meets observed ↔ execution.Meets allowed := by
  constructor
  · intro meets
    have always : ∀ time, holds (execution.state time) := by
      refine invariant meets initially ?_
      intro state label next now seen stepEq
      exact kept now ((agree now).mp seen) stepEq
    intro time label taken
    exact (agree (always time)).mp (meets time label taken)
  · intro meets time label taken
    exact (agree (invariant meets initially kept time)).mpr (meets time label taken)

/-- What every step keeps, once it holds, holds from then on. -/
theorem stable (holds : State → Prop)
    (kept : ∀ {state label next}, holds state → system.step state label = some next → holds next)
    {later : Nat} (le : time ≤ later) (now : holds (execution.state time)) :
    holds (execution.state later) := by
  induction later, le using Nat.le_induction with
  | base => exact now
  | succ later _ ih =>
    cases taken : execution.label later with
    | none =>
      rw [execution.state_succ_of_none taken]
      exact ih
    | some label => exact kept ih (execution.step_eq taken)

/-- A measure that no step lowers is monotone along an execution. -/
theorem monotone_of_step (measure : State → Nat)
    (kept : ∀ {state label next}, system.step state label = some next →
      measure state ≤ measure next) : Monotone fun time => measure (execution.state time) := by
  apply monotone_nat_of_le_succ
  intro time
  cases taken : execution.label time with
  | none => rw [execution.state_succ_of_none taken]
  | some label => exact kept (execution.step_eq taken)

/-! ## Progress -/

/-- Weak fairness: an agent that stays ready acts. -/
def Fair (execution : Execution system) (ready : Agent → State → Prop)
    (acts : Agent → Label → Prop) : Prop :=
  ∀ agent time, (∀ later, time ≤ later → ready agent (execution.state later)) →
    ∃ later, time ≤ later ∧ ∃ label, execution.label later = some label ∧ acts agent label

/-- A finite run at whose end no agent is ready is fair. -/
theorem fair_ofLabels (runs : system.run system.initial labels = some last)
    (acts : Agent → Label → Prop)
    (stuck : ∀ agent, ¬ ready agent (system.trace system.initial labels labels.length)) :
    (ofLabels system labels runs).Fair ready acts := by
  intro agent time stays
  have atEnd := stays (max time labels.length) (Nat.le_max_left _ _)
  rw [state_ofLabels_of_length_le runs (Nat.le_max_right _ _)] at atEnd
  exact absurd atEnd (stuck agent)

/-- If an agent is ready as long as `before` holds, `before` is only left for
`after`, and a step of the agent leaves it, then `after` is reached. -/
theorem Fair.exists_after {acts : Agent → Label → Prop} (fair : execution.Fair ready acts)
    (agent : Agent) (before after : State → Prop)
    (isReady : ∀ time, before (execution.state time) → ready agent (execution.state time))
    (leaves : ∀ {time label}, execution.label time = some label →
      before (execution.state time) →
      before (execution.state (time + 1)) ∨ after (execution.state (time + 1)))
    (acting : ∀ {time label}, execution.label time = some label → acts agent label →
      before (execution.state time) → after (execution.state (time + 1)))
    (holds : before (execution.state time)) :
    ∃ later, time ≤ later ∧ after (execution.state later) := by
  by_contra never
  push Not at never
  have stays : ∀ extra, before (execution.state (time + extra)) := by
    intro extra
    induction extra with
    | zero => exact holds
    | succ extra ih =>
      cases taken : execution.label (time + extra) with
      | none =>
        rw [← Nat.add_assoc, execution.state_succ_of_none taken]
        exact ih
      | some label =>
        rcases leaves taken ih with kept | reached
        · exact kept
        · exact absurd reached (never _ (by omega))
  have staysReady : ∀ later, time ≤ later → ready agent (execution.state later) := by
    intro later le
    obtain ⟨extra, rfl⟩ := Nat.exists_eq_add_of_le le
    exact isReady _ (stays extra)
  obtain ⟨later, le, label, taken, act⟩ := fair agent time staysReady
  obtain ⟨extra, rfl⟩ := Nat.exists_eq_add_of_le le
  exact never _ (by omega) (acting taken act (stays extra))

end Execution

end Magisk.Interleaving
