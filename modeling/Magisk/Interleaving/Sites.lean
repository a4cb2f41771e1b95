import Magisk.Interleaving.Lock

/-!
# Accesses that are determined by their sites

If what an access does to the shared data is given by the site it is made at, a
property of the data can be followed through every interleaving by looking at one
site at a time.
-/

namespace Magisk.Interleaving

namespace Program

variable {Data Site Result After : Type}

/-- Every access of a program does what belongs to its site. -/
def Marked (effects : Site → Data → Data) : Program Data Site Result → Prop
  | done _ => True
  | lock next => next.Marked effects
  | unlock next => next.Marked effects
  | access site effect next => effect = effects site ∧ ∀ seen, (next seen).Marked effects

variable {effects : Site → Data → Data}

theorem marked_pure (result : Result) :
    (pure result : Program Data Site Result).Marked effects :=
  trivial

theorem Marked.bind {program : Program Data Site Result} (marked : program.Marked effects)
    {rest : Result → Program Data Site After} (after : ∀ result, (rest result).Marked effects) :
    (program >>= rest).Marked effects := by
  induction program with
  | done result => exact after result
  | lock next ih => exact ih marked
  | unlock next ih => exact ih marked
  | access site effect next ih => exact ⟨marked.1, fun seen => ih seen (marked.2 seen)⟩

theorem marked_acquire : (acquire : Program Data Site Unit).Marked effects :=
  trivial

theorem marked_release : (release : Program Data Site Unit).Marked effects :=
  trivial

theorem marked_change (site : Site) : (change site (effects site)).Marked effects :=
  ⟨rfl, fun _ => trivial⟩

end Program

namespace Pool

variable {Thread Request Data Site Result : Type} [DecidableEq Thread]
  {program : Request → Program Data Site Result} {discipline : Program.Discipline Data Site}
  {effects : Site → Data → Data}

/-- The access of a step meets a condition on its site and the data before it. -/
def AtSites (allowed : Site → Data → Prop) (pool : Pool Thread Request Data Site Result) :
    PoolStep Thread Request → Prop
  | .start _ _ => True
  | .act thread => ∀ request site effect next,
      pool.running thread = some (request, .access site effect next) → allowed site pool.data

/-- All work is marked. -/
def AllMarked (effects : Site → Data → Data) (pool : Pool Thread Request Data Site Result) : Prop :=
  ∀ thread request rest, pool.running thread = some (request, rest) → rest.Marked effects

variable {pool next : Pool Thread Request Data Site Result} {thread : Thread} {data : Data}
  {label : PoolStep Thread Request}

theorem AllMarked.assign (marked : AllMarked effects pool)
    {work : Option (Request × Program Data Site Result)}
    (new : ∀ request rest, work = some (request, rest) → rest.Marked effects) :
    AllMarked effects (pool.assign thread work) := by
  intro other request rest assigned
  by_cases same : other = thread
  · rw [same, running_assign_self] at assigned
    exact new request rest assigned
  · rw [running_assign_of_ne _ same] at assigned
    exact marked other request rest assigned

theorem AllMarked.act (marked : AllMarked effects pool) {request : Request}
    {rest : Program Data Site Result} (work : pool.running thread = some (request, rest))
    (acted : pool.act thread request rest = some next) : AllMarked effects next := by
  have whole := marked thread request rest work
  have goOn : ∀ after : Program Data Site Result, after.Marked effects →
      AllMarked effects (pool.assign thread (some (request, after))) := by
    intro after isMarked
    apply marked.assign
    rintro _ _ ⟨⟩
    exact isMarked
  cases rest with
  | done result =>
    cases acted
    apply marked.assign
    rintro _ _ ⟨⟩
  | lock after =>
    simp only [Pool.act] at acted
    split at acted
    · cases acted
      exact goOn after whole
    · cases acted
  | unlock after =>
    cases acted
    exact goOn after whole
  | access site effect after =>
    cases acted
    exact goOn (after pool.data) (whole.2 pool.data)

theorem AllMarked.step (all : ∀ request, (program request).Marked effects)
    (marked : AllMarked effects pool)
    (stepEq : (system Thread program data).step pool label = some next) :
    AllMarked effects next := by
  rcases step_cases stepEq with ⟨thread, request, rfl, _, rfl⟩ |
    ⟨thread, request, rest, rfl, work, acted⟩
  · apply marked.assign
    rintro _ _ ⟨⟩
    exact all request
  · exact marked.act work acted

/-- A step leaves the data alone, or makes one access. -/
theorem data_step (stepEq : (system Thread program data).step pool label = some next) :
    (next.data = pool.data ∧ ∀ thread, label = .act thread → ∀ request site effect rest,
        pool.running thread ≠ some (request, .access site effect rest)) ∨
      ∃ thread request site effect rest, label = .act thread ∧
        pool.running thread = some (request, .access site effect rest) ∧
        next.data = effect pool.data := by
  rcases step_cases stepEq with ⟨thread, request, rfl, _, rfl⟩ |
    ⟨thread, request, rest, rfl, work, acted⟩
  · exact Or.inl ⟨rfl, by rintro _ ⟨⟩⟩
  · have unlessAccess : next.data = pool.data →
        (∀ site effect after, rest ≠ .access site effect after) →
        next.data = pool.data ∧ ∀ other, (.act thread : PoolStep Thread Request) = .act other →
          ∀ request site effect after,
            pool.running other ≠ some (request, .access site effect after) := by
      intro same noAccess
      refine ⟨same, ?_⟩
      rintro _ ⟨⟩ other site effect after access
      rw [work] at access
      cases access
      exact noAccess site effect after rfl
    cases rest with
    | done result =>
      cases acted
      exact Or.inl (unlessAccess rfl (by simp))
    | lock after =>
      simp only [Pool.act] at acted
      split at acted
      · cases acted
        exact Or.inl (unlessAccess rfl (by simp))
      · cases acted
    | unlock after =>
      cases acted
      exact Or.inl (unlessAccess rfl (by simp))
    | access site effect after =>
      cases acted
      exact Or.inr ⟨thread, request, site, effect, after, rfl, work, rfl⟩

/-- If every program is disciplined, every access is in order. -/
theorem meets_inOrder (invariant : discipline.invariant data)
    (disciplined : ∀ request, (program request).Disciplined discipline)
    (execution : Execution (system Thread program data)) :
    execution.Meets (InOrder discipline) := by
  have checked : execution.Meets (OnlyActs fun _ => True) := by
    intro time label _
    cases label with
    | start thread request => trivial
    | act thread => exact fun _ _ _ => trivial
  have bare : ∀ request : Request, ¬ (fun _ => True) request →
      ∃ site effect next, program request = .access site effect next := by
    intro request unchecked
    exact absurd trivial unchecked
  exact (meets_inOrder_iff invariant (fun request _ => disciplined request) bare execution).mpr
    checked

/-- A property of the data that each site keeps exactly under a condition, given
what is asserted there, holds at all times exactly if all accesses meet the
condition. -/
theorem forall_data_iff (invariant : discipline.invariant data)
    (disciplined : ∀ request, (program request).Disciplined discipline)
    (marked : ∀ request, (program request).Marked effects) {holds : Data → Prop}
    {allowed : Site → Data → Prop} (initially : holds data)
    (kept : ∀ {site data}, discipline.asserts site data → holds data →
      (holds (effects site data) ↔ allowed site data))
    (execution : Execution (system Thread program data)) :
    (∀ time, holds (execution.state time).data) ↔ execution.Meets (AtSites allowed) := by
  have inOrder := meets_inOrder invariant disciplined execution
  have anything : execution.Meets fun _ _ => True := fun _ _ _ => trivial
  have marks : ∀ time, AllMarked effects (execution.state time) := by
    refine Execution.invariant anything ?_ fun before _ stepEq => before.step marked stepEq
    rintro _ _ _ ⟨⟩
  have follow : ∀ {time label}, execution.label time = some label →
      holds (execution.state time).data → (holds (execution.state (time + 1)).data ↔
        AtSites allowed (execution.state time) label) := by
    intro time label taken now
    rcases data_step (execution.step_eq taken) with ⟨same, noAccess⟩ |
      ⟨thread, request, site, effect, rest, rfl, work, changed⟩
    · rw [same]
      refine iff_of_true now ?_
      cases label with
      | start thread request => trivial
      | act thread =>
        intro request site effect rest work
        exact absurd work (noAccess thread rfl request site effect rest)
    · have asserted := (inOrder time _ taken request site effect rest work).2
      rw [changed, (marks time thread request _ work).1, kept asserted now]
      constructor
      · intro allow other otherSite otherEffect otherRest otherWork
        rw [work] at otherWork
        cases otherWork
        exact allow
      · intro each
        exact each request site effect rest work
  exact @Execution.forall_iff_meets _ _ _ (AtSites allowed) execution (fun pool => holds pool.data)
    initially follow

end Pool

end Magisk.Interleaving
