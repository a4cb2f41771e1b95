import Magisk.Interleaving.Core

/-!
# Programs that share data under one lock

A program takes and releases one lock and makes accesses to shared data, each
of which is marked with the site it is made at.  A program can be run alone,
and any number of threads can run programs at once, one action at a time.

What a program does with the lock is checked by a precondition calculus: an
invariant of the data holds whenever the lock is free, accesses are only made
by the holder, and what is asserted at a site holds there.  Threads that run
checked programs keep to this discipline in every interleaving.
-/

namespace Magisk.Interleaving

universe u

/-- A program over shared data; an access changes the data and goes on with what
it has seen. -/
inductive Program (Data Site Result : Type) where
  | done (result : Result)
  | lock (next : Program Data Site Result)
  | unlock (next : Program Data Site Result)
  | access (site : Site) (effect : Data → Data) (next : Data → Program Data Site Result)

namespace Program

variable {Data Site Result After : Type}

protected def bind : Program Data Site Result → (Result → Program Data Site After) →
    Program Data Site After
  | done result, rest => rest result
  | lock next, rest => lock (next.bind rest)
  | unlock next, rest => unlock (next.bind rest)
  | access site effect next, rest => access site effect fun seen => (next seen).bind rest

instance : Monad (Program Data Site) where
  pure := done
  bind := Program.bind

/-- Take the lock. -/
def acquire : Program Data Site Unit :=
  lock (done ())

/-- Release the lock. -/
def release : Program Data Site Unit :=
  unlock (done ())

/-- Look at the data. -/
def look (site : Site) (view : Data → Result) : Program Data Site Result :=
  access site id fun seen => done (view seen)

/-- Change the data. -/
def change (site : Site) (effect : Data → Data) : Program Data Site Unit :=
  access site effect fun _ => done ()

/-- Change the data and tell something about what was there before. -/
def exchange (site : Site) (effect : Data → Data) (view : Data → Result) :
    Program Data Site Result :=
  access site effect fun seen => done (view seen)

/-! ## Running alone -/

/-- Run a program while nothing else happens. -/
def run : Program Data Site Result → Data → Result × Data
  | done result, data => (result, data)
  | lock next, data => next.run data
  | unlock next, data => next.run data
  | access _ effect next, data => (next data).run (effect data)

@[simp]
theorem run_pure (result : Result) (data : Data) :
    (pure result : Program Data Site Result).run data = (result, data) :=
  rfl

@[simp]
theorem run_bind (program : Program Data Site Result) (rest : Result → Program Data Site After)
    (data : Data) :
    (program >>= rest).run data = (rest (program.run data).1).run (program.run data).2 := by
  induction program generalizing data with
  | done result => rfl
  | lock next ih => exact ih data
  | unlock next ih => exact ih data
  | access site effect next ih => exact ih data (effect data)

@[simp]
theorem run_acquire (data : Data) : (acquire : Program Data Site Unit).run data = ((), data) :=
  rfl

@[simp]
theorem run_look (site : Site) (view : Data → Result) (data : Data) :
    (look site view).run data = (view data, data) :=
  rfl

@[simp]
theorem run_change (site : Site) (effect : Data → Data) (data : Data) :
    (change site effect).run data = ((), effect data) :=
  rfl

@[simp]
theorem run_exchange (site : Site) (effect : Data → Data) (view : Data → Result) (data : Data) :
    (exchange site effect view).run data = (view data, effect data) :=
  rfl

/-- Every access of a program keeps a property of the data. -/
def Stable (holds : Data → Prop) : Program Data Site Result → Prop
  | done _ => True
  | lock next => next.Stable holds
  | unlock next => next.Stable holds
  | access _ effect next =>
    (∀ data, holds data → holds (effect data)) ∧ ∀ seen, (next seen).Stable holds

variable {data : Data} {holds : Data → Prop}

theorem Stable.run {program : Program Data Site Result} (stable : program.Stable holds)
    (before : holds data) : holds (program.run data).2 := by
  induction program generalizing data with
  | done result => exact before
  | lock next ih => exact ih stable before
  | unlock next ih => exact ih stable before
  | access site effect next ih => exact ih data (stable.2 data) (stable.1 data before)

variable {rest : Result → Program Data Site After}

theorem Stable.bind {program : Program Data Site Result} (stable : program.Stable holds)
    (after : ∀ result, (rest result).Stable holds) : (program >>= rest).Stable holds := by
  induction program with
  | done result => exact after result
  | lock next ih => exact ih stable
  | unlock next ih => exact ih stable
  | access site effect next ih => exact ⟨stable.1, fun seen => ih seen (stable.2 seen)⟩

theorem stable_look (site : Site) (view : Data → Result) : (look site view).Stable holds :=
  ⟨fun _ before => before, fun _ => trivial⟩

theorem stable_change {site : Site} {effect : Data → Data}
    (keeps : ∀ data, holds data → holds (effect data)) : (change site effect).Stable holds :=
  ⟨keeps, fun _ => trivial⟩

/-! ## The discipline -/

/-- The invariant of the free data and what is asserted at each site. -/
structure Discipline (Data Site : Type) where
  invariant : Data → Prop
  asserts : Site → Data → Prop

variable {discipline : Discipline Data Site}

/-- What has to hold before a program, for it to keep to the discipline and to
end in `post`.  The data can be anything while the lock is not held. -/
def Keeps (discipline : Discipline Data Site) :
    Program Data Site Result → (Result → Bool → Data → Prop) → Bool → Data → Prop
  | done result, post, held, data => post result held data
  | lock next, post, held, _ =>
    held = false ∧ ∀ data, discipline.invariant data → next.Keeps discipline post true data
  | unlock next, post, held, data =>
    held = true ∧ discipline.invariant data ∧ ∀ data, next.Keeps discipline post false data
  | access site effect next, post, held, data =>
    held = true ∧ discipline.asserts site data ∧
      (next data).Keeps discipline post true (effect data)

@[simp]
theorem keeps_bind (program : Program Data Site Result)
    (rest : Result → Program Data Site After) (post : After → Bool → Data → Prop) (held : Bool)
    (data : Data) :
    (program >>= rest).Keeps discipline post held data ↔
      program.Keeps discipline (fun result => (rest result).Keeps discipline post) held data := by
  induction program generalizing held data with
  | done result => exact Iff.rfl
  | lock next ih =>
    exact and_congr_right fun _ => forall_congr' fun data => imp_congr_right fun _ => ih true data
  | unlock next ih =>
    exact and_congr_right fun _ => and_congr_right fun _ =>
      forall_congr' fun data => ih false data
  | access site effect next ih =>
    exact and_congr_right fun _ => and_congr_right fun _ => ih data true (effect data)

@[simp]
theorem keeps_acquire (post : Unit → Bool → Data → Prop) (held : Bool) (data : Data) :
    (acquire : Program Data Site Unit).Keeps discipline post held data ↔
      held = false ∧ ∀ data, discipline.invariant data → post () true data :=
  Iff.rfl

/-- A program that leaves the lock alone, with nothing asserted at its sites. -/
def Straight (discipline : Discipline Data Site) : Program Data Site Result → Prop
  | done _ => True
  | lock _ => False
  | unlock _ => False
  | access site _ next =>
    (∀ data, discipline.asserts site data) ∧ ∀ seen, (next seen).Straight discipline

theorem Straight.bind {program : Program Data Site Result} (straight : program.Straight discipline)
    (after : ∀ result, (rest result).Straight discipline) :
    (program >>= rest).Straight discipline := by
  induction program with
  | done result => exact after result
  | lock next ih => exact straight.elim
  | unlock next ih => exact straight.elim
  | access site effect next ih => exact ⟨straight.1, fun seen => ih seen (straight.2 seen)⟩

/-- The holder of the lock runs such a program as if alone. -/
theorem Straight.keeps_iff {program : Program Data Site Result}
    (straight : program.Straight discipline) {post : Result → Bool → Data → Prop} :
    program.Keeps discipline post true data ↔
      post (program.run data).1 true (program.run data).2 := by
  induction program generalizing data with
  | done result => exact Iff.rfl
  | lock next ih => exact straight.elim
  | unlock next ih => exact straight.elim
  | access site effect next ih =>
    change (true = true ∧ discipline.asserts site data ∧ _) ↔ _
    rw [eq_self, true_and, and_iff_right (straight.1 data)]
    exact ih data (straight.2 data)

/-- A whole program starts and ends without the lock. -/
def Disciplined (discipline : Discipline Data Site) (program : Program Data Site Result) : Prop :=
  ∀ data, program.Keeps discipline (fun _ held _ => held = false) false data

end Program

/-! ## Threads -/

/-- Threads at work on requests, over shared data under one lock. -/
structure Pool (Thread Request Data Site Result : Type) where
  holder : Option Thread
  data : Data
  running : Thread → Option (Request × Program Data Site Result)

/-- A thread takes up a request or acts on the one it has. -/
inductive PoolStep (Thread Request : Type) where
  | start (thread : Thread) (request : Request)
  | act (thread : Thread)

namespace Pool

variable {Thread Request Data Site Result : Type} [DecidableEq Thread]

/-- Give a thread other work. -/
def assign (pool : Pool Thread Request Data Site Result) (thread : Thread)
    (work : Option (Request × Program Data Site Result)) : Pool Thread Request Data Site Result :=
  { pool with running := Function.update pool.running thread work }

/-- The next action of a thread; the lock is only taken while it is free. -/
def act (pool : Pool Thread Request Data Site Result) (thread : Thread) (request : Request) :
    Program Data Site Result → Option (Pool Thread Request Data Site Result)
  | .done _ => some (pool.assign thread none)
  | .lock next =>
    if pool.holder = none then
      some { pool.assign thread (some (request, next)) with holder := some thread }
    else none
  | .unlock next => some { pool.assign thread (some (request, next)) with holder := none }
  | .access _ effect next =>
    some { pool.assign thread (some (request, next pool.data)) with data := effect pool.data }

/-- Any number of threads take up requests and act on them. -/
def system (Thread : Type) [DecidableEq Thread] (program : Request → Program Data Site Result)
    (data : Data) : System (Pool Thread Request Data Site Result) (PoolStep Thread Request) where
  initial := { holder := none, data, running := fun _ => none }
  step pool
    | .start thread request =>
      match pool.running thread with
      | none => some (pool.assign thread (some (request, program request)))
      | some _ => none
    | .act thread =>
      match pool.running thread with
      | none => none
      | some (request, rest) => pool.act thread request rest

/-- The accesses of a step are made by the holder of the lock, and what is
asserted at their site holds. -/
def InOrder (discipline : Program.Discipline Data Site)
    (pool : Pool Thread Request Data Site Result) : PoolStep Thread Request → Prop
  | .start _ _ => True
  | .act thread => ∀ request site effect next,
      pool.running thread = some (request, .access site effect next) →
        pool.holder = some thread ∧ discipline.asserts site pool.data

/-- Only threads at work on requests of one kind act. -/
def OnlyActs (checked : Request → Prop) (pool : Pool Thread Request Data Site Result) :
    PoolStep Thread Request → Prop
  | .start _ _ => True
  | .act thread => ∀ request rest, pool.running thread = some (request, rest) → checked request

/-- Threads on checked requests keep to the discipline; the others have not
acted yet. -/
structure Orderly (discipline : Program.Discipline Data Site)
    (program : Request → Program Data Site Result) (checked : Request → Prop)
    (pool : Pool Thread Request Data Site Result) : Prop where
  free : pool.holder = none → discipline.invariant pool.data
  working : ∀ {thread request rest}, pool.running thread = some (request, rest) →
    checked request →
      rest.Keeps discipline (fun _ held _ => held = false) (decide (pool.holder = some thread))
        pool.data
  waiting : ∀ {thread request rest}, pool.running thread = some (request, rest) →
    ¬ checked request → rest = program request ∧ pool.holder ≠ some thread
  idle : ∀ {thread}, pool.running thread = none → pool.holder ≠ some thread

variable {discipline : Program.Discipline Data Site} {program : Request → Program Data Site Result}
  {checked : Request → Prop} {pool next : Pool Thread Request Data Site Result} {thread : Thread}
  {data : Data} {rest : Program Data Site Result} {request : Request}
  {label : PoolStep Thread Request}

/-- Without the lock a program does not depend on the data. -/
theorem keeps_of_free {other : Data}
    (keeps : rest.Keeps discipline (fun _ held _ => held = false) false data) :
    rest.Keeps discipline (fun _ held _ => held = false) false other := by
  cases rest with
  | done result => rfl
  | lock next => exact keeps
  | unlock next => exact absurd keeps.1 (by decide)
  | access site effect next => exact absurd keeps.1 (by decide)

theorem running_assign_self (pool : Pool Thread Request Data Site Result) (thread : Thread)
    (work : Option (Request × Program Data Site Result)) :
    (pool.assign thread work).running thread = work :=
  Function.update_self ..

theorem running_assign_of_ne (pool : Pool Thread Request Data Site Result) {thread other : Thread}
    (distinct : other ≠ thread) (work : Option (Request × Program Data Site Result)) :
    (pool.assign thread work).running other = pool.running other :=
  Function.update_of_ne distinct ..

section

variable (orderly : Orderly discipline program checked pool)

include orderly

variable {holder : Option Thread} {work : Option (Request × Program Data Site Result)}

/-- A step that changes the work of one thread leaves the pool orderly, if that
thread goes on orderly and the step is nothing to the other threads. -/
theorem Orderly.update (others : holder = pool.holder ∧ data = pool.data ∨
      ∀ other, other ≠ thread → pool.holder ≠ some other ∧ holder ≠ some other)
    (free : holder = none → discipline.invariant data)
    (working : ∀ {request rest}, work = some (request, rest) → checked request →
      rest.Keeps discipline (fun _ held _ => held = false) (decide (holder = some thread)) data)
    (waiting : ∀ {request rest}, work = some (request, rest) → ¬ checked request →
      rest = program request ∧ holder ≠ some thread)
    (idle : work = none → holder ≠ some thread) :
    Orderly discipline program checked { pool.assign thread work with holder, data } := by
  have lost : ∀ other, other ≠ thread → pool.holder ≠ some other → holder ≠ some other := by
    intro other distinct notHolder
    rcases others with ⟨rfl, -⟩ | others
    · exact notHolder
    · exact (others other distinct).2
  refine ⟨free, ?_, ?_, ?_⟩ <;> intro other
  · intro request rest isWork isChecked
    by_cases same : other = thread
    · subst same
      exact working ((running_assign_self pool other work).symm.trans isWork) isChecked
    · have before :=
        orderly.working ((running_assign_of_ne pool same work).symm.trans isWork) isChecked
      rcases others with ⟨rfl, rfl⟩ | others
      · exact before
      · rw [decide_eq_false (others other same).1] at before
        rw [decide_eq_false (others other same).2]
        exact keeps_of_free before
  · intro request rest isWork unchecked
    by_cases same : other = thread
    · subst same
      exact waiting ((running_assign_self pool other work).symm.trans isWork) unchecked
    · have before :=
        orderly.waiting ((running_assign_of_ne pool same work).symm.trans isWork) unchecked
      exact ⟨before.1, lost other same before.2⟩
  · intro isIdle
    by_cases same : other = thread
    · subst same
      exact idle ((running_assign_self pool other work).symm.trans isIdle)
    · exact lost other same (orderly.idle ((running_assign_of_ne pool same work).symm.trans isIdle))

/-- A thread without the lock can be given other work. -/
theorem Orderly.assign (notHolder : pool.holder ≠ some thread)
    (keeps : ∀ {request rest}, work = some (request, rest) → checked request →
      rest.Keeps discipline (fun _ held _ => held = false) false pool.data)
    (untouched : ∀ {request rest}, work = some (request, rest) → ¬ checked request →
      rest = program request) :
    Orderly discipline program checked (pool.assign thread work) := by
  refine orderly.update (.inl ⟨rfl, rfl⟩) orderly.free (fun isWork isChecked => ?_)
    (fun isWork unchecked => ⟨untouched isWork unchecked, notHolder⟩) (fun _ => notHolder)
  rw [decide_eq_false notHolder]
  exact keeps isWork isChecked

/-- Going on with checked work. -/
theorem Orderly.goOn (isChecked : checked request)
    (others : ∀ other, other ≠ thread → pool.holder ≠ some other ∧ holder ≠ some other)
    (free : holder = none → discipline.invariant data)
    (keeps : rest.Keeps discipline (fun _ held _ => held = false)
      (decide (holder = some thread)) data) :
    Orderly discipline program checked
      { pool.assign thread (some (request, rest)) with holder, data } := by
  refine orderly.update (.inr others) free ?_ ?_ nofun
  · rintro _ _ ⟨⟩ -
    exact keeps
  · rintro _ _ ⟨⟩ unchecked
    exact absurd isChecked unchecked

/-- An action on a checked request leaves the pool orderly. -/
theorem Orderly.act (work : pool.running thread = some (request, rest))
    (isChecked : checked request) (acts : pool.act thread request rest = some next) :
    Orderly discipline program checked next := by
  have keeps := orderly.working work isChecked
  have onlySelf : ∀ other, other ≠ thread → some thread ≠ some other :=
    fun other distinct same => distinct (Option.some.inj same).symm
  cases rest with
  | done result =>
    rw [Pool.act, Option.some.injEq] at acts
    subst acts
    exact orderly.assign (of_decide_eq_false keeps) nofun nofun
  | lock rest =>
    rw [Pool.act] at acts
    split at acts
    · rename_i isFree
      rw [Option.some.injEq] at acts
      subst acts
      refine orderly.goOn isChecked (fun other distinct => ?_) nofun ?_
      · rw [isFree]
        exact ⟨nofun, onlySelf other distinct⟩
      · rw [decide_eq_true rfl]
        exact keeps.2 pool.data (orderly.free isFree)
    · cases acts
  | unlock rest =>
    rw [Pool.act, Option.some.injEq] at acts
    subst acts
    have self : pool.holder = some thread := of_decide_eq_true keeps.1
    refine orderly.goOn isChecked (fun other distinct => ?_) (fun _ => keeps.2.1) ?_
    · rw [self]
      exact ⟨onlySelf other distinct, nofun⟩
    · exact keeps.2.2 pool.data
  | access site effect rest =>
    rw [Pool.act, Option.some.injEq] at acts
    subst acts
    have self : pool.holder = some thread := of_decide_eq_true keeps.1
    refine orderly.goOn isChecked (fun other distinct => ?_) (fun free => ?_) ?_
    · change pool.holder ≠ some other ∧ pool.holder ≠ some other
      rw [self, and_self]
      exact onlySelf other distinct
    · cases free.symm.trans self
    · change (rest pool.data).Keeps discipline _ (decide (pool.holder = some thread)) _
      rw [decide_eq_true self]
      exact keeps.2.2

end

/-- A step takes up a request on an idle thread, or acts on the work of a busy one. -/
theorem step_cases (stepEq : (system Thread program data).step pool label = some next) :
    (∃ thread request, label = .start thread request ∧ pool.running thread = none ∧
        next = pool.assign thread (some (request, program request))) ∨
      ∃ thread request rest, label = .act thread ∧ pool.running thread = some (request, rest) ∧
        pool.act thread request rest = some next := by
  cases label with
  | start thread request =>
    cases work : pool.running thread with
    | some other =>
      simp only [system, work] at stepEq
      cases stepEq
    | none =>
      simp only [system, work, Option.some.injEq] at stepEq
      exact Or.inl ⟨thread, request, rfl, work, stepEq.symm⟩
  | act thread =>
    cases work : pool.running thread with
    | none =>
      simp only [system, work] at stepEq
      cases stepEq
    | some assigned =>
      simp only [system, work] at stepEq
      exact Or.inr ⟨thread, assigned.1, assigned.2, rfl, work, stepEq⟩

/-- Every step on checked requests leaves the pool orderly. -/
theorem Orderly.step
    (disciplined : ∀ request, checked request → (program request).Disciplined discipline)
    (orderly : Orderly discipline program checked pool) (onlyActs : OnlyActs checked pool label)
    (stepEq : (system Thread program data).step pool label = some next) :
    Orderly discipline program checked next := by
  rcases step_cases stepEq with ⟨thread, request, rfl, work, rfl⟩ |
    ⟨thread, request, rest, rfl, work, acts⟩
  · refine orderly.assign (orderly.idle work) ?_ ?_
    · rintro _ _ ⟨⟩ isChecked
      exact disciplined request isChecked pool.data
    · rintro _ _ ⟨⟩ _
      rfl
  · exact orderly.act work (onlyActs _ _ work) acts

/-- In every interleaving, all accesses are made by the holder of the lock and
find what is asserted there, exactly if no thread acts on an unchecked request,
provided the unchecked ones begin with an access. -/
theorem meets_inOrder_iff (invariant : discipline.invariant data)
    (disciplined : ∀ request, checked request → (program request).Disciplined discipline)
    (bare : ∀ request, ¬ checked request →
      ∃ site effect next, program request = .access site effect next)
    (execution : Execution (system Thread program data)) :
    execution.Meets (InOrder discipline) ↔ execution.Meets (OnlyActs checked) := by
  have initially : Orderly discipline program checked (system Thread program data).initial :=
    ⟨fun _ => invariant, nofun, nofun, nofun⟩
  apply Execution.meets_iff_meets initially
  · intro pool label next orderly onlyActs stepEq
    exact orderly.step disciplined onlyActs stepEq
  · intro pool label orderly
    cases label with
    | start thread request => exact Iff.rfl
    | act thread =>
      constructor
      · intro inOrder request rest work
        by_contra unchecked
        rcases orderly.waiting work unchecked with ⟨rfl, notHolder⟩
        rcases bare request unchecked with ⟨site, effect, next, begins⟩
        rw [begins] at work
        exact notHolder (inOrder request site effect next work).1
      · intro onlyActs request site effect next work
        have keeps := orderly.working work (onlyActs _ _ work)
        exact ⟨of_decide_eq_true keeps.1, keeps.2.1⟩

end Pool

end Magisk.Interleaving
