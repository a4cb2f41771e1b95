import Magisk.Core.Thread.Pool

/-!
# Every task is started exactly once

What a step does to the slot is said once: it fills the slot, it empties it, or it
leaves it alone.  The invariants and the progress argument are read off these
three cases.
-/

namespace Magisk.Core.Thread

open Function Option Interleaving

variable {Task : Type} {pool next : Pool Task} {action : Action Task} {pick : Option Task}
  {submitter worker other task : Task} {phase : Phase Task} {before after state : Submitter}

/-! ## What a step does to the slot -/

/-- How a submitter's state changes while the slot is left alone. -/
inductive Waits (pool : Pool Task) : Submitter → Submitter → Prop
  | same {state : Submitter} : Waits pool state state
  | call : Waits pool .absent .entering
  | rouse : Waits pool .blocked .entering
  | block (full : pool.task ≠ none) : Waits pool .entering .blocked

/-- The slot is left alone. -/
structure Kept (pool next : Pool Task) : Prop where
  task : next.task = pool.task
  started : next.started = pool.started
  submitters : ∀ submitter, Waits pool (pool.submitters submitter) (next.submitters submitter)
  onWay : pool.task ≠ none → ∀ worker, OnWay pool worker → OnWay next worker

/-- While the slot is left alone, no call of `exec_task` returns. -/
theorem Waits.done_iff (waits : Waits pool before after) : after = .done ↔ before = .done := by
  cases waits <;> simp

theorem Waits.called (waits : Waits pool before after) (called : before ≠ .absent) :
    after ≠ .absent := by
  cases waits with
  | same => exact called
  | call => exact absurd rfl called
  | rouse => simp
  | block _ => simp

/-- A submitter that wants the lock is only turned away by a full slot. -/
theorem Waits.of_entering (waits : Waits pool .entering after) :
    after = .entering ∨ pool.task ≠ none := by
  cases waits with
  | same => exact Or.inl rfl
  | block full => exact Or.inr full

theorem Waits.of_blocked (waits : Waits pool before .blocked) :
    before = .blocked ∨ pool.task ≠ none := by
  cases waits with
  | same => exact Or.inl rfl
  | block full => exact Or.inr full

section Slot

variable [DecidableEq Task]

/-- A submitter puts its task into the empty slot. -/
structure Filled (pool next : Pool Task) (submitter : Task) : Prop where
  empty : pool.task = none
  entering : pool.submitters submitter = .entering
  task : next.task = some submitter
  submitters : next.submitters = Function.update pool.submitters submitter .done
  started : next.started = pool.started

/-- A worker takes out what is in the slot, and notifies a submitter. -/
structure Took (pool next : Pool Task) (pick : Option Task) : Prop where
  notifies : Notifies (fun submitter => pool.submitters submitter = .blocked) pick
  task : next.task = none
  submitters : next.submitters = Pool.notified pool.submitters pick
  started : next.started = Pool.counted pool.started pool.task

theorem Waits.update (changes : Waits pool (pool.submitters submitter) state) (other : Task) :
    Waits pool (pool.submitters other) (update pool.submitters submitter state other) := by
  by_cases same : other = submitter
  · subst same
    rw [update_self]
    exact changes
  · rw [update_of_ne same]
    exact .same

/-- A notified submitter was blocked. -/
theorem waits_notified
    (notifies : Notifies (fun submitter => pool.submitters submitter = .blocked) pick)
    (submitter : Task) :
    Waits pool (pool.submitters submitter) (Pool.notified pool.submitters pick submitter) := by
  cases pick with
  | none => exact .same
  | some picked =>
    apply Waits.update
    have isBlocked : pool.submitters picked = .blocked := notifies
    rw [isBlocked]
    exact .rouse

theorem notified_of_entering {submitters : Task → Submitter}
    (entering : submitters submitter = .entering) (pick : Option Task) :
    Pool.notified submitters pick submitter = .entering := by
  cases pick with
  | none => exact entering
  | some picked =>
    by_cases same : submitter = picked
    · subst same
      exact update_self _ _ _
    · rw [Pool.notified, update_of_ne same, entering]

theorem counted_of_ne {started : Task → Nat} {slot : Option Task} (notQueued : slot ≠ some task) :
    Pool.counted started slot task = started task := by
  cases slot with
  | none => rfl
  | some queued =>
    apply update_of_ne
    rintro rfl
    exact notQueued rfl

/-- Moving a worker that is not on its way leaves those that are. -/
theorem onWay_setPhase_of_not (notOnWay : ¬ OnWay pool worker) (onWay : OnWay pool other) :
    OnWay (pool.setPhase worker phase) other := by
  have different : other ≠ worker := by
    rintro rfl
    exact notOnWay onWay
  rw [OnWay, Pool.workers_setPhase_of_ne _ _ different]
  exact onWay

theorem kept_setPhase (notOnWay : ¬ OnWay pool worker) : Kept pool (pool.setPhase worker phase) :=
  ⟨rfl, rfl, fun _ => .same, fun _ _ => onWay_setPhase_of_not notOnWay⟩

theorem kept_setSubmitter (changes : Waits pool (pool.submitters submitter) state) :
    Kept pool (pool.setSubmitter submitter state) :=
  ⟨rfl, rfl, changes.update, fun _ _ onWay => onWay⟩

/-- A new worker is on its way. -/
theorem onWay_newDaemonThread (pool : Pool Task) (submitter : Task) :
    ∃ worker, OnWay (pool.newDaemonThread submitter) worker := by
  refine ⟨submitter, Or.inl ?_⟩
  change (update pool.workers submitter _ submitter).phase = .looping
  rw [update_self]

/-- After a notification some worker is on its way, if one was or could be
notified. -/
theorem exists_onWay_notifyWorker
    (notifies : Notifies (fun worker => (pool.workers worker).phase = .waiting) pick)
    (attended : ∃ worker, (pool.workers worker).phase = .waiting ∨ OnWay pool worker) :
    ∃ worker, OnWay (pool.notifyWorker pick) worker := by
  cases pick with
  | none =>
    obtain ⟨worker, waiting | onWay⟩ := attended
    · exact absurd waiting (notifies worker)
    · exact ⟨worker, onWay⟩
  | some worker =>
    refine ⟨worker, Or.inr ?_⟩
    rw [Pool.notifyWorker, Pool.workers_setPhase_self]

end Slot

/-! ## Invariants -/

/-- The life of a task: it is not in the slot yet, it is there, or it has been
started. -/
inductive Stage (pool : Pool Task) (task : Task) : Prop
  | ahead (notDone : pool.submitters task ≠ .done) (notQueued : pool.task ≠ some task)
      (notStarted : pool.started task = 0)
  | queued (done : pool.submitters task = .done) (queued : pool.task = some task)
      (notStarted : pool.started task = 0)
  | started (done : pool.submitters task = .done) (notQueued : pool.task ≠ some task)
      (started : pool.started task = 1)

/-- What holds at all times. -/
structure Sound (pool : Pool Task) : Prop where
  stage : ∀ task, Stage pool task
  /-- A blocked submitter is not forgotten. -/
  blocked : (∃ submitter, pool.submitters submitter = .blocked) →
    pool.task ≠ none ∨ ∃ submitter, pool.submitters submitter = .entering
  /-- A task in the slot is not forgotten. -/
  attended : pool.task ≠ none → ∃ worker, OnWay pool worker

theorem sound_initial : Sound (initial : Pool Task) := by
  refine ⟨fun task => .ahead (by simp [initial]) (by simp [initial]) rfl, ?_, ?_⟩
  · rintro ⟨submitter, ⟨⟩⟩
  · intro full
    exact absurd rfl full

/-- A task in the slot has not been started. -/
theorem Sound.queued (sound : Sound pool) (slot : pool.task = some task) :
    pool.submitters task = .done ∧ pool.started task = 0 := by
  cases sound.stage task with
  | ahead _ notQueued _ => exact absurd slot notQueued
  | queued done _ notStarted => exact ⟨done, notStarted⟩
  | started _ notQueued _ => exact absurd slot notQueued

theorem Sound.started_le_one (sound : Sound pool) (task : Task) : pool.started task ≤ 1 := by
  cases sound.stage task with
  | ahead _ _ notStarted => exact notStarted.trans_le (Nat.zero_le 1)
  | queued _ _ notStarted => exact notStarted.trans_le (Nat.zero_le 1)
  | started _ _ started => exact started.le

theorem Kept.sound (sound : Sound pool) (kept : Kept pool next) : Sound next := by
  refine ⟨?_, ?_, ?_⟩
  · intro task
    have sameDone := (kept.submitters task).done_iff
    cases sound.stage task with
    | ahead notDone notThere notStarted =>
      exact .ahead (mt sameDone.mp notDone) (kept.task ▸ notThere) (kept.started ▸ notStarted)
    | queued done there notStarted =>
      exact .queued (sameDone.mpr done) (kept.task ▸ there) (kept.started ▸ notStarted)
    | started done notThere started =>
      exact .started (sameDone.mpr done) (kept.task ▸ notThere) (kept.started ▸ started)
  · rintro ⟨submitter, isBlocked⟩
    rw [kept.task]
    rcases (isBlocked ▸ kept.submitters submitter).of_blocked with wasBlocked | full
    · rcases sound.blocked ⟨submitter, wasBlocked⟩ with full | ⟨other, entering⟩
      · exact Or.inl full
      · rcases (entering ▸ kept.submitters other).of_entering with stays | full
        · exact Or.inr ⟨other, stays⟩
        · exact Or.inl full
    · exact Or.inl full
  · rw [kept.task]
    intro full
    obtain ⟨worker, onWay⟩ := sound.attended full
    exact ⟨worker, kept.onWay full worker onWay⟩

variable [DecidableEq Task]

theorem Filled.sound (sound : Sound pool) (filled : Filled pool next submitter)
    (attended : ∃ worker, OnWay next worker) : Sound next := by
  refine ⟨?_, ?_, fun _ => attended⟩
  · intro task
    by_cases same : task = submitter
    · subst same
      cases sound.stage task with
      | ahead _ _ notStarted =>
        refine .queued ?_ filled.task ?_
        · rw [filled.submitters, update_self]
        · rw [filled.started, notStarted]
      | queued done _ _ =>
        rw [filled.entering] at done
        cases done
      | started done _ _ =>
        rw [filled.entering] at done
        cases done
    · have notQueued : next.task ≠ some task := by
        rw [filled.task]
        exact fun equal => same (some.inj equal).symm
      have unchanged : next.submitters task = pool.submitters task := by
        rw [filled.submitters, update_of_ne same]
      cases sound.stage task with
      | ahead notDone _ notStarted =>
        exact .ahead (unchanged ▸ notDone) notQueued (filled.started ▸ notStarted)
      | queued _ queued _ =>
        rw [filled.empty] at queued
        cases queued
      | started done _ started =>
        exact .started (unchanged ▸ done) notQueued (filled.started ▸ started)
  · intro _
    left
    rw [filled.task]
    exact some_ne_none _

theorem Took.sound (sound : Sound pool) (took : Took pool next pick) : Sound next := by
  refine ⟨?_, ?_, fun full => absurd took.task full⟩
  · intro task
    have notQueued : next.task ≠ some task := by
      rw [took.task]
      exact (some_ne_none task).symm
    have sameDone : next.submitters task = .done ↔ pool.submitters task = .done := by
      rw [took.submitters]
      exact (waits_notified took.notifies task).done_iff
    cases sound.stage task with
    | ahead notDone notThere notStarted =>
      refine .ahead (mt sameDone.mp notDone) notQueued ?_
      rw [took.started, counted_of_ne notThere, notStarted]
    | queued done there notStarted =>
      refine .started (sameDone.mpr done) notQueued ?_
      rw [took.started, there, Pool.counted, update_self, notStarted]
    | started done notThere started =>
      refine .started (sameDone.mpr done) notQueued ?_
      rw [took.started, counted_of_ne notThere, started]
  · rintro ⟨submitter, isBlocked⟩
    right
    have notifies := took.notifies
    rw [took.submitters] at isBlocked
    cases pick with
    | none => exact absurd isBlocked (notifies submitter)
    | some picked =>
      refine ⟨picked, ?_⟩
      rw [took.submitters]
      exact update_self _ _ _

/-! ## Steps -/

variable [Fintype Task]

theorem took_takeStep (taken : takeStep pool worker pick = some next) : Took pool next pick := by
  simp only [takeStep, ite_none_right_eq_some, some.injEq] at taken
  obtain ⟨notifies, rfl⟩ := taken
  exact ⟨notifies, rfl, rfl, rfl⟩

section

variable (taken : step pool action = some next)

include taken

/-- Every step does one of the three. -/
theorem step_cases : (∃ submitter, Filled pool next submitter ∧
        (Attended pool action → ∃ worker, OnWay next worker)) ∨
      (∃ pick, Took pool next pick) ∨ Kept pool next := by
  cases action with
  | call submitter =>
    simp only [step, ite_none_right_eq_some, some.injEq] at taken
    obtain ⟨absent, rfl⟩ := taken
    right; right
    apply kept_setSubmitter
    rw [absent]
    exact .call
  | submit submitter pick =>
    simp only [step, ite_none_right_eq_some] at taken
    obtain ⟨entering, submitted⟩ := taken
    cases slot : pool.task with
    | some task =>
      simp only [submitStep, slot, some.injEq] at submitted
      subst submitted
      right; right
      apply kept_setSubmitter
      rw [entering]
      exact .block (by simp [slot])
    | none =>
      left
      refine ⟨submitter, ?_⟩
      simp only [submitStep, slot] at submitted
      split at submitted
      · cases submitted
        exact ⟨⟨slot, entering, rfl, rfl, rfl⟩, fun _ => onWay_newDaemonThread _ submitter⟩
      · rename_i idle
        simp only [ite_none_right_eq_some, some.injEq] at submitted
        obtain ⟨notifies, rfl⟩ := submitted
        refine ⟨⟨slot, entering, ?_, ?_, ?_⟩, ?_⟩
        · rw [Pool.task_notifyWorker]
          rfl
        · rw [Pool.submitters_notifyWorker]
          rfl
        · rw [Pool.started_notifyWorker]
          rfl
        · intro attended
          exact exists_onWay_notifyWorker notifies (attended slot idle)
  | rouse submitter =>
    simp only [step, ite_none_right_eq_some, some.injEq] at taken
    obtain ⟨blocked, rfl⟩ := taken
    right; right
    apply kept_setSubmitter
    rw [blocked]
    exact .rouse
  | enter worker pick =>
    simp only [step, ite_none_right_eq_some] at taken
    obtain ⟨looping, entered⟩ := taken
    simp only [enterStep] at entered
    split at entered
    · rename_i slot
      cases entered
      exact Or.inr (Or.inr ⟨rfl, rfl, fun _ => .same, fun full => absurd slot full⟩)
    · have took := took_takeStep entered
      exact Or.inr (Or.inl ⟨pick, took.notifies, took.task, took.submitters, took.started⟩)
  | resume worker pick =>
    simp only [step, ite_none_right_eq_some] at taken
    exact Or.inr (Or.inl ⟨pick, took_takeStep taken.2⟩)
  | expire worker =>
    simp only [step, ite_none_right_eq_some, some.injEq] at taken
    obtain ⟨timedOut, rfl⟩ := taken
    right; right
    have notOnWay : ¬ OnWay pool worker := by simp [OnWay, timedOut]
    exact ⟨rfl, rfl, fun _ => .same, fun _ _ => onWay_setPhase_of_not notOnWay⟩
  | wake worker =>
    simp only [step, ite_none_right_eq_some, some.injEq] at taken
    obtain ⟨waiting, rfl⟩ := taken
    exact Or.inr (Or.inr (kept_setPhase (by simp [OnWay, waiting])))
  | timeOut worker =>
    simp only [step, ite_none_right_eq_some, some.injEq] at taken
    obtain ⟨⟨waiting, _⟩, rfl⟩ := taken
    exact Or.inr (Or.inr (kept_setPhase (by simp [OnWay, waiting])))
  | finish worker =>
    simp only [step] at taken
    split at taken
    · rename_i task running
      cases taken
      exact Or.inr (Or.inr (kept_setPhase (by simp [OnWay, running])))
    · cases taken

/-- A worker on its way takes out the task it finds. -/
theorem took_of_acts_worker (acts : Acts (.worker worker) action) (onWay : OnWay pool worker)
    (full : pool.task ≠ none) : ∃ pick, Took pool next pick := by
  rcases acts with ⟨pick, rfl⟩ | ⟨pick, rfl⟩ | rfl
  · simp only [step, ite_none_right_eq_some, enterStep] at taken
    obtain ⟨looping, entered⟩ := taken
    split at entered
    · rename_i slot
      exact absurd slot full
    · have took := took_takeStep entered
      exact ⟨pick, took.notifies, took.task, took.submitters, took.started⟩
  · simp only [step, ite_none_right_eq_some] at taken
    exact ⟨pick, took_takeStep taken.2⟩
  · simp only [step, ite_none_right_eq_some] at taken
    rcases onWay with looping | woken
    · rw [looping] at taken
      cases taken.1
    · rw [woken] at taken
      cases taken.1

/-- The slot is not empty after a submitter had the lock. -/
theorem task_ne_none_of_acts_submitter (acts : Acts (.submitter submitter) action) :
    next.task ≠ none := by
  obtain ⟨pick, rfl⟩ := acts
  simp only [step, ite_none_right_eq_some] at taken
  obtain ⟨entering, submitted⟩ := taken
  cases slot : pool.task with
  | some task =>
    simp only [submitStep, slot, some.injEq] at submitted
    subst submitted
    simp [Pool.setSubmitter, slot]
  | none =>
    simp only [submitStep, slot] at submitted
    split at submitted
    · cases submitted
      simp [Pool.newDaemonThread, Pool.setSubmitter]
    · simp only [ite_none_right_eq_some, some.injEq] at submitted
      rw [← submitted.2]
      simp [Pool.setSubmitter]

/-- A step lets a call return, or makes it wait. -/
theorem submitters_of_step (submitter : Task) :
    next.submitters submitter = .done ∨
      Waits pool (pool.submitters submitter) (next.submitters submitter) := by
  rcases step_cases taken with ⟨filler, filled, _⟩ | ⟨_, took⟩ | kept
  · rw [filled.submitters]
    by_cases same : submitter = filler
    · subst same
      exact Or.inl (update_self _ _ _)
    · rw [update_of_ne same]
      exact Or.inr .same
  · rw [took.submitters]
    exact Or.inr (waits_notified took.notifies submitter)
  · exact Or.inr (kept.submitters submitter)

end

/-- A call is not undone. -/
theorem called_of_step (called : pool.submitters submitter ≠ .absent)
    (taken : step pool action = some next) : next.submitters submitter ≠ .absent := by
  rcases submitters_of_step taken submitter with done | waits
  · rw [done]
    exact nofun
  · exact waits.called called

/-- A return is not undone. -/
theorem done_of_step (done : pool.submitters submitter = .done)
    (taken : step pool action = some next) : next.submitters submitter = .done := by
  rcases submitters_of_step taken submitter with now | waits
  · exact now
  · exact waits.done_iff.mpr done

/-- One step keeps the invariants. -/
theorem Sound.step (sound : Sound pool) (attended : Attended pool action)
    (taken : Thread.step pool action = some next) : Sound next := by
  rcases step_cases taken with ⟨submitter, filled, onWay⟩ | ⟨pick, took⟩ | kept
  · exact filled.sound sound (onWay attended)
  · exact took.sound sound
  · exact kept.sound sound

/-! ## Progress -/

section Progress

variable {execution : Execution (system Task)} {time : Nat}

theorem sound_state (attended : execution.Meets Attended) (time : Nat) :
    Sound (execution.state time) :=
  Execution.invariant attended sound_initial
    (fun sound allowed taken => sound.step allowed taken) time

/-- A task in the slot is started. -/
theorem exists_started (fair : execution.Fair Ready Acts) (attended : execution.Meets Attended)
    (slot : (execution.state time).task = some task) :
    ∃ later, time ≤ later ∧ (execution.state later).started task = 1 := by
  have full : (execution.state time).task ≠ none := by
    rw [slot]
    exact some_ne_none _
  obtain ⟨worker, onWay⟩ := (sound_state attended time).attended full
  have startedBy : ∀ {moment : Nat} {pick : Option Task},
      Took (execution.state moment) (execution.state (moment + 1)) pick →
      (execution.state moment).task = some task →
      (execution.state (moment + 1)).started task = 1 := by
    intro moment pick took there
    rw [took.started, there, Pool.counted, update_self,
      ((sound_state attended moment).queued there).2]
  apply fair.exists_after (.worker worker)
    (fun pool => pool.task = some task ∧ OnWay pool worker) (fun pool => pool.started task = 1)
  · rintro moment ⟨_, looping | woken⟩
    · exact Or.inl looping
    · exact Or.inr (Or.inl woken)
  · rintro moment action taken ⟨there, onWay⟩
    rcases step_cases (execution.step_eq taken) with ⟨_, filled, _⟩ | ⟨pick, took⟩ | kept
    · rw [filled.empty] at there
      cases there
    · exact Or.inr (startedBy took there)
    · refine Or.inl ⟨kept.task.trans there, kept.onWay ?_ worker onWay⟩
      rw [there]
      exact some_ne_none _
  · rintro moment action taken acts ⟨there, onWay⟩
    have notEmpty : (execution.state moment).task ≠ none := by
      rw [there]
      exact some_ne_none _
    obtain ⟨pick, took⟩ := took_of_acts_worker (execution.step_eq taken) acts onWay notEmpty
    exact startedBy took there
  · exact ⟨slot, onWay⟩

/-- A submitter that wants the lock finds the slot full or fills it. -/
theorem exists_task_ne_none (fair : execution.Fair Ready Acts) {time : Nat}
    (entering : (execution.state time).submitters submitter = .entering) :
    ∃ later, time ≤ later ∧ (execution.state later).task ≠ none := by
  apply fair.exists_after (.submitter submitter)
    (fun pool => pool.submitters submitter = .entering) (fun pool => pool.task ≠ none)
  · exact fun _ isEntering => isEntering
  · intro moment action taken isEntering
    have stepEq := execution.step_eq taken
    rcases step_cases stepEq with ⟨filler, filled, _⟩ | ⟨pick, took⟩ | kept
    · right
      rw [filled.task]
      exact some_ne_none _
    · left
      rw [took.submitters]
      exact notified_of_entering isEntering pick
    · rw [kept.task]
      exact (isEntering ▸ kept.submitters submitter).of_entering
  · intro moment action taken acts _
    exact task_ne_none_of_acts_submitter (execution.step_eq taken) acts
  · exact entering

/-- How many tasks have been started. -/
def totalStarted (pool : Pool Task) : Nat :=
  ∑ task, pool.started task

theorem started_le_of_step (taken : step pool action = some next) (task : Task) :
    pool.started task ≤ next.started task := by
  rcases step_cases taken with ⟨_, filled, _⟩ | ⟨_, took⟩ | kept
  · rw [filled.started]
  · rw [took.started]
    by_cases queued : pool.task = some task
    · rw [queued, Pool.counted, update_self]
      exact Nat.le_succ _
    · rw [counted_of_ne queued]
  · rw [kept.started]

theorem monotone_started (task : Task) : Monotone fun time => (execution.state time).started task :=
  Execution.monotone_of_step (fun pool : Pool Task => pool.started task) fun taken =>
    started_le_of_step taken task

theorem monotone_totalStarted : Monotone fun time => totalStarted (execution.state time) :=
  Execution.monotone_of_step totalStarted fun taken =>
    Finset.sum_le_sum fun task _ => started_le_of_step taken task

/-- A call that has not returned keeps the pool going. -/
theorem exists_totalStarted_lt (fair : execution.Fair Ready Acts)
    (attended : execution.Meets Attended) {time : Nat}
    (called : (execution.state time).submitters submitter ≠ .absent)
    (notDone : (execution.state time).submitters submitter ≠ .done) :
    ∃ later, time ≤ later ∧
      totalStarted (execution.state time) < totalStarted (execution.state later) := by
  have fills : ∃ later, time ≤ later ∧ (execution.state later).task ≠ none := by
    cases state : (execution.state time).submitters submitter with
    | absent => exact absurd state called
    | done => exact absurd state notDone
    | entering => exact exists_task_ne_none fair state
    | blocked =>
      rcases (sound_state attended time).blocked ⟨submitter, state⟩ with full | ⟨_, entering⟩
      · exact ⟨time, le_rfl, full⟩
      · exact exists_task_ne_none fair entering
  obtain ⟨middle, timeLe, full⟩ := fills
  obtain ⟨task, slot⟩ := ne_none_iff_exists'.mp full
  obtain ⟨later, middleLe, isStarted⟩ := exists_started fair attended slot
  refine ⟨later, timeLe.trans middleLe, ?_⟩
  have notStarted := ((sound_state attended middle).queued slot).2
  calc totalStarted (execution.state time)
      ≤ totalStarted (execution.state middle) := monotone_totalStarted timeLe
    _ < totalStarted (execution.state later) := by
      apply Finset.sum_lt_sum
      · intro other _
        exact monotone_started other middleLe
      · refine ⟨task, Finset.mem_univ task, ?_⟩
        rw [notStarted, isStarted]
        exact Nat.zero_lt_one

theorem totalStarted_le (attended : execution.Meets Attended) (time : Nat) :
    totalStarted (execution.state time) ≤ Fintype.card Task := by
  rw [← Finset.card_univ, Finset.card_eq_sum_ones]
  apply Finset.sum_le_sum
  intro task _
  exact (sound_state attended time).started_le_one task

/-- Every call of `exec_task` returns: until then tasks keep being started, and
there are only so many. -/
theorem exists_done (fair : execution.Fair Ready Acts) (attended : execution.Meets Attended)
    {time : Nat} (called : (execution.state time).submitters submitter ≠ .absent) :
    ∃ later, time ≤ later ∧ (execution.state later).submitters submitter = .done := by
  induction remaining : Fintype.card Task - totalStarted (execution.state time)
    using Nat.strong_induction_on generalizing time with
  | _ count ih =>
    by_cases done : (execution.state time).submitters submitter = .done
    · exact ⟨time, le_rfl, done⟩
    · obtain ⟨middle, timeLe, more⟩ := exists_totalStarted_lt fair attended called done
      have stillCalled : (execution.state middle).submitters submitter ≠ .absent :=
        Execution.stable (fun pool : Pool Task => pool.submitters submitter ≠ .absent)
          called_of_step timeLe called
      have bound := totalStarted_le attended middle
      have fewer : Fintype.card Task - totalStarted (execution.state middle) < count := by
        omega
      obtain ⟨later, middleLe, isDone⟩ := ih _ fewer stillCalled rfl
      exact ⟨later, timeLe.trans middleLe, isDone⟩

end Progress

/-- In a fair execution in which every submission that counts on an idle thread is
attended, no task is ever started twice, every task handed to `exec_task` is
started, and the call returns. -/
theorem started_exactly_once (execution : Execution (system Task))
    (fair : execution.Fair Ready Acts) (attended : execution.Meets Attended) (task : Task) :
    (∀ time, (execution.state time).started task ≤ 1) ∧
      ∀ time, (execution.state time).submitters task ≠ .absent →
        ∃ later, time ≤ later ∧ (execution.state later).submitters task = .done ∧
          (execution.state later).started task = 1 := by
  constructor
  · intro time
    exact (sound_state attended time).started_le_one task
  · intro time called
    obtain ⟨middle, timeLe, done⟩ := exists_done fair attended called
    cases (sound_state attended middle).stage task with
    | ahead notDone _ _ => exact absurd done notDone
    | queued _ slot _ =>
      obtain ⟨later, middleLe, started⟩ := exists_started fair attended slot
      have stillDone : (execution.state later).submitters task = .done :=
        Execution.stable (fun pool : Pool Task => pool.submitters task = .done)
          done_of_step middleLe done
      exact ⟨later, timeLe.trans middleLe, stillDone, started⟩
    | started _ _ started => exact ⟨middle, timeLe, done, started⟩

/-- A worker that has gone idle is notified of a second task. -/
def relay : List (Action (Fin 2)) :=
  let first : Fin 2 := ⟨0, Nat.zero_lt_two⟩
  let second : Fin 2 := ⟨1, Nat.one_lt_two⟩
  [.call first, .submit first none, .enter first none, .finish first, .enter first none,
    .call second, .submit second (some first), .resume first none]

/-- The second task is started once, by the worker that waited. -/
theorem started_exactly_once_relay :
    (∀ time, ((system (Fin 2)).trace initial relay time).started 1 ≤ 1) ∧
      ∃ later, 6 ≤ later ∧ ((system (Fin 2)).trace initial relay later).submitters 1 = .done ∧
        ((system (Fin 2)).trace initial relay later).started 1 = 1 := by
  have runs : ((system (Fin 2)).run initial relay).isSome := by decide
  obtain ⟨last, runEq⟩ := Option.isSome_iff_exists.mp runs
  have fair : (Execution.ofLabels _ relay runEq).Fair Ready Acts := by
    apply Execution.fair_ofLabels runEq
    rintro (submitter | worker)
    · revert submitter
      decide
    · revert worker
      decide
  have attended : (Execution.ofLabels _ relay runEq).Meets Attended :=
    Execution.meets_ofLabels runEq (by decide)
  have once := started_exactly_once (Execution.ofLabels _ relay runEq) fair attended 1
  have called : ((system (Fin 2)).trace initial relay 6).submitters 1 ≠ .absent := by decide
  exact ⟨once.1, once.2 6 called⟩

/-! ## The lost task -/

/-- Three tasks keep the core workers busy.  The fourth worker has run its task,
and its wait times out; it still counts as idle when the fifth task is submitted,
and leaves without looking into the slot. -/
def lostTask : List (Action (Fin 6)) :=
  [.call 0, .submit 0 none, .enter 0 none, .call 1, .submit 1 none, .enter 1 none,
    .call 2, .submit 2 none, .enter 2 none, .call 3, .submit 3 none, .enter 3 none,
    .finish 3, .enter 3 none, .timeOut 3, .call 4, .submit 4 none, .expire 3,
    .call 5, .submit 5 none]

/-- Without the condition, a fair execution can leave a task in the slot forever,
and the next submitter blocked on it. -/
theorem exists_never_started : ∃ execution : Execution (system (Fin 6)), execution.Fair Ready Acts ∧
      ∀ time, 20 ≤ time → (execution.state time).submitters 4 = .done ∧
        (execution.state time).started 4 = 0 ∧
        (execution.state time).submitters 5 = .blocked := by
  have runs : ((system (Fin 6)).run initial lostTask).isSome := by decide +kernel
  obtain ⟨last, runEq⟩ := Option.isSome_iff_exists.mp runs
  refine ⟨Execution.ofLabels _ lostTask runEq, ?_, ?_⟩
  · apply Execution.fair_ofLabels runEq
    rintro (submitter | worker)
    · revert submitter
      decide +kernel
    · revert worker
      decide +kernel
  · intro time passed
    rw [Execution.state_ofLabels_of_length_le runEq passed]
    decide +kernel

end Magisk.Core.Thread
