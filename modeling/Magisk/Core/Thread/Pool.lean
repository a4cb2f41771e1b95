import Magisk.Interleaving.Core

/-!
# The thread pool

Submitters put tasks into a single slot and workers take them out.  All shared
data is guarded by one mutex, so a step is a whole critical section: from taking
the lock to releasing it or to waiting on a condition variable, and from the
return of a wait to the next release.  Waits return when notified, spuriously, or
after a timeout; a thread whose wait has returned still has to take the lock.

Each submission is a task of its own.  A worker is named after the submission
that created it; a submission creates at most one.
-/

namespace Magisk.Core.Thread

open Interleaving

/-! ## The state -/

/-- Where a call of `exec_task` stands. -/
inductive Submitter where
  | absent
  /-- About to take the lock. -/
  | entering
  /-- Waiting for `task_is_none`. -/
  | blocked
  | done
  deriving DecidableEq, Repr

/-- Where a worker stands in `pool_loop`. -/
inductive Phase (Task : Type) where
  | unborn
  /-- About to take the lock at the start of the loop. -/
  | looping
  /-- Waiting for `task_is_some`. -/
  | waiting
  /-- The wait has returned, and the lock has not been taken again. -/
  | woken
  /-- The wait has timed out, and the lock has not been taken again. -/
  | timedOut
  | running (task : Task)
  | gone
  deriving DecidableEq, Repr

/-- A worker. -/
structure Worker (Task : Type) where
  phase : Phase Task
  isCorePool : Bool
  deriving DecidableEq, Repr

/-- `PoolInfo`, with the threads around it and how often each task was started. -/
structure Pool (Task : Type) where
  idleThreads : Int
  totalThreads : Int
  task : Option Task
  submitters : Task → Submitter
  workers : Task → Worker Task
  started : Task → Nat

/-- `CORE_POOL_SIZE`. -/
def corePoolSize : Int :=
  3

/-! ## The steps -/

/-- The steps of the threads; `pick` is the thread that `notify_one` wakes. -/
inductive Action (Task : Type) where
  /-- `exec_task` is called. -/
  | call (submitter : Task)
  /-- A submitter takes the lock. -/
  | submit (submitter : Task) (pick : Option Task)
  /-- A submitter's wait returns without a notification. -/
  | rouse (submitter : Task)
  /-- A worker takes the lock at the start of its loop. -/
  | enter (worker : Task) (pick : Option Task)
  /-- A worker takes the lock after its wait has returned. -/
  | resume (worker : Task) (pick : Option Task)
  /-- A worker takes the lock after its wait has timed out. -/
  | expire (worker : Task)
  /-- A worker's wait returns without a notification. -/
  | wake (worker : Task)
  /-- A worker's wait times out. -/
  | timeOut (worker : Task)
  /-- A task returns. -/
  | finish (worker : Task)
  deriving DecidableEq, Repr

variable {Task : Type} [DecidableEq Task]

namespace Pool

/-- Put a worker into a phase. -/
def setPhase (pool : Pool Task) (worker : Task) (phase : Phase Task) : Pool Task :=
  { pool with
    workers := Function.update pool.workers worker
      ⟨phase, (pool.workers worker).isCorePool⟩ }

/-- Put a submitter into a state. -/
def setSubmitter (pool : Pool Task) (submitter : Task) (state : Submitter) : Pool Task :=
  { pool with submitters := Function.update pool.submitters submitter state }

/-- The submitter that `notify_one` picks goes for the lock. -/
def notified (submitters : Task → Submitter) : Option Task → Task → Submitter
  | none => submitters
  | some submitter => Function.update submitters submitter .entering

/-- `task_is_none.notify_one()`. -/
def notifySubmitter (pool : Pool Task) (pick : Option Task) : Pool Task :=
  { pool with submitters := notified pool.submitters pick }

/-- `task_is_some.notify_one()`. -/
def notifyWorker (pool : Pool Task) : Option Task → Pool Task
  | none => pool
  | some worker => pool.setPhase worker .woken

/-- Count the start of a task. -/
def counted (started : Task → Nat) : Option Task → Task → Nat
  | none => started
  | some task => Function.update started task (started task + 1)

/-- Run what was taken, or start over. -/
def dispatch (pool : Pool Task) (worker : Task) (task : Option Task) : Pool Task :=
  { pool.setPhase worker (task.elim .looping .running) with
    started := counted pool.started task }

/-- The end of a worker's critical section: take the task, notify a submitter, and
stop being idle. -/
def take (pool : Pool Task) (worker : Task) (pick : Option Task) : Pool Task :=
  (({ pool with task := none, idleThreads := pool.idleThreads - 1 }).notifySubmitter
    pick).dispatch worker pool.task

theorem workers_setPhase_self (pool : Pool Task) (worker : Task) (phase : Phase Task) :
    (pool.setPhase worker phase).workers worker = ⟨phase, (pool.workers worker).isCorePool⟩ :=
  Function.update_self _ _ _

theorem workers_setPhase_of_ne (pool : Pool Task) {worker other : Task} (phase : Phase Task)
    (different : other ≠ worker) :
    (pool.setPhase worker phase).workers other = pool.workers other :=
  Function.update_of_ne different _ _

section

variable (pool : Pool Task) (pick : Option Task)

@[simp]
theorem task_notifyWorker :
    (pool.notifyWorker pick).task = pool.task := by
  cases pick <;> rfl

@[simp]
theorem submitters_notifyWorker :
    (pool.notifyWorker pick).submitters = pool.submitters := by
  cases pick <;> rfl

@[simp]
theorem started_notifyWorker :
    (pool.notifyWorker pick).started = pool.started := by
  cases pick <;> rfl

end

/-- A new worker for the submission. -/
def newDaemonThread (pool : Pool Task) (submitter : Task) : Pool Task :=
  { pool with
    totalThreads := pool.totalThreads + 1
    workers := Function.update pool.workers submitter
      ⟨.looping, decide (pool.totalThreads + 1 ≤ corePoolSize)⟩ }

end Pool

/-- `notify_one` wakes a thread that waits, unless there is none. -/
def Notifies (waits : Task → Prop) : Option Task → Prop
  | none => ∀ thread, ¬ waits thread
  | some thread => waits thread

instance [Fintype Task] (waits : Task → Prop) [DecidablePred waits] :
    (pick : Option Task) → Decidable (Notifies waits pick)
  | none => inferInstanceAs (Decidable (∀ thread, ¬ waits thread))
  | some thread => inferInstanceAs (Decidable (waits thread))

variable [Fintype Task]

/-- The critical section of `exec_task_impl`. -/
def submitStep (pool : Pool Task) (submitter : Task) (pick : Option Task) :
    Option (Pool Task) :=
  match pool.task with
  | some _ => some (pool.setSubmitter submitter .blocked)
  | none =>
    let pool : Pool Task := ({ pool with task := some submitter }).setSubmitter submitter .done
    if pool.idleThreads = 0 then
      some (pool.newDaemonThread submitter)
    else if Notifies (fun worker => (pool.workers worker).phase = .waiting) pick then
      some (pool.notifyWorker pick)
    else
      none

/-- The end of a worker's critical section, with a submitter to notify. -/
def takeStep (pool : Pool Task) (worker : Task) (pick : Option Task) : Option (Pool Task) :=
  if Notifies (fun submitter => pool.submitters submitter = .blocked) pick then
    some (pool.take worker pick)
  else
    none

/-- The critical section at the start of `pool_loop`. -/
def enterStep (pool : Pool Task) (worker : Task) (pick : Option Task) : Option (Pool Task) :=
  let pool := { pool with idleThreads := pool.idleThreads + 1 }
  match pool.task with
  | none => some (pool.setPhase worker .waiting)
  | some _ => takeStep pool worker pick

/-- One step. -/
def step (pool : Pool Task) : Action Task → Option (Pool Task)
  | .call submitter =>
    if pool.submitters submitter = .absent then
      some (pool.setSubmitter submitter .entering)
    else
      none
  | .submit submitter pick =>
    if pool.submitters submitter = .entering then submitStep pool submitter pick else none
  | .rouse submitter =>
    if pool.submitters submitter = .blocked then
      some (pool.setSubmitter submitter .entering)
    else
      none
  | .enter worker pick =>
    if (pool.workers worker).phase = .looping then enterStep pool worker pick else none
  | .resume worker pick =>
    if (pool.workers worker).phase = .woken then takeStep pool worker pick else none
  | .expire worker =>
    if (pool.workers worker).phase = .timedOut then
      some (({ pool with
        idleThreads := pool.idleThreads - 1
        totalThreads := pool.totalThreads - 1 }).setPhase worker .gone)
    else
      none
  | .wake worker =>
    if (pool.workers worker).phase = .waiting then
      some (pool.setPhase worker .woken)
    else
      none
  | .timeOut worker =>
    if (pool.workers worker).phase = .waiting ∧ (pool.workers worker).isCorePool = false then
      some (pool.setPhase worker .timedOut)
    else
      none
  | .finish worker =>
    match (pool.workers worker).phase with
    | .running _ => some (pool.setPhase worker .looping)
    | _ => none

/-- An empty pool. -/
def initial : Pool Task where
  idleThreads := 0
  totalThreads := 0
  task := none
  submitters := fun _ => .absent
  workers := fun _ => ⟨.unborn, false⟩
  started := fun _ => 0

/-- The pool with any number of submissions. -/
def system (Task : Type) [DecidableEq Task] [Fintype Task] : System (Pool Task) (Action Task) :=
  ⟨initial, step⟩

/-! ## Scheduling -/

/-- A thread that takes the lock. -/
inductive Agent (Task : Type) where
  | submitter (task : Task)
  | worker (task : Task)
  deriving DecidableEq, Repr

/-- The thread wants the lock. -/
def Ready : Agent Task → Pool Task → Prop
  | .submitter submitter, pool => pool.submitters submitter = .entering
  | .worker worker, pool =>
    (pool.workers worker).phase = .looping ∨ (pool.workers worker).phase = .woken ∨
      (pool.workers worker).phase = .timedOut

instance (pool : Pool Task) : (agent : Agent Task) → Decidable (Ready agent pool)
  | .submitter submitter => inferInstanceAs (Decidable (pool.submitters submitter = .entering))
  | .worker worker =>
    inferInstanceAs (Decidable ((pool.workers worker).phase = .looping ∨
      (pool.workers worker).phase = .woken ∨ (pool.workers worker).phase = .timedOut))

/-- The thread takes the lock. -/
def Acts : Agent Task → Action Task → Prop
  | .submitter submitter, action => ∃ pick, action = .submit submitter pick
  | .worker worker, action =>
    (∃ pick, action = .enter worker pick) ∨ (∃ pick, action = .resume worker pick) ∨
      action = .expire worker

/-- The worker will look into the slot. -/
def OnWay (pool : Pool Task) (worker : Task) : Prop :=
  (pool.workers worker).phase = .looping ∨ (pool.workers worker).phase = .woken

instance (pool : Pool Task) (worker : Task) : Decidable (OnWay pool worker) :=
  inferInstanceAs (Decidable (_ ∨ _))

/-- A submitter that fills the slot and counts on an idle thread finds a worker
that waits or is on its way, so not only threads whose wait has timed out. -/
def Attended (pool : Pool Task) : Action Task → Prop
  | .submit _ _ =>
    pool.task = none → pool.idleThreads ≠ 0 →
      ∃ worker, (pool.workers worker).phase = .waiting ∨ OnWay pool worker
  | _ => True

instance (pool : Pool Task) (action : Action Task) : Decidable (Attended pool action) := by
  cases action <;> unfold Attended <;> infer_instance

end Magisk.Core.Thread
