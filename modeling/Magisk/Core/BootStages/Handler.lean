import Magisk.Interleaving.Sites

/-!
# Boot stages

`boot_stage_handler` runs the three boot stages under one lock and remembers in a
set of flags which of them are done.  The flag of the first stage keeps it from
being run again; the flags of the other two are set and never looked at.

The log lists when the body of a stage begins and finishes.  Requests come from any
number of threads, and what the checks of a stage find is part of its request.
-/

namespace Magisk.Core.BootStages

open Interleaving.Program List Interleaving

/-! ## The checks of the first stage -/

/-- What `check_data` looks at: the lines of `/proc/mounts`, unless it cannot be
opened, and two properties. -/
structure DataCheck where
  mounts : Option (List String)
  cryptoState : String
  vold : String

/-- `str::contains`. -/
def contains (text part : String) : Bool :=
  part.toList <:+: text.toList

/-- `check_data`. -/
def DataCheck.checkData (check : DataCheck) : Bool :=
  match check.mounts with
  | none => false
  | some lines =>
    if !lines.any fun line => contains line " /data " && !contains line "tmpfs" then false
    else if check.cryptoState ≠ "" then
      if check.cryptoState ≠ "encrypted" then true else check.vold ≠ ""
    else true

/-- What `post_fs_data` looks at on its way. -/
structure Device where
  /-- The secure directory exists. -/
  secureDir : Bool
  sdkInt : Int32
  /-- `setup_magisk_env` finds everything. -/
  environment : Bool
  bootCount : Int32
  persistSafemode : String
  roSafemode : String
  keyCombo : Bool

/-- `post_fs_data`: whether it gives up or enters safe mode. -/
def Device.postFsData (device : Device) : Bool :=
  if !device.secureDir && !(device.sdkInt < 24) then true
  else if !device.environment then true
  else
    device.bootCount ≥ 2 || device.persistSafemode = "1" || device.roSafemode = "1" ||
      device.keyCombo

/-! ## The handler -/

/-- The stages. -/
inductive Stage where
  | postFsData
  | lateStart
  | bootComplete
  deriving DecidableEq, Repr

/-- `BootState`. -/
structure BootState where
  postFsDataDone : Bool := false
  lateStartDone : Bool := false
  bootComplete : Bool := false
  safeMode : Bool := false
  deriving DecidableEq, Repr

/-- The flag of a stage. -/
def BootState.done (state : BootState) : Stage → Bool
  | .postFsData => state.postFsDataDone
  | .lateStart => state.lateStartDone
  | .bootComplete => state.bootComplete

/-- The body of a stage begins, or finishes; `safe` is what `post_fs_data` returns. -/
inductive Event where
  | begin (stage : Stage)
  | finish (stage : Stage) (safe : Bool)
  deriving DecidableEq, Repr

/-- What the lock guards, and the log. -/
structure BootData where
  state : BootState := {}
  log : List Event := []
  deriving DecidableEq, Repr

/-- The places at which the handler looks at the flags, begins a body and comes back
from it. -/
inductive Site where
  | look
  | begin (stage : Stage)
  | finish (stage : Stage) (safe : Bool)

/-- The flags a body is begun with: `BOOT_COMPLETE` sets its flag first. -/
def BootState.begin (state : BootState) : Stage → BootState
  | .bootComplete => { state with bootComplete := true }
  | _ => state

/-- The flags after a body. -/
def BootState.finish (state : BootState) (safe : Bool) : Stage → BootState
  | .postFsData => { state with safeMode := state.safeMode || safe, postFsDataDone := true }
  | .lateStart => { state with lateStartDone := true }
  | .bootComplete => state

/-- What happens at a place. -/
def effects : Site → BootData → BootData
  | .look, data => data
  | .begin stage, data => ⟨data.state.begin stage, data.log ++ [.begin stage]⟩
  | .finish stage safe, data => ⟨data.state.finish safe stage, data.log ++ [.finish stage safe]⟩

/-- A request with what its checks will find. -/
inductive Request where
  | postFsData (check : DataCheck) (device : Device)
  | lateStart
  | bootComplete
  | other

/-- Look at the flags. -/
def lookState : Program BootData Site BootState :=
  .access .look (effects .look) fun seen => .done seen.state

/-- Run the body of a stage. -/
def execute (stage : Stage) (safe : Bool) : Program BootData Site Unit := do
  Program.change (.begin stage) (effects (.begin stage))
  Program.change (.finish stage safe) (effects (.finish stage safe))

/-- The arm of `boot_stage_handler` for a request, given the flags. -/
def handle (state : BootState) : Request → Program BootData Site Unit
  | .postFsData check device =>
    if check.checkData && !state.postFsDataDone then execute .postFsData device.postFsData
    else pure ()
  | .lateStart =>
    if state.postFsDataDone && !state.safeMode then execute .lateStart false else pure ()
  | .bootComplete => if state.postFsDataDone then execute .bootComplete false else pure ()
  | .other => pure ()

/-- `boot_stage_handler`. -/
def bootStageHandler (request : Request) : Program BootData Site Unit := do
  Program.acquire
  let state ← lookState
  handle state request
  Program.release

/-! ## What is wanted of the log -/

/-- Every stage runs at most once, the later two after the first, which for the
second one did not enter safe mode, and no body begins before another is finished. -/
structure Proper (log : List Event) : Prop where
  once : ∀ stage, log.count (.begin stage) ≤ 1
  late : ∀ before after, log = before ++ .begin .lateStart :: after →
    .finish .postFsData false ∈ before
  boot : ∀ before after, log = before ++ .begin .bootComplete :: after →
    ∃ safe, .finish .postFsData safe ∈ before
  serial : ∀ stage before after, log = before ++ .begin stage :: after →
    after = [] ∨ ∃ safe rest, after = .finish stage safe :: rest

/-- A log in which every body is finished. -/
inductive Closed : List Event → Prop where
  | nil : Closed []
  | body {log : List Event} (closed : Closed log) (stage : Stage) (safe : Bool) :
      Closed (log ++ [.begin stage, .finish stage safe])

section Log

variable {log : List Event}

theorem Closed.ne_concat_begin (closed : Closed log) (before : List Event) (stage : Stage) :
    log ≠ before ++ [.begin stage] := by
  intro same
  have last := congrArg getLast? same
  cases closed with
  | nil =>
    rw [getLast?_concat] at last
    cases last
  | body closed other safe =>
    rw [getLast?_concat, append_cons, getLast?_concat] at last
    cases last

/-- An entry of a log that grew by one is the new one or an old one. -/
theorem split_concat {before after : List Event} {last event : Event}
    (split : log ++ [last] = before ++ event :: after) :
    (before = log ∧ event = last ∧ after = []) ∨
      ∃ init, after = init ++ [last] ∧ log = before ++ event :: init := by
  rcases eq_nil_or_concat after with rfl | ⟨init, final, rfl⟩
  · have parts := append_inj' split rfl
    cases parts.2
    exact Or.inl ⟨parts.1.symm, rfl, rfl⟩
  · rw [concat_eq_append, ← cons_append, ← append_assoc] at split
    have parts := append_inj' split rfl
    cases parts.2
    exact Or.inr ⟨init, concat_eq_append, parts.1⟩

/-- A finished body may be followed by the body of a stage that has not run, if the
stages it comes after have. -/
theorem Proper.begin (proper : Proper log) (closed : Closed log) {stage : Stage}
    (new : .begin stage ∉ log) (late : stage = .lateStart → .finish .postFsData false ∈ log)
    (boot : stage = .bootComplete → ∃ safe, .finish .postFsData safe ∈ log) :
    Proper (log ++ [.begin stage]) := by
  refine ⟨fun other => ?_, fun before after split => ?_, fun before after split => ?_,
    fun other before after split => ?_⟩
  · rw [count_append, count_singleton]
    by_cases same : stage = other
    · subst other
      rw [count_eq_zero_of_not_mem new, beq_self_eq_true, if_pos rfl]
    · have differ : (Event.begin stage == Event.begin other) = false := by
        simpa using same
      rw [differ, if_neg (by decide)]
      exact proper.once other
  · rcases split_concat split with ⟨rfl, same, _⟩ | ⟨init, _, old⟩
    · cases same
      exact late rfl
    · exact proper.late before init old
  · rcases split_concat split with ⟨rfl, same, _⟩ | ⟨init, _, old⟩
    · cases same
      exact boot rfl
    · exact proper.boot before init old
  · rcases split_concat split with ⟨_, _, last⟩ | ⟨init, rfl, old⟩
    · exact Or.inl last
    · rcases proper.serial other before init old with rfl | ⟨safe, rest, rfl⟩
      · exact absurd old (closed.ne_concat_begin before other)
      · exact Or.inr ⟨safe, rest ++ [.begin stage], rfl⟩

/-- The body that was begun last may finish. -/
theorem Proper.finish {stage : Stage} (proper : Proper (log ++ [.begin stage])) (safe : Bool) :
    Proper (log ++ [.begin stage] ++ [.finish stage safe]) := by
  refine ⟨fun other => ?_, fun before after split => ?_, fun before after split => ?_,
    fun other before after split => ?_⟩
  · rw [count_append, count_singleton, if_neg (by simp)]
    exact proper.once other
  · rcases split_concat split with ⟨_, same, _⟩ | ⟨init, _, old⟩
    · cases same
    · exact proper.late before init old
  · rcases split_concat split with ⟨_, same, _⟩ | ⟨init, _, old⟩
    · cases same
    · exact proper.boot before init old
  · rcases split_concat split with ⟨_, same, _⟩ | ⟨init, rfl, old⟩
    · cases same
    · rcases proper.serial other before init old with rfl | ⟨first, rest, rfl⟩
      · have parts := append_inj' old rfl
        cases parts.2
        exact Or.inr ⟨safe, [], rfl⟩
      · exact Or.inr ⟨first, rest ++ [.finish stage safe], rfl⟩

end Log

/-! ## Under the lock -/

/-- What the flags say about the log while no body is running. -/
structure Settled (data : BootData) : Prop where
  closed : Closed data.log
  done : ∀ stage, data.state.done stage = true ↔ .begin stage ∈ data.log
  finished : data.state.postFsDataDone = true → ∃ safe, .finish .postFsData safe ∈ data.log
  normal : data.state.postFsDataDone = true → data.state.safeMode = false →
    .finish .postFsData false ∈ data.log

/-- The guards of the three arms. -/
def Admits (state : BootState) : Stage → Prop
  | .postFsData => state.postFsDataDone = false
  | .lateStart => state.postFsDataDone = true ∧ state.safeMode = false
  | .bootComplete => state.postFsDataDone = true

/-- The lock guards settled data; a body begins behind its guard and finishes what
was begun. -/
def discipline : Program.Discipline BootData Site where
  invariant := Settled
  asserts
    | .look, _ => True
    | .begin stage, data => Settled data ∧ Admits data.state stage
    | .finish stage _, data => ∃ before, Settled before ∧ data = effects (.begin stage) before

/-- The condition under which a body is begun for the first time. -/
def Unrepeated : Site → BootData → Prop
  | .begin stage, data => data.state.done stage = false
  | _, _ => True

section Lock

variable {data : BootData} {stage : Stage}

theorem settled_execute (settled : Settled data) (admits : Admits data.state stage) (safe : Bool) :
    Settled (effects (.finish stage safe) (effects (.begin stage) data)) := by
  have log : (effects (.finish stage safe) (effects (.begin stage) data)).log =
      data.log ++ [.begin stage, .finish stage safe] := by
    simp [effects]
  have kept : ∀ {event}, event ∈ data.log →
      event ∈ (effects (.finish stage safe) (effects (.begin stage) data)).log := by
    intro event mem
    rw [log]
    exact mem_append_left _ mem
  refine ⟨?_, ?_, ?_, ?_⟩
  · rw [log]
    exact settled.closed.body stage safe
  · intro other
    have before := settled.done other
    cases stage <;> cases other <;>
      simp_all [effects, BootState.begin, BootState.finish, BootState.done]
  · intro isDone
    cases stage with
    | postFsData => exact ⟨safe, by rw [log]; simp⟩
    | lateStart =>
      rcases settled.finished admits.1 with ⟨found, mem⟩
      exact ⟨found, kept mem⟩
    | bootComplete =>
      rcases settled.finished admits with ⟨found, mem⟩
      exact ⟨found, kept mem⟩
  · intro isDone notSafe
    cases stage with
    | postFsData =>
      have noSafe : safe = false := by
        simp only [effects, BootState.finish, Bool.or_eq_false_iff] at notSafe
        exact notSafe.2
      rw [log, noSafe]
      simp
    | lateStart => exact kept (settled.normal admits.1 admits.2)
    | bootComplete => exact kept (settled.normal admits notSafe)

variable {post : Unit → Bool → BootData → Prop}

theorem keeps_execute (settled : Settled data) (stage : Stage) (admits : Admits data.state stage)
    (safe : Bool) (after : ∀ data, Settled data → post () true data) :
    (execute stage safe).Keeps discipline post true data := by
  exact ⟨rfl, ⟨settled, admits⟩, rfl, ⟨data, settled, rfl⟩,
    after _ (settled_execute settled admits safe)⟩

theorem keeps_handle (settled : Settled data) (request : Request)
    (after : ∀ data, Settled data → post () true data) :
    (handle data.state request).Keeps discipline post true data := by
  cases request with
  | postFsData check device =>
    rw [handle]
    split
    · rename_i admitted
      rw [Bool.and_eq_true, Bool.not_eq_true'] at admitted
      exact keeps_execute settled .postFsData admitted.2 _ after
    · exact after data settled
  | lateStart =>
    rw [handle]
    split
    · rename_i admitted
      rw [Bool.and_eq_true, Bool.not_eq_true'] at admitted
      exact keeps_execute settled .lateStart admitted _ after
    · exact after data settled
  | bootComplete =>
    rw [handle]
    split
    · rename_i admitted
      exact keeps_execute settled .bootComplete admitted _ after
    · exact after data settled
  | other => exact after data settled

theorem disciplined_bootStageHandler (request : Request) :
    (bootStageHandler request).Disciplined discipline := by
  intro data
  rw [bootStageHandler]
  refine ⟨rfl, fun data settled => ?_⟩
  refine ⟨rfl, trivial, ?_⟩
  change (handle data.state request >>= fun _ => release).Keeps discipline _ true data
  rw [keeps_bind]
  apply keeps_handle settled
  intro after settledAfter
  exact ⟨rfl, settledAfter, fun _ => rfl⟩

theorem marked_execute (stage : Stage) (safe : Bool) : (execute stage safe).Marked effects :=
  (marked_change _).bind fun _ => marked_change _

theorem marked_handle (state : BootState) (request : Request) :
    (handle state request).Marked effects := by
  cases request with
  | postFsData check device =>
    rw [handle]
    split
    · exact marked_execute _ _
    · exact marked_pure _
  | lateStart =>
    rw [handle]
    split
    · exact marked_execute _ _
    · exact marked_pure _
  | bootComplete =>
    rw [handle]
    split
    · exact marked_execute _ _
    · exact marked_pure _
  | other => exact marked_pure _

theorem marked_bootStageHandler (request : Request) :
    (bootStageHandler request).Marked effects := by
  refine marked_acquire.bind fun _ => Program.Marked.bind ?_ fun state =>
    (marked_handle state request).bind fun _ => marked_release
  exact ⟨rfl, fun _ => trivial⟩

/-- A site keeps the log proper exactly if it does not begin a stage again. -/
theorem proper_effects_iff {site : Site} (asserted : discipline.asserts site data)
    (proper : Proper data.log) :
    Proper (effects site data).log ↔ Unrepeated site data := by
  cases site with
  | look => exact iff_of_true proper trivial
  | begin stage =>
    rcases asserted with ⟨settled, admits⟩
    constructor
    · intro grown
      have atMost := grown.once stage
      rw [effects, count_append, count_singleton_self] at atMost
      change data.state.done stage = false
      rw [Bool.eq_false_iff, ne_eq, settled.done]
      intro mem
      have positive := count_pos_iff.mpr mem
      omega
    · intro new
      have notBegun : .begin stage ∉ data.log := by
        rw [← settled.done, new]
        decide
      apply proper.begin settled.closed notBegun
      · rintro rfl
        exact settled.normal admits.1 admits.2
      · rintro rfl
        exact settled.finished admits
  | finish stage safe =>
    rcases asserted with ⟨before, _, rfl⟩
    exact iff_of_true (proper.finish safe) trivial

end Lock

theorem settled_empty : Settled {} := by
  refine ⟨.nil, fun stage => ?_, nofun, nofun⟩
  cases stage <;> exact iff_of_false (by decide) (by decide)

theorem proper_nil : Proper [] := ⟨fun _ => Nat.zero_le 1, fun before _ split => by simp at split,
    fun before _ split => by simp at split, fun _ before _ split => by simp at split⟩

/-- In a run of any number of threads the log stays proper exactly if no body is
begun while the flag of its stage is set. -/
theorem proper_iff_unrepeated (Thread : Type) [DecidableEq Thread]
    (execution : Execution (Pool.system Thread bootStageHandler {})) :
    (∀ time, Proper (execution.state time).data.log) ↔ execution.Meets (Pool.AtSites Unrepeated) :=
  Pool.forall_data_iff settled_empty disciplined_bootStageHandler marked_bootStageHandler proper_nil
    proper_effects_iff execution

/-- One thread handles the three requests and then the last two again. -/
def repeatedRequests : List (PoolStep Unit Request) :=
  let check : DataCheck := ⟨some ["/dev/block/dm-5 /data f2fs rw 0 0"], "unencrypted", ""⟩
  let device : Device := ⟨true, 33, true, 0, "", "", false⟩
  [.postFsData check device, .lateStart, .bootComplete, .lateStart, .bootComplete].flatMap
    fun request => .start () request :: replicate 6 (.act ())

theorem runs_repeatedRequests :
    ((Pool.system Unit bootStageHandler {}).run (Pool.system Unit bootStageHandler {}).initial
      repeatedRequests).isSome = true := by
  decide +kernel

/-- The second and the third stage run as often as they are asked for. -/
theorem not_proper_repeatedRequests :
    ∃ execution : Execution (Pool.system Unit bootStageHandler {}), ∃ time,
      (execution.state time).data.log.count (.begin .lateStart) = 2 ∧
        (execution.state time).data.log.count (.begin .bootComplete) = 2 ∧
        ¬ Proper (execution.state time).data.log := by
  refine ⟨Execution.ofLabels _ repeatedRequests (Option.some_get runs_repeatedRequests).symm, 35,
    by decide +kernel, by decide +kernel, fun proper => ?_⟩
  have twice := proper.once .lateStart
  revert twice
  decide +kernel

end Magisk.Core.BootStages
