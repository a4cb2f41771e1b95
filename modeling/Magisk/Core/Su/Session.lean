import Magisk.Core.Su.Daemon
import Magisk.Interleaving.Core

/-!
# Concurrent `su` requests

Every request is handled by a thread of its own.  The threads share one cached
`SuInfo`, which is replaced as a whole and whose settings change under its own lock,
and the FIFOs through which the manager answers, which are named by the process of
the requester.  All interleavings of the steps of the threads and of the manager are
covered; a history records what was computed, answered and decided.
-/

namespace Magisk.Core.Session

open Interleaving

/-! ## States -/

/-- Where a thread is in `su_daemon_handler`; infos and FIFOs are given by number. -/
inductive Phase where
  /-- Before `cached_su_info.load`. -/
  | loading
  /-- Before the check of the loaded info. -/
  | checking (cached : Nat)
  /-- Before `build_su_info`. -/
  | building
  /-- Before `cached_su_info.store`. -/
  | storing (info : Nat)
  /-- Before the settings are locked. -/
  | locking (info : Nat)
  /-- In `connect_app`, before `mkfifo`. -/
  | asking (info : Nat)
  /-- Before the manager is told. -/
  | notifying (info : Nat)
  /-- Before the FIFO is opened. -/
  | opening (info : Nat)
  /-- In `poll`. -/
  | polling (info fifo : Nat)
  /-- After a failure, before the FIFO is removed. -/
  | failing (info : Nat)
  /-- Before the answer is read. -/
  | reading (info fifo : Nat)
  /-- After `app_request`. -/
  | settled (info : Nat)
  | done
  deriving DecidableEq, Repr

/-- The info a thread decides with. -/
def Phase.info : Phase → Option Nat
  | .loading | .checking _ | .building | .done => none
  | .storing info | .locking info | .asking info | .notifying info | .opening info
  | .failing info | .settled info => some info
  | .polling info _ | .reading info _ => some info

/-- The FIFO a thread has opened. -/
def Phase.fifo : Phase → Option Nat
  | .polling _ fifo | .reading _ fifo => some fifo
  | _ => none

/-- A request that is handled. -/
structure Thread where
  uid : Int32
  pid : Option Int32
  phase : Phase
  deriving DecidableEq, Repr

/-- A `SuInfo` in memory, with the thread that holds the lock of its settings. -/
structure Shared where
  info : SuInfo
  holder : Option Nat
  deriving DecidableEq, Repr

/-- A FIFO with the process in its name and the answers in it. -/
structure FifoNode where
  pid : Option Int32
  answers : List SuPolicy
  deriving DecidableEq, Repr

/-- What happened. -/
inductive Event where
  /-- `build_su_info` was called with this uid. -/
  | built (uid : Int32) (info : SuInfo)
  /-- The manager answered a request of this uid. -/
  | answered (uid : Int32) (policy : SuPolicy)
  /-- The manager could not be asked about a request of this uid. -/
  | failed (uid : Int32)
  /-- A request of this uid was decided, logged and notified with these settings. -/
  | decided (uid : Int32) (settings : RootSettings)
  deriving DecidableEq, Repr

structure State where
  threads : List Thread
  heap : List Shared
  cache : Nat
  fifos : List FifoNode
  /-- The FIFO that a name stands for. -/
  paths : Option Int32 → Option Nat
  /-- Requests the manager was told about. -/
  pending : List (Option Int32 × Int32)
  /-- FIFOs the manager has opened, with the uid it was asked about. -/
  handles : List (Nat × Int32)
  history : List Event

namespace State

variable (state : State)

/-- A thread moves on. -/
def goto (thread : Nat) (phase : Phase) : State :=
  { state with threads := state.threads.modify thread fun thread => { thread with phase } }

/-- A new info. -/
def push (info : SuInfo) : State :=
  { state with heap := state.heap ++ [⟨info, none⟩] }

/-- Change an info. -/
def update (info : Nat) (change : Shared → Shared) : State :=
  { state with heap := state.heap.modify info change }

/-- Something happened. -/
def record (event : Event) : State :=
  { state with history := event :: state.history }

/-- `mkfifo` of a name that is free. -/
def mkfifo (pid : Option Int32) : State :=
  { state with
    fifos := state.fifos ++ [⟨pid, []⟩]
    paths := Function.update state.paths pid (some state.fifos.length) }

/-- `remove` of the FIFO of a name. -/
def remove (pid : Option Int32) : State :=
  { state with paths := Function.update state.paths pid none }

/-- Change the answers in a FIFO. -/
def updateFifo (fifo : Nat) (change : List SuPolicy → List SuPolicy) : State :=
  { state with
    fifos := state.fifos.modify fifo fun node => { node with answers := change node.answers } }

end State

/-- Give settings a policy. -/
def Shared.setPolicy (policy : SuPolicy) (shared : Shared) : Shared :=
  { shared with
    info.access.settings.policy := policy }

/-- Lock the settings. -/
def Shared.lock (number : Nat) (shared : Shared) : Shared :=
  { shared with holder := some number }

/-- `refresh`, and unlock. -/
def Shared.refresh (now : Nat) (shared : Shared) : Shared :=
  { shared with
    info.access.timestamp := now
    holder := none }

/-! ## Steps -/

/-- What a thread does; a call may fail. -/
inductive Action where
  | load (now : Nat)
  | check (now : Nat)
  | build (env : Env)
  | store
  | lock
  | mkfifo (succeeds : Bool)
  | notify (succeeds : Bool)
  | openFifo (succeeds : Bool)
  | poll (succeeds : Bool)
  | fail
  | read (succeeds : Bool)
  | settle (now : Nat)

/-- `self.settings.policy = SuPolicy::Deny` after a failure. -/
def State.denyFailed (state : State) (uid : Int32) (info : Nat) : State :=
  (state.record (.failed uid)).update info (Shared.setPolicy .deny)

/-- A step of a thread, unless it has to wait. -/
def State.act (state : State) (number : Nat) (thread : Thread) : Action → Option State
  | .load now =>
    match thread.phase with
    | .loading =>
      if thread.uid = aidRoot then
        some ((state.push (.allow aidRoot now)).goto number (.locking state.heap.length))
      else
        some (state.goto number (.checking state.cache))
    | _ => none
  | .check now =>
    match thread.phase with
    | .checking cached =>
      match state.heap[cached]? with
      | none => none
      | some shared =>
        if shared.info.uid = thread.uid then
          if shared.holder.isSome then none
          else if shared.info.access.isFresh now then
            some (state.goto number (.locking cached))
          else some (state.goto number .building)
        else some (state.goto number .building)
    | _ => none
  | .build env =>
    match thread.phase with
    | .building =>
      let info := buildSuInfo env thread.uid
      some (((state.record (.built thread.uid info)).push info).goto number
        (.storing state.heap.length))
    | _ => none
  | .store =>
    match thread.phase with
    | .storing info => some ({ state with cache := info }.goto number (.locking info))
    | _ => none
  | .lock =>
    match thread.phase with
    | .locking info =>
      match state.heap[info]? with
      | none => none
      | some shared =>
        if shared.holder.isSome then none
        else
          some ((state.update info (Shared.lock number)).goto number (.asking info))
    | _ => none
  | .mkfifo succeeds =>
    match thread.phase with
    | .asking info =>
      match state.heap[info]? with
      | none => none
      | some shared =>
        if shared.info.access.settings.policy = .query then
          if succeeds ∧ state.paths thread.pid = none then
            some ((state.mkfifo thread.pid).goto number (.notifying info))
          else some (state.goto number (.failing info))
        else some (state.goto number (.settled info))
    | _ => none
  | .notify succeeds =>
    match thread.phase with
    | .notifying info =>
      if succeeds then
        some ({ state with pending := (thread.pid, thread.uid) :: state.pending }.goto number
          (.opening info))
      else some (state.goto number (.failing info))
    | _ => none
  | .openFifo succeeds =>
    match thread.phase with
    | .opening info =>
      match state.paths thread.pid with
      | some fifo =>
        if succeeds then some (state.goto number (.polling info fifo))
        else some (state.goto number (.failing info))
      | none => some (state.goto number (.failing info))
    | _ => none
  | .poll succeeds =>
    match thread.phase with
    | .polling info fifo =>
      if succeeds then some ((state.remove thread.pid).goto number (.reading info fifo))
      else some (state.goto number (.failing info))
    | _ => none
  | .fail =>
    match thread.phase with
    | .failing info =>
      some (((state.remove thread.pid).denyFailed thread.uid info).goto number (.settled info))
    | _ => none
  | .read succeeds =>
    match thread.phase with
    | .reading info fifo =>
      if succeeds then
        match state.fifos[fifo]? with
        | some ⟨_, policy :: _⟩ =>
          some (((state.updateFifo fifo List.tail).update info
            (Shared.setPolicy policy)).goto number (.settled info))
        | _ => none
      else some ((state.denyFailed thread.uid info).goto number (.settled info))
    | _ => none
  | .settle now =>
    match thread.phase with
    | .settled info =>
      match state.heap[info]? with
      | none => none
      | some shared =>
        some (((state.record (.decided thread.uid shared.info.access.settings)).update info
          (Shared.refresh now)).goto number .done)
    | _ => none

/-- A request arrives, a thread acts, or the manager opens a FIFO by its name or writes
an answer. -/
inductive Label where
  | start (uid : Int32) (pid : Option Int32)
  | act (number : Nat) (action : Action)
  | managerOpen (request : Option Int32 × Int32)
  | managerAnswer (handle : Nat × Int32) (policy : SuPolicy)

def step (state : State) : Label → Option State
  | .start uid pid => some { state with threads := state.threads ++ [⟨uid, pid, .loading⟩] }
  | .act number action => state.threads[number]?.bind fun thread => state.act number thread action
  | .managerOpen request =>
    if request ∈ state.pending then
      (state.paths request.1).map fun fifo =>
        { state with handles := (fifo, request.2) :: state.handles }
    else none
  | .managerAnswer handle policy =>
    if handle ∈ state.handles then
      some ((state.record (.answered handle.2 policy)).updateFifo handle.1 (· ++ [policy]))
    else none

/-- The daemon, started at some time. -/
def initial (now : Nat) : State where
  threads := []
  heap := [⟨{ uid := -1, access := ⟨{}, now⟩ }, none⟩]
  cache := 0
  fifos := []
  paths _ := none
  pending := []
  handles := []
  history := []

/-- The requests of a daemon. -/
def system (now : Nat) : System State Label where
  initial := initial now
  step := step

end Magisk.Core.Session
