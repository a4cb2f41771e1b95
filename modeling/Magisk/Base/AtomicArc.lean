import Magisk.Interleaving.Core

/-!
# An atomically replaceable reference

`AtomicArc` keeps a raw pointer that owns one reference.  Threads load, swap and
store it while they clone and drop references of their own.  The atomic steps
are the accesses to the pointer and to the reference counts; `load` reads the
pointer in one step and takes its reference in another.
-/

namespace Magisk.Base.AtomicArc

open Option Function Interleaving

variable {arc : Nat}

/-! ## The state -/

/-- The reference count of a value, and whether it ever dropped to zero. -/
structure Inner where
  count : Nat
  zeroed : Bool
  deriving DecidableEq, Repr

/-- Values by address; each address is used for one value only. -/
abbrev Heap :=
  Nat → Inner

/-- Where a thread stands in a call. -/
inductive Call where
  | idle
  /-- In `load`, with the pointer read and no reference taken. -/
  | loading (raw : Nat)
  /-- In `load`, about to return. -/
  | loaded (arc : Nat)
  /-- In `swap`, about to return. -/
  | swapped (prev : Nat)
  /-- In `store`, about to drop the previous value. -/
  | storing (prev : Nat)
  deriving DecidableEq, Repr

/-- A thread with the references it owns outside of calls. -/
structure Local where
  call : Call
  owned : Nat → Nat

/-- The shared pointer, the reference counts and the threads. -/
structure State (Thread : Type) where
  ptr : Nat
  heap : Heap
  threads : Thread → Local

/-- Increment a reference count. -/
def increment (heap : Heap) (raw : Nat) : Heap :=
  Function.update heap raw ⟨(heap raw).count + 1, (heap raw).zeroed⟩

/-- Decrement a reference count. -/
def decrement (heap : Heap) (raw : Nat) : Heap :=
  Function.update heap raw ⟨(heap raw).count - 1, (heap raw).zeroed || (heap raw).count == 1⟩

/-- Receive a reference. -/
def Local.acquire (thread : Local) (arc : Nat) : Local :=
  { thread with owned := Function.update thread.owned arc (thread.owned arc + 1) }

/-- Give a reference away. -/
def Local.release (thread : Local) (arc : Nat) : Local :=
  { thread with owned := Function.update thread.owned arc (thread.owned arc - 1) }

/-! ## The steps -/

/-- The atomic steps of the threads. -/
inductive Action (Thread : Type) where
  /-- `Arc::new`. -/
  | create (thread : Thread) (arc : Nat)
  /-- `clone` of an owned reference. -/
  | clone (thread : Thread) (arc : Nat)
  /-- `drop` of an owned reference. -/
  | drop (thread : Thread) (arc : Nat)
  /-- `load`: read the pointer. -/
  | loadPtr (thread : Thread)
  /-- `load`: increment the count of what was read. -/
  | loadClone (thread : Thread)
  | loadReturn (thread : Thread)
  /-- `swap`: exchange the pointer. -/
  | swapPtr (thread : Thread) (arc : Nat)
  | swapReturn (thread : Thread)
  /-- `store`: exchange the pointer. -/
  | storePtr (thread : Thread) (arc : Nat)
  /-- `store`: decrement the count of the previous value. -/
  | storeDrop (thread : Thread)
  deriving DecidableEq, Repr

section System

variable {Thread : Type} [DecidableEq Thread]

/-- Replace what a thread has. -/
def State.set (state : State Thread) (thread : Thread) (entry : Local) : State Thread :=
  { state with threads := Function.update state.threads thread entry }

/-- One step. -/
def step (state : State Thread) : Action Thread → Option (State Thread)
  | .create thread arc =>
    if (state.threads thread).call = .idle ∧ state.heap arc = ⟨0, false⟩ then
      some (({ state with heap := increment state.heap arc }).set thread
        ((state.threads thread).acquire arc))
    else
      none
  | .clone thread arc =>
    if (state.threads thread).call = .idle ∧ 0 < (state.threads thread).owned arc then
      some (({ state with heap := increment state.heap arc }).set thread
        ((state.threads thread).acquire arc))
    else
      none
  | .drop thread arc =>
    if (state.threads thread).call = .idle ∧ 0 < (state.threads thread).owned arc then
      some (({ state with heap := decrement state.heap arc }).set thread
        ((state.threads thread).release arc))
    else
      none
  | .loadPtr thread =>
    match (state.threads thread).call with
    | .idle =>
      some (state.set thread { state.threads thread with call := .loading state.ptr })
    | _ => none
  | .loadClone thread =>
    match (state.threads thread).call with
    | .loading raw =>
      some (({ state with heap := increment state.heap raw }).set thread
        { state.threads thread with call := .loaded raw })
    | _ => none
  | .loadReturn thread =>
    match (state.threads thread).call with
    | .loaded arc =>
      some (state.set thread { (state.threads thread).acquire arc with call := .idle })
    | _ => none
  | .swapPtr thread arc =>
    if (state.threads thread).call = .idle ∧ 0 < (state.threads thread).owned arc then
      some (({ state with ptr := arc }).set thread
        { (state.threads thread).release arc with call := .swapped state.ptr })
    else
      none
  | .swapReturn thread =>
    match (state.threads thread).call with
    | .swapped prev =>
      some (state.set thread { (state.threads thread).acquire prev with call := .idle })
    | _ => none
  | .storePtr thread arc =>
    if (state.threads thread).call = .idle ∧ 0 < (state.threads thread).owned arc then
      some (({ state with ptr := arc }).set thread
        { (state.threads thread).release arc with call := .storing state.ptr })
    else
      none
  | .storeDrop thread =>
    match (state.threads thread).call with
    | .storing prev =>
      some (({ state with heap := decrement state.heap prev }).set thread
        { state.threads thread with call := .idle })
    | _ => none

/-- `AtomicArc::new`: the pointer owns the only reference. -/
def initial (arc : Nat) : State Thread where
  ptr := arc
  heap := increment (fun _ => ⟨0, false⟩) arc
  threads := fun _ => ⟨.idle, fun _ => 0⟩

/-- Any number of threads on one shared `AtomicArc`. -/
def system (Thread : Type) [DecidableEq Thread] (arc : Nat) :
    System (State Thread) (Action Thread) :=
  ⟨initial arc, step⟩

end System

/-! ## What a step touches -/

section Touch

variable {Thread : Type}

/-- The value whose count a step increments or that it returns. -/
def touched (state : State Thread) : Action Thread → Option Nat
  | .clone _ arc => some arc
  | .loadClone thread =>
    match (state.threads thread).call with
    | .loading raw => some raw
    | _ => none
  | .loadReturn thread =>
    match (state.threads thread).call with
    | .loaded arc => some arc
    | _ => none
  | .swapReturn thread =>
    match (state.threads thread).call with
    | .swapped prev => some prev
    | _ => none
  | _ => none

/-- The value whose count a step decrements. -/
def dropped (state : State Thread) : Action Thread → Option Nat
  | .drop _ arc => some arc
  | .storeDrop thread =>
    match (state.threads thread).call with
    | .storing prev => some prev
    | _ => none
  | _ => none

/-- The last reference to a value is not dropped while a thread is between
reading the pointer to it and taking its reference. -/
def KeepsLoading (state : State Thread) (action : Action Thread) : Prop :=
  ∀ raw, dropped state action = some raw → (state.heap raw).count = 1 →
    ∀ thread, (state.threads thread).call ≠ .loading raw

instance [Fintype Thread] (state : State Thread) (action : Action Thread) :
    Decidable (KeepsLoading state action) :=
  decidable_of_iff (∀ raw ∈ dropped state action, (state.heap raw).count = 1 →
    ∀ thread, (state.threads thread).call ≠ .loading raw) Iff.rfl

end Touch

/-! ## Who holds a reference -/

/-- The references to a value that a thread's call holds. -/
def Call.holds (raw : Nat) : Call → Nat
  | .idle => 0
  | .loading _ => 0
  | .loaded arc => if arc = raw then 1 else 0
  | .swapped prev => if prev = raw then 1 else 0
  | .storing prev => if prev = raw then 1 else 0

/-- The references to a value that a thread holds. -/
def Local.holds (thread : Local) (raw : Nat) : Nat :=
  thread.owned raw + thread.call.holds raw

theorem owned_acquire (thread : Local) (arc raw : Nat) :
    (thread.acquire arc).owned raw = thread.owned raw + if arc = raw then 1 else 0 := by
  by_cases same : arc = raw
  · subst same
    simp [Local.acquire]
  · rw [if_neg same]
    exact update_of_ne (Ne.symm same) _ _

theorem holds_acquire (thread : Local) (arc raw : Nat) :
    (thread.acquire arc).holds raw = thread.holds raw + if arc = raw then 1 else 0 := by
  rw [Local.holds, owned_acquire]
  exact Nat.add_right_comm _ _ _

theorem owned_release (thread : Local) (arc raw : Nat) :
    (thread.release arc).owned raw = thread.owned raw - if arc = raw then 1 else 0 := by
  by_cases same : arc = raw
  · subst same
    simp [Local.release]
  · rw [if_neg same]
    exact update_of_ne (Ne.symm same) _ _

/-- A reference that is given away was held. -/
theorem owned_eq_release (thread : Local) (held : 0 < thread.owned arc) (raw : Nat) :
    thread.owned raw = (thread.release arc).owned raw + if arc = raw then 1 else 0 := by
  rw [owned_release]
  by_cases same : arc = raw
  · subst same
    rw [if_pos rfl, Nat.sub_add_cancel held]
  · rw [if_neg same, Nat.sub_zero, Nat.add_zero]

section

variable (heap : Heap) (arc raw : Nat)

theorem count_increment :
    (increment heap arc raw).count = (heap raw).count + if arc = raw then 1 else 0 := by
  by_cases same : arc = raw
  · subst same
    simp [increment]
  · rw [if_neg same, Nat.add_zero, increment, update_of_ne (Ne.symm same)]

theorem zeroed_increment :
    (increment heap arc raw).zeroed = (heap raw).zeroed := by
  by_cases same : arc = raw
  · subst same
    simp [increment]
  · rw [increment, update_of_ne (Ne.symm same)]

theorem count_decrement :
    (decrement heap arc raw).count = (heap raw).count - if arc = raw then 1 else 0 := by
  by_cases same : arc = raw
  · subst same
    simp [decrement]
  · rw [if_neg same, Nat.sub_zero, decrement, update_of_ne (Ne.symm same)]

theorem zeroed_decrement :
    (decrement heap arc raw).zeroed = true ↔
      (heap raw).zeroed = true ∨ (arc = raw ∧ (heap raw).count = 1) := by
  by_cases same : arc = raw
  · subst same
    simp [decrement]
  · rw [decrement, update_of_ne (Ne.symm same)]
    simp [same]

end

section Accounting

variable {Thread : Type} [Fintype Thread] {raw ptr : Nat} {entry : Local}

/-- All references to a value. -/
def State.holders (state : State Thread) (raw : Nat) : Nat :=
  (if state.ptr = raw then 1 else 0) + ∑ thread, (state.threads thread).holds raw

theorem holds_le_sum (threads : Thread → Local) (thread : Thread) (raw : Nat) :
    (threads thread).holds raw ≤ ∑ other, (threads other).holds raw :=
  Finset.single_le_sum (f := fun other => (threads other).holds raw)
    (fun _ _ => Nat.zero_le _) (Finset.mem_univ thread)

/-- Every reference is counted, and no count that reached zero came back. -/
structure Accounted (state : State Thread) : Prop where
  counted : ∀ raw, (state.heap raw).count = state.holders raw
  zeroed : ∀ raw, (state.heap raw).zeroed = true → (state.heap raw).count = 0
  loading : ∀ thread raw, (state.threads thread).call = .loading raw →
    0 < (state.heap raw).count

variable {state : State Thread}

/-- A value that is still counted is alive. -/
theorem Accounted.alive (accounted : Accounted state) (positive : 0 < (state.heap raw).count) :
    (state.heap raw).zeroed = false := by
  by_contra dead
  have zero := accounted.zeroed raw (by simpa using dead)
  omega

variable {thread : Thread}

theorem Accounted.count_pos_of_holds (accounted : Accounted state)
    (holds : 0 < (state.threads thread).holds raw) : 0 < (state.heap raw).count := by
  have atMost := holds_le_sum state.threads thread raw
  rw [accounted.counted raw, State.holders]
  omega

theorem Accounted.count_ptr_pos (accounted : Accounted state) :
    0 < (state.heap state.ptr).count := by
  rw [accounted.counted, State.holders, if_pos rfl]
  omega

theorem accounted_initial (arc : Nat) : Accounted (initial arc : State Thread) := by
  refine ⟨?_, ?_, ?_⟩
  · intro raw
    have nobody : ∑ thread, ((initial arc : State Thread).threads thread).holds raw = 0 :=
      Finset.sum_eq_zero fun _ _ => rfl
    rw [State.holders, nobody]
    exact (count_increment _ arc raw).trans (Nat.zero_add _)
  · intro raw dead
    rw [initial, zeroed_increment] at dead
    cases dead
  · rintro thread raw ⟨⟩

variable [DecidableEq Thread]

theorem sum_holds_update (threads : Thread → Local) (thread : Thread) (entry : Local) (raw : Nat) :
    ∑ other, (update threads thread entry other).holds raw + (threads thread).holds raw =
      ∑ other, (threads other).holds raw + entry.holds raw := by
  have pushed : ∀ other, (update threads thread entry other).holds raw =
      update (fun other => (threads other).holds raw) thread (entry.holds raw) other :=
    fun other => apply_update (fun _ (entry : Local) => entry.holds raw) _ _ _ _
  rw [Finset.sum_congr rfl fun other _ => pushed other,
    Finset.sum_update_of_mem (Finset.mem_univ thread),
    Finset.sum_eq_add_sum_sdiff_singleton_of_mem (Finset.mem_univ thread)
      fun other => (threads other).holds raw]
  omega

section

variable (accounted : Accounted state)

include accounted

/-- A step of one thread keeps the accounts if what it does to the count, to the
pointer and to its own references adds up. -/
theorem Accounted.move {heap : Heap}
    (balance : ∀ raw, (heap raw).count + (if state.ptr = raw then 1 else 0) +
        (state.threads thread).holds raw =
      (state.heap raw).count + (if ptr = raw then 1 else 0) + entry.holds raw)
    (zeroed : ∀ raw, (heap raw).zeroed = true → (heap raw).count = 0)
    (others : ∀ other raw, other ≠ thread → (state.threads other).call = .loading raw →
      0 < (heap raw).count) (own : ∀ raw, entry.call = .loading raw → 0 < (heap raw).count) :
    Accounted ⟨ptr, heap, update state.threads thread entry⟩ := by
  refine ⟨?_, zeroed, ?_⟩
  · intro raw
    have before := accounted.counted raw
    have moved := sum_holds_update state.threads thread entry raw
    have balanced := balance raw
    simp only [State.holders] at before ⊢
    omega
  · intro other raw isLoading
    change (update state.threads thread entry other).call = .loading raw at isLoading
    by_cases same : other = thread
    · subst same
      rw [update_self] at isLoading
      exact own raw isLoading
    · rw [update_of_ne same] at isLoading
      exact others other raw same isLoading

/-- Taking a reference to a value that is alive, or that is new. -/
theorem Accounted.move_increment (fresh : (state.heap arc).zeroed = false)
    (gains : ∀ raw, entry.holds raw = (state.threads thread).holds raw + if arc = raw then 1 else 0)
    (notLoading : ∀ raw, entry.call ≠ .loading raw) :
    Accounted (({ state with heap := increment state.heap arc }).set thread entry) := by
  change Accounted ⟨state.ptr, increment state.heap arc, update state.threads thread entry⟩
  apply accounted.move
  · intro raw
    rw [count_increment, gains]
    omega
  · intro raw dead
    rw [zeroed_increment] at dead
    have different : arc ≠ raw := by
      rintro rfl
      rw [fresh] at dead
      cases dead
    rw [count_increment, if_neg different]
    exact accounted.zeroed raw dead
  · intro other raw _ isLoading
    rw [count_increment]
    exact Nat.add_pos_left (accounted.loading other raw isLoading) _
  · intro raw isLoading
    exact absurd isLoading (notLoading raw)

/-- Dropping a reference, unless it is the last one to a value being loaded. -/
theorem Accounted.move_decrement
    (loses : ∀ raw, (state.threads thread).holds raw = entry.holds raw + if arc = raw then 1 else 0)
    (notLoading : ∀ raw, entry.call ≠ .loading raw)
    (keeps : (state.heap arc).count = 1 → ∀ other, (state.threads other).call ≠ .loading arc) :
    Accounted (({ state with heap := decrement state.heap arc }).set thread entry) := by
  have held : 0 < (state.heap arc).count := by
    apply accounted.count_pos_of_holds
    rw [loses, if_pos rfl]
    exact Nat.succ_pos _
  apply accounted.move
  · intro raw
    rw [count_decrement, loses]
    by_cases same : arc = raw
    · subst same
      simp only [if_true]
      omega
    · simp only [if_neg same]
      omega
  · intro raw dead
    rw [count_decrement]
    rcases (zeroed_decrement _ _ _).mp dead with before | ⟨rfl, one⟩
    · rw [accounted.zeroed raw before, Nat.zero_sub]
    · rw [one, if_pos rfl]
  · intro other raw _ isLoading
    have positive := accounted.loading other raw isLoading
    rw [count_decrement]
    by_cases same : arc = raw
    · subst same
      have notOne : (state.heap arc).count ≠ 1 := fun one => keeps one other isLoading
      rw [if_pos rfl]
      omega
    · rw [if_neg same]
      exact positive
  · intro raw isLoading
    exact absurd isLoading (notLoading raw)

/-- Moving references between the pointer and a thread. -/
theorem Accounted.move_ptr
    (balance : ∀ raw, (if state.ptr = raw then 1 else 0) + (state.threads thread).holds raw =
      (if ptr = raw then 1 else 0) + entry.holds raw)
    (own : ∀ raw, entry.call = .loading raw → 0 < (state.heap raw).count) :
    Accounted (({ state with ptr }).set thread entry) := by
  change Accounted ⟨ptr, state.heap, update state.threads thread entry⟩
  apply accounted.move
  · intro raw
    have balanced := balance raw
    omega
  · exact accounted.zeroed
  · intro other raw _ isLoading
    exact accounted.loading other raw isLoading
  · exact own

/-- A thread puts a reference it owns into the pointer, and its call keeps the one
that was there. -/
theorem Accounted.publish (idle : (state.threads thread).call = .idle)
    (held : 0 < (state.threads thread).owned arc) {call : Call}
    (keeps : ∀ raw, call.holds raw = if state.ptr = raw then 1 else 0)
    (notLoading : ∀ raw, call ≠ .loading raw) : Accounted (({ state with ptr := arc }).set thread
      { (state.threads thread).release arc with call }) := by
  apply accounted.move_ptr
  · intro raw
    rw [Local.holds, Local.holds, owned_eq_release _ held raw, idle]
    dsimp only
    rw [keeps, Call.holds]
    omega
  · intro raw isLoading
    exact absurd isLoading (notLoading raw)

/-- A call returns the reference it keeps. -/
theorem Accounted.returnHeld
    (keeps : ∀ raw, (state.threads thread).call.holds raw = if arc = raw then 1 else 0) :
    Accounted (state.set thread { (state.threads thread).acquire arc with call := .idle }) := by
  apply accounted.move_ptr
  · intro raw
    rw [Local.holds, Local.holds, keeps, owned_acquire]
    simp only [Call.holds]
    omega
  · rintro raw ⟨⟩

end

variable {next : State Thread} {action : Action Thread}

/-- One step keeps the accounts. -/
theorem Accounted.step (accounted : Accounted state) (keeps : KeepsLoading state action)
    (taken : AtomicArc.step state action = some next) : Accounted next := by
  cases action with
  | create thread arc =>
    simp only [AtomicArc.step, ite_none_right_eq_some, some.injEq] at taken
    obtain ⟨⟨idle, new⟩, rfl⟩ := taken
    apply accounted.move_increment
    · rw [new]
    · exact holds_acquire _ arc
    · intro raw
      simp [Local.acquire, idle]
  | clone thread arc =>
    simp only [AtomicArc.step, ite_none_right_eq_some, some.injEq] at taken
    obtain ⟨⟨idle, held⟩, rfl⟩ := taken
    apply accounted.move_increment
    · exact accounted.alive (accounted.count_pos_of_holds (Nat.add_pos_left held _))
    · exact holds_acquire _ arc
    · intro raw
      simp [Local.acquire, idle]
  | drop thread arc =>
    simp only [AtomicArc.step, ite_none_right_eq_some, some.injEq] at taken
    obtain ⟨⟨idle, held⟩, rfl⟩ := taken
    apply accounted.move_decrement
    · intro raw
      rw [Local.holds, owned_eq_release _ held raw]
      exact Nat.add_right_comm _ _ _
    · intro raw
      simp [Local.release, idle]
    · exact keeps arc rfl
  | loadPtr thread =>
    simp only [AtomicArc.step] at taken
    split at taken
    · rename_i idle
      cases taken
      apply accounted.move_ptr
      · intro raw
        rw [Local.holds, idle]
        rfl
      · rintro raw ⟨⟩
        exact accounted.count_ptr_pos
    · cases taken
  | loadClone thread =>
    simp only [AtomicArc.step] at taken
    split at taken
    · rename_i raw isLoading
      cases taken
      apply accounted.move_increment
      · exact accounted.alive (accounted.loading thread raw isLoading)
      · intro other
        rw [Local.holds, Local.holds, isLoading]
        rfl
      · intro other
        simp
    · cases taken
  | loadReturn thread =>
    simp only [AtomicArc.step] at taken
    split at taken
    · rename_i arc isLoaded
      cases taken
      apply accounted.returnHeld
      intro raw
      rw [isLoaded, Call.holds]
    · cases taken
  | swapPtr thread arc =>
    simp only [AtomicArc.step, ite_none_right_eq_some, some.injEq] at taken
    obtain ⟨⟨idle, held⟩, rfl⟩ := taken
    exact accounted.publish idle held (fun _ => rfl) nofun
  | swapReturn thread =>
    simp only [AtomicArc.step] at taken
    split at taken
    · rename_i prev isSwapped
      cases taken
      apply accounted.returnHeld
      intro raw
      rw [isSwapped, Call.holds]
    · cases taken
  | storePtr thread arc =>
    simp only [AtomicArc.step, ite_none_right_eq_some, some.injEq] at taken
    obtain ⟨⟨idle, held⟩, rfl⟩ := taken
    exact accounted.publish idle held (fun _ => rfl) nofun
  | storeDrop thread =>
    simp only [AtomicArc.step] at taken
    split at taken
    · rename_i prev isStoring
      cases taken
      apply accounted.move_decrement
      · intro raw
        rw [Local.holds, Local.holds, isStoring]
        simp only [Call.holds]
        omega
      · intro raw
        simp
      · apply keeps prev
        simp only [dropped, isStoring]
    · cases taken

/-- What a step touches is counted before the step. -/
theorem Accounted.count_touched_pos (accounted : Accounted state)
    (taken : AtomicArc.step state action = some next) (touches : touched state action = some raw) :
    0 < (state.heap raw).count := by
  cases action with
  | clone thread arc =>
    cases touches
    simp only [AtomicArc.step, ite_none_right_eq_some] at taken
    exact accounted.count_pos_of_holds (Nat.add_pos_left taken.1.2 _)
  | loadClone thread =>
    simp only [touched] at touches
    split at touches
    · rename_i arc isLoading
      cases touches
      exact accounted.loading thread raw isLoading
    · cases touches
  | loadReturn thread =>
    simp only [touched] at touches
    split at touches
    · rename_i arc isLoaded
      cases touches
      apply accounted.count_pos_of_holds
      rw [Local.holds, isLoaded, Call.holds, if_pos rfl]
      exact Nat.succ_pos _
    · cases touches
  | swapReturn thread =>
    simp only [touched] at touches
    split at touches
    · rename_i prev isSwapped
      cases touches
      apply accounted.count_pos_of_holds
      rw [Local.holds, isSwapped, Call.holds, if_pos rfl]
      exact Nat.succ_pos _
    · cases touches
  | _ => cases touches

/-- As long as no last reference is dropped under a thread that is loading it, no
thread increments the count of, or returns, a value whose count has reached
zero. -/
theorem zeroed_touched_eq_false {arc : Nat} (execution : Execution (system Thread arc))
    (keeps : execution.Meets KeepsLoading) {time : Nat} {action : Action Thread}
    (taken : execution.label time = some action) {raw : Nat}
    (touches : touched (execution.state time) action = some raw) :
    ((execution.state time).heap raw).zeroed = false := by
  have accounted : Accounted (execution.state time) :=
    Execution.invariant keeps (accounted_initial arc)
      (fun before allowed stepEq => before.step allowed stepEq) time
  exact accounted.alive (accounted.count_touched_pos (execution.step_eq taken) touches)

end Accounting

/-- A store during a load, after the load has taken its reference. -/
def orderlyLoad : List (Action (Fin 2)) :=
  [.loadPtr 0, .loadClone 0, .create 1 1, .storePtr 1 1, .storeDrop 1, .loadReturn 0]

/-- The load returns a value that is alive, although it was replaced. -/
theorem zeroed_touched_orderlyLoad :
    touched ((system (Fin 2) 0).trace (initial 0) orderlyLoad 5) (.loadReturn 0) = some 0 ∧
      (((system (Fin 2) 0).trace (initial 0) orderlyLoad 5).heap 0).zeroed = false := by
  have runs : ((system (Fin 2) 0).run (initial 0) orderlyLoad).isSome := by decide
  obtain ⟨last, runEq⟩ := Option.isSome_iff_exists.mp runs
  have keeps : (Execution.ofLabels _ orderlyLoad runEq).Meets KeepsLoading :=
    Execution.meets_ofLabels runEq (by decide)
  exact ⟨rfl, zeroed_touched_eq_false (Execution.ofLabels _ orderlyLoad runEq) keeps
    (rfl : orderlyLoad[5]? = some (.loadReturn 0)) rfl⟩

section Race

variable {Thread : Type} [DecidableEq Thread]

/-- Dropping the last reference under a thread that is loading it lets that thread
increment a count that has reached zero. -/
theorem exists_touched_zeroed {state next : State Thread} {action : Action Thread}
    (taken : step state action = some next) (drops : ¬ KeepsLoading state action) :
    ∃ thread raw, touched next (.loadClone thread) = some raw ∧
      (next.heap raw).zeroed = true ∧ (step next (.loadClone thread)).isSome := by
  simp only [KeepsLoading, not_forall, not_not] at drops
  obtain ⟨raw, isDropped, last, thread, isLoading⟩ := drops
  have decremented : next.heap = decrement state.heap raw ∧
      next.threads thread = state.threads thread := by
    cases action with
    | drop dropper arc =>
      cases isDropped
      simp only [step, ite_none_right_eq_some, some.injEq] at taken
      obtain ⟨⟨idle, _⟩, rfl⟩ := taken
      refine ⟨rfl, update_of_ne ?_ _ _⟩
      rintro rfl
      rw [isLoading] at idle
      cases idle
    | storeDrop dropper =>
      simp only [dropped] at isDropped
      split at isDropped
      · rename_i prev isStoring
        cases isDropped
        simp only [step, isStoring, some.injEq] at taken
        subst taken
        refine ⟨rfl, update_of_ne ?_ _ _⟩
        rintro rfl
        rw [isLoading] at isStoring
        cases isStoring
      · cases isDropped
    | _ => cases isDropped
  have stillLoading : (next.threads thread).call = .loading raw := by
    rw [decremented.2, isLoading]
  refine ⟨thread, raw, ?_, ?_, ?_⟩
  · simp only [touched, stillLoading]
  · rw [decremented.1]
    exact (zeroed_decrement _ _ _).mpr (Or.inr ⟨rfl, last⟩)
  · simp only [step, stillLoading, isSome_some]

end Race

/-- A thread reads the pointer, another one replaces it and drops the value, and
the first one goes on. -/
def loadRace : List (Action (Fin 2)) :=
  [.loadPtr 0, .create 1 1, .storePtr 1 1, .storeDrop 1, .loadClone 0]

/-- The race in this run. -/
theorem exists_touched_zeroed_dropped : ∃ thread raw,
    let next := (system (Fin 2) 0).trace (initial 0) loadRace 4
    touched next (.loadClone thread) = some raw ∧ (next.heap raw).zeroed = true ∧
      (step next (.loadClone thread)).isSome :=
  @exists_touched_zeroed _ _ ((system (Fin 2) 0).trace (initial 0) loadRace 3) _ (.storeDrop 1)
    rfl (by decide)

/-- Without the condition, `load` revives a value that is gone. -/
theorem exists_touched_zeroed_loadRace :
    ¬ ∀ (execution : Execution (system (Fin 2) 0)) (time : Nat) (action : Action (Fin 2))
        (raw : Nat), execution.label time = some action →
      touched (execution.state time) action = some raw →
      ((execution.state time).heap raw).zeroed = false := by
  intro safe
  have runs : ((system (Fin 2) 0).run (initial 0) loadRace).isSome := by decide
  obtain ⟨last, runEq⟩ := Option.isSome_iff_exists.mp runs
  have revived := safe (Execution.ofLabels _ loadRace runEq) 4 (.loadClone 0) 0 rfl rfl
  have gone : (((system (Fin 2) 0).trace (initial 0) loadRace 4).heap 0).zeroed = true := by
    decide
  exact absurd (revived.symm.trans gone) (by decide)

end Magisk.Base.AtomicArc
