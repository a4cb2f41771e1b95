import Magisk.Core.Su.Session

/-!
# Decisions stay with their uid

As long as no two requests of different uids come from processes with the same number,
every decision is made with settings that `build_su_info` computed for the uid of the
request, or the fixed ones of root, and a policy that was computed with them, answered
by the manager for this uid, or denied because the manager could not be asked.
-/

namespace Magisk.Core.Session

open Function List Interleaving

/-! ## Where settings come from -/

/-- Settings computed for a uid: by `build_su_info`, or those of `SuInfo::allow` for
root. -/
def Computed (history : List Event) (uid : Int32) (settings : RootSettings) : Prop :=
  (uid = aidRoot ∧ settings = { policy := .allow }) ∨
    ∃ info, Event.built uid info ∈ history ∧ settings = info.access.settings

/-- The policy was computed, answered for the uid, or denied after a failure. -/
def PolicyFrom (history : List Event) (uid : Int32) (computed policy : SuPolicy) : Prop :=
  policy = computed ∨ Event.answered uid policy ∈ history ∨
    (Event.failed uid ∈ history ∧ policy = .deny)

/-- Settings that belong to a uid. -/
def Sourced (history : List Event) (uid : Int32) (settings : RootSettings) : Prop :=
  ∃ computed, Computed history uid computed ∧ settings.log = computed.log ∧
    settings.notify = computed.notify ∧
    PolicyFrom history uid computed.policy settings.policy

variable {history later : List Event} {uid : Int32} {settings : RootSettings} {policy : SuPolicy}

theorem Computed.mono (subset : history ⊆ later) (computed : Computed history uid settings) :
    Computed later uid settings := by
  rcases computed with root | ⟨info, built, same⟩
  · exact Or.inl root
  · exact Or.inr ⟨info, subset built, same⟩

theorem Sourced.mono (subset : history ⊆ later) (sourced : Sourced history uid settings) :
    Sourced later uid settings := by
  rcases sourced with ⟨computed, isComputed, log, notify, policy⟩
  refine ⟨computed, isComputed.mono subset, log, notify, ?_⟩
  rcases policy with same | answered | ⟨failed, denied⟩
  · exact Or.inl same
  · exact Or.inr (Or.inl (subset answered))
  · exact Or.inr (Or.inr ⟨subset failed, denied⟩)

theorem Computed.sourced (computed : Computed history uid settings) :
    Sourced history uid settings :=
  ⟨settings, computed, rfl, rfl, Or.inl rfl⟩

/-- A policy that was answered for the uid, or denied after a failure, may replace any
other. -/
theorem Sourced.setPolicy (sourced : Sourced history uid settings)
    (given : Event.answered uid policy ∈ history ∨ (Event.failed uid ∈ history ∧ policy = .deny)) :
    Sourced history uid { settings with policy } := by
  rcases sourced with ⟨computed, isComputed, log, notify, _⟩
  exact ⟨computed, isComputed, log, notify, Or.inr given⟩

/-! ## The invariant -/

namespace State

variable (state : State)

/-- An info of this uid. -/
def Owns (uid : Int32) (info : Nat) : Prop :=
  ∃ shared, state.heap[info]? = some shared ∧ shared.info.uid = uid

/-- A FIFO with this process in its name. -/
def Named (pid : Option Int32) (fifo : Nat) : Prop :=
  ∃ node, state.fifos[fifo]? = some node ∧ node.pid = pid

/-- What a phase of a thread refers to belongs to its request. -/
def PhaseBelongs (uid : Int32) (pid : Option Int32) (phase : Phase) : Prop :=
  (∀ info, phase.info = some info → state.Owns uid info) ∧
    ∀ fifo, phase.fifo = some fifo → state.Named pid fifo

/-- Everything belongs to its uid, where `owner` says which uid the requests of a
process have. -/
structure Isolated (owner : Option Int32 → Int32) : Prop where
  requests : ∀ thread ∈ state.threads, thread.uid = owner thread.pid ∧ thread.uid ≠ -1
  phases : ∀ thread ∈ state.threads, state.PhaseBelongs thread.uid thread.pid thread.phase
  paths : ∀ pid fifo, state.paths pid = some fifo → state.Named pid fifo
  pending : ∀ request ∈ state.pending, request.2 = owner request.1
  handles : ∀ handle ∈ state.handles, ∃ pid, state.Named pid handle.1 ∧ handle.2 = owner pid
  answers : ∀ node ∈ state.fifos, ∀ policy ∈ node.answers,
    Event.answered (owner node.pid) policy ∈ state.history
  infos : ∀ shared ∈ state.heap, shared.info.uid ≠ -1 →
    Sourced state.history shared.info.uid shared.info.access.settings
  decisions : ∀ uid settings, Event.decided uid settings ∈ state.history →
    Sourced state.history uid settings

end State

/-! ## Single changes -/

theorem mem_modify {α : Type} {list : List α} {index : Nat} {change : α → α} {value : α}
    (mem : value ∈ list.modify index change) :
    value ∈ list ∨ ∃ old, list[index]? = some old ∧ value = change old := by
  rcases mem_iff_getElem?.mp mem with ⟨position, found⟩
  rw [getElem?_modify, Option.map_eq_map, Option.map_eq_some_iff] at found
  rcases found with ⟨old, isOld, isValue⟩
  by_cases here : index = position
  · rw [if_pos here] at isValue
    exact Or.inr ⟨old, by rw [here, isOld], isValue.symm⟩
  · rw [if_neg here] at isValue
    exact Or.inl (isValue ▸ mem_of_getElem? isOld)

section Changes

variable {state next : State} {owner : Option Int32 → Int32} {number index info fifo : Nat}
  {thread : Thread} {pid : Option Int32} {phase : Phase}

/-- What belongs to a request still does if infos and FIFOs stay what they are. -/
theorem State.PhaseBelongs.mono (belongs : state.PhaseBelongs uid pid phase)
    (owns : ∀ uid info, state.Owns uid info → next.Owns uid info)
    (named : ∀ pid fifo, state.Named pid fifo → next.Named pid fifo) :
    next.PhaseBelongs uid pid phase :=
  ⟨fun info isInfo => owns uid info (belongs.1 info isInfo),
    fun fifo isFifo => named pid fifo (belongs.2 fifo isFifo)⟩

theorem owns_push (info : SuInfo) (owns : state.Owns uid index) :
    (state.push info).Owns uid index := by
  rcases owns with ⟨shared, found, isUid⟩
  refine ⟨shared, ?_, isUid⟩
  have inside := (List.getElem?_eq_some_iff.mp found).1
  rw [State.push, getElem?_append_left inside, found]

theorem owns_push_self (info : SuInfo) : (state.push info).Owns info.uid state.heap.length :=
  ⟨⟨info, none⟩, getElem?_concat_length, rfl⟩

theorem owns_update {change : Shared → Shared}
    (keeps : ∀ shared, (change shared).info.uid = shared.info.uid) (owns : state.Owns uid info) :
    (state.update index change).Owns uid info := by
  rcases owns with ⟨shared, found, isUid⟩
  refine ⟨if index = info then change shared else shared, ?_, ?_⟩
  · rw [State.update, getElem?_modify, found]
    rfl
  · split
    · rw [keeps, isUid]
    · exact isUid

theorem uid_setPolicy (policy : SuPolicy) (shared : Shared) :
    (shared.setPolicy policy).info.uid = shared.info.uid :=
  rfl

theorem named_mkfifo (new : Option Int32) (named : state.Named pid fifo) :
    (state.mkfifo new).Named pid fifo := by
  rcases named with ⟨node, found, isPid⟩
  refine ⟨node, ?_, isPid⟩
  have inside := (List.getElem?_eq_some_iff.mp found).1
  rw [State.mkfifo, getElem?_append_left inside, found]

theorem named_updateFifo {change : List SuPolicy → List SuPolicy} (named : state.Named pid fifo) :
    (state.updateFifo index change).Named pid fifo := by
  rcases named with ⟨node, found, isPid⟩
  refine ⟨if index = fifo then { node with answers := change node.answers } else node, ?_, ?_⟩
  · rw [State.updateFifo, getElem?_modify, found]
    rfl
  · split
    · exact isPid
    · exact isPid

/-- A phase that refers to an info of the request. -/
theorem belongs_of_owns (isInfo : phase.info = some info) (owns : state.Owns uid info)
    (named : ∀ fifo, phase.fifo = some fifo → state.Named pid fifo) :
    state.PhaseBelongs uid pid phase := by
  refine ⟨?_, named⟩
  intro other isOther
  rw [isInfo] at isOther
  cases isOther
  exact owns

section Isolated

variable (isolated : state.Isolated owner)

include isolated

theorem isolated_push {info : SuInfo}
    (sourced : info.uid ≠ -1 → Sourced state.history info.uid info.access.settings) :
    (state.push info).Isolated owner := by
  refine { isolated with phases := ?_, infos := ?_ }
  · intro thread mem
    exact (isolated.phases thread mem).mono (fun _ _ => owns_push info) fun _ _ named => named
  · intro shared mem
    rcases mem_append.mp mem with old | new
    · exact isolated.infos shared old
    · cases mem_singleton.mp new
      exact sourced

/-- Changing an info keeps everything if the new settings belong to its uid. -/
theorem isolated_update
    {change : Shared → Shared} (keeps : ∀ shared, (change shared).info.uid = shared.info.uid)
    (sourced : ∀ shared, state.heap[index]? = some shared → shared.info.uid ≠ -1 →
      Sourced state.history shared.info.uid shared.info.access.settings →
      Sourced state.history shared.info.uid (change shared).info.access.settings) :
    (state.update index change).Isolated owner := by
  refine { isolated with phases := ?_, infos := ?_ }
  · intro thread mem
    exact (isolated.phases thread mem).mono (fun _ _ => owns_update keeps) fun _ _ named => named
  · intro shared mem
    rcases mem_modify mem with old | ⟨old, found, rfl⟩
    · exact isolated.infos shared old
    · intro known
      rw [keeps] at known ⊢
      exact sourced old found known (isolated.infos old (mem_of_getElem? found) known)

theorem isolated_record {event : Event}
    (decided : ∀ uid settings, event = .decided uid settings → Sourced state.history uid settings) :
    (state.record event).Isolated owner := by
  have subset : state.history ⊆ event :: state.history := subset_cons_self _ _
  refine { isolated with answers := ?_, infos := ?_, decisions := ?_ }
  · intro node mem policy inside
    exact subset (isolated.answers node mem policy inside)
  · intro shared mem known
    exact (isolated.infos shared mem known).mono subset
  · intro uid settings mem
    rcases mem_cons.mp mem with now | before
    · exact (decided uid settings now.symm).mono subset
    · exact (isolated.decisions uid settings before).mono subset

theorem isolated_mkfifo (pid : Option Int32) : (state.mkfifo pid).Isolated owner := by
  refine { isolated with phases := ?_, paths := ?_, handles := ?_, answers := ?_ }
  · intro thread mem
    exact (isolated.phases thread mem).mono (fun _ _ owns => owns) fun _ _ => named_mkfifo pid
  · intro other fifo isPath
    by_cases same : other = pid
    · subst same
      change update state.paths other _ other = _ at isPath
      rw [update_self] at isPath
      cases isPath
      exact ⟨⟨other, []⟩, getElem?_concat_length, rfl⟩
    · change update state.paths pid _ other = _ at isPath
      rw [update_of_ne same] at isPath
      exact named_mkfifo pid (isolated.paths other fifo isPath)
  · intro handle mem
    rcases isolated.handles handle mem with ⟨other, named, isOwner⟩
    exact ⟨other, named_mkfifo pid named, isOwner⟩
  · intro node mem policy inside
    rcases mem_append.mp mem with old | new
    · exact isolated.answers node old policy inside
    · cases mem_singleton.mp new
      exact absurd inside not_mem_nil

theorem isolated_remove (pid : Option Int32) : (state.remove pid).Isolated owner := by
  refine { isolated with paths := ?_ }
  intro other fifo isPath
  by_cases same : other = pid
  · subst same
    change update state.paths other none other = _ at isPath
    rw [update_self] at isPath
    cases isPath
  · change update state.paths pid none other = _ at isPath
    rw [update_of_ne same] at isPath
    exact isolated.paths other fifo isPath

/-- Changing the answers in a FIFO keeps everything if they are answers for its uid. -/
theorem isolated_updateFifo {change : List SuPolicy → List SuPolicy}
    (answered : ∀ node, state.fifos[index]? = some node → ∀ policy ∈ change node.answers,
      policy ∈ node.answers ∨ Event.answered (owner node.pid) policy ∈ state.history) :
    (state.updateFifo index change).Isolated owner := by
  refine { isolated with phases := ?_, paths := ?_, handles := ?_, answers := ?_ }
  · intro thread mem
    exact (isolated.phases thread mem).mono (fun _ _ owns => owns) fun _ _ => named_updateFifo
  · intro pid fifo isPath
    exact named_updateFifo (isolated.paths pid fifo isPath)
  · intro handle mem
    rcases isolated.handles handle mem with ⟨pid, named, isOwner⟩
    exact ⟨pid, named_updateFifo named, isOwner⟩
  · intro node mem policy inside
    rcases mem_modify mem with old | ⟨old, found, rfl⟩
    · exact isolated.answers node old policy inside
    · rcases answered old found policy inside with before | given
      · exact isolated.answers old (mem_of_getElem? found) policy before
      · exact given

/-- The settings of a request change to a policy that was given for it. -/
theorem isolated_setPolicy (owns : state.Owns uid info)
    (given : Event.answered uid policy ∈ state.history ∨
      (Event.failed uid ∈ state.history ∧ policy = .deny)) :
    (state.update info (Shared.setPolicy policy)).Isolated owner := by
  apply isolated_update isolated (uid_setPolicy policy)
  intro shared found _ sourced
  rcases owns with ⟨owned, isOwned, isUid⟩
  rw [found] at isOwned
  cases isOwned
  rw [isUid] at sourced ⊢
  exact sourced.setPolicy given

theorem isolated_denyFailed (owns : state.Owns uid info) :
    (state.denyFailed uid info).Isolated owner := by
  have recorded : (state.record (.failed uid)).Isolated owner := isolated_record isolated nofun
  exact isolated_setPolicy recorded owns (Or.inr ⟨mem_cons_self, rfl⟩)

variable (isThread : state.threads[number]? = some thread)

include isThread

theorem isolated_goto (belongs : state.PhaseBelongs thread.uid thread.pid phase) :
    (state.goto number phase).Isolated owner := by
  have old : thread ∈ state.threads := mem_of_getElem? isThread
  have moved : ∀ other ∈ (state.goto number phase).threads,
      other ∈ state.threads ∨ other = { thread with phase } := by
    intro other mem
    rcases mem_modify mem with kept | ⟨before, found, rfl⟩
    · exact Or.inl kept
    · rw [isThread] at found
      cases found
      exact Or.inr rfl
  refine { isolated with requests := ?_, phases := ?_ }
  · intro other mem
    rcases moved other mem with kept | rfl
    · exact isolated.requests other kept
    · exact isolated.requests thread old
  · intro other mem
    rcases moved other mem with kept | rfl
    · exact isolated.phases other kept
    · exact belongs

theorem owns_of_phase (isPhase : thread.phase = phase) (isInfo : phase.info = some info) :
    state.Owns thread.uid info := by
  subst isPhase
  exact (isolated.phases thread (mem_of_getElem? isThread)).1 info isInfo

theorem named_of_phase (isPhase : thread.phase = phase) (isFifo : phase.fifo = some fifo) :
    state.Named thread.pid fifo := by
  subst isPhase
  exact (isolated.phases thread (mem_of_getElem? isThread)).2 fifo isFifo

end Isolated

end Changes

/-! ## Steps of a thread -/

theorem uid_settleSuInfo (env : Env) (uid : Int32) (cfg : DbSettings) (evalUid : Int32)
    (access : RootSettings) : (settleSuInfo env uid cfg evalUid access).uid = uid := by
  rw [settleSuInfo]
  dsimp only
  split
  · rfl
  · split
    · rfl
    · split
      · rfl
      · rfl

/-- `build_su_info` is about the uid it is called with. -/
theorem uid_buildSuInfo (env : Env) (uid : Int32) : (buildSuInfo env uid).uid = uid := by
  rw [buildSuInfo]
  split
  · split
    · rfl
    · split
      · rfl
      · split
        · rfl
        · exact uid_settleSuInfo env uid _ _ _
  · rfl

section Act

variable {state next : State} {owner : Option Int32 → Int32} {number now : Nat} {thread : Thread}
  {succeeds : Bool} (isolated : state.Isolated owner)
  (isThread : state.threads[number]? = some thread)

include isolated isThread

theorem isolated_load (acted : state.act number thread (.load now) = some next) :
    next.Isolated owner := by
  simp only [State.act] at acted
  split at acted
  · split at acted
    · rename_i root
      cases acted
      have pushed : (state.push (.allow aidRoot now)).Isolated owner :=
        isolated_push isolated fun _ => Computed.sourced (Or.inl ⟨rfl, rfl⟩)
      apply isolated_goto pushed isThread
      rw [root]
      exact belongs_of_owns rfl (owns_push_self _) nofun
    · cases acted
      exact isolated_goto isolated isThread ⟨nofun, nofun⟩
  · cases acted

/-- Only an info of the same uid is taken from the cache. -/
theorem isolated_check (acted : state.act number thread (.check now) = some next) :
    next.Isolated owner := by
  simp only [State.act] at acted
  split at acted
  · split at acted
    · cases acted
    · rename_i found
      split at acted
      · rename_i same
        split at acted
        · cases acted
        · split at acted
          · cases acted
            exact isolated_goto isolated isThread (belongs_of_owns rfl ⟨_, found, same⟩ nofun)
          · cases acted
            exact isolated_goto isolated isThread ⟨nofun, nofun⟩
      · cases acted
        exact isolated_goto isolated isThread ⟨nofun, nofun⟩
  · cases acted

theorem isolated_build {env : Env} (acted : state.act number thread (.build env) = some next) :
    next.Isolated owner := by
  simp only [State.act] at acted
  split at acted
  · cases acted
    have recorded : (state.record (.built thread.uid (buildSuInfo env thread.uid))).Isolated
        owner := isolated_record isolated nofun
    have pushed := isolated_push recorded fun _ => Computed.sourced
      (Or.inr ⟨buildSuInfo env thread.uid, ?_, rfl⟩)
    · apply isolated_goto pushed isThread
      have owns := @owns_push_self (state.record (.built thread.uid (buildSuInfo env thread.uid)))
        (buildSuInfo env thread.uid)
      rw [uid_buildSuInfo] at owns
      exact belongs_of_owns rfl owns nofun
    · rw [uid_buildSuInfo]
      exact mem_cons_self
  · cases acted

theorem isolated_store (acted : state.act number thread .store = some next) :
    next.Isolated owner := by
  simp only [State.act] at acted
  split at acted
  · rename_i info isPhase
    cases acted
    have owns := owns_of_phase isolated isThread isPhase rfl
    have stored : ({ state with cache := info } : State).Isolated owner := { isolated with }
    exact isolated_goto stored isThread (belongs_of_owns rfl owns nofun)
  · cases acted

theorem isolated_lock (acted : state.act number thread .lock = some next) :
    next.Isolated owner := by
  simp only [State.act] at acted
  split at acted
  · rename_i info isPhase
    have owns := owns_of_phase isolated isThread isPhase rfl
    split at acted
    · cases acted
    · split at acted
      · cases acted
      · cases acted
        have keeps : ∀ shared : Shared, (shared.lock number).info.uid = shared.info.uid :=
          fun _ => rfl
        have locked : (state.update info (Shared.lock number)).Isolated owner :=
          isolated_update isolated keeps fun _ _ _ sourced => sourced
        exact isolated_goto locked isThread (belongs_of_owns rfl (owns_update keeps owns) nofun)
  · cases acted

theorem isolated_mkfifo_act (acted : state.act number thread (.mkfifo succeeds) = some next) :
    next.Isolated owner := by
  simp only [State.act] at acted
  split at acted
  · rename_i info isPhase
    have owns := owns_of_phase isolated isThread isPhase rfl
    split at acted
    · cases acted
    · split at acted
      · split at acted
        · cases acted
          exact isolated_goto (isolated_mkfifo isolated thread.pid) isThread
            (belongs_of_owns rfl owns nofun)
        · cases acted
          exact isolated_goto isolated isThread (belongs_of_owns rfl owns nofun)
      · cases acted
        exact isolated_goto isolated isThread (belongs_of_owns rfl owns nofun)
  · cases acted

theorem isolated_notify (acted : state.act number thread (.notify succeeds) = some next) :
    next.Isolated owner := by
  simp only [State.act] at acted
  split at acted
  · rename_i info isPhase
    have owns := owns_of_phase isolated isThread isPhase rfl
    split at acted
    · cases acted
      have told : ({ state with
          pending := (thread.pid, thread.uid) :: state.pending } : State).Isolated owner := by
        refine { isolated with pending := ?_ }
        intro request mem
        rcases mem_cons.mp mem with rfl | before
        · exact (isolated.requests thread (mem_of_getElem? isThread)).1
        · exact isolated.pending request before
      exact isolated_goto told isThread (belongs_of_owns rfl owns nofun)
    · cases acted
      exact isolated_goto isolated isThread (belongs_of_owns rfl owns nofun)
  · cases acted

theorem isolated_openFifo (acted : state.act number thread (.openFifo succeeds) = some next) :
    next.Isolated owner := by
  simp only [State.act] at acted
  split at acted
  · rename_i info isPhase
    have owns := owns_of_phase isolated isThread isPhase rfl
    split at acted
    · rename_i fifo isPath
      split at acted
      · cases acted
        exact isolated_goto isolated isThread
          (belongs_of_owns rfl owns fun _ isFifo =>
            Option.some.inj isFifo ▸ isolated.paths _ fifo isPath)
      · cases acted
        exact isolated_goto isolated isThread (belongs_of_owns rfl owns nofun)
    · cases acted
      exact isolated_goto isolated isThread (belongs_of_owns rfl owns nofun)
  · cases acted

theorem isolated_poll (acted : state.act number thread (.poll succeeds) = some next) :
    next.Isolated owner := by
  simp only [State.act] at acted
  split at acted
  · rename_i info fifo isPhase
    have owns := owns_of_phase isolated isThread isPhase rfl
    have named : state.Named thread.pid fifo := named_of_phase isolated isThread isPhase rfl
    split at acted
    · cases acted
      exact isolated_goto (isolated_remove isolated thread.pid) isThread
        (belongs_of_owns rfl owns fun _ isFifo => Option.some.inj isFifo ▸ named)
    · cases acted
      exact isolated_goto isolated isThread (belongs_of_owns rfl owns nofun)
  · cases acted

theorem isolated_fail (acted : state.act number thread .fail = some next) :
    next.Isolated owner := by
  simp only [State.act] at acted
  split at acted
  · rename_i info isPhase
    cases acted
    have owns := owns_of_phase isolated isThread isPhase rfl
    have denied := isolated_denyFailed (isolated_remove isolated thread.pid) owns
    exact isolated_goto denied isThread
      (belongs_of_owns rfl (owns_update (uid_setPolicy .deny) owns) nofun)
  · cases acted

/-- The answer that is read was given for the uid of the request. -/
theorem isolated_read (acted : state.act number thread (.read succeeds) = some next) :
    next.Isolated owner := by
  simp only [State.act] at acted
  split at acted
  · rename_i info fifo isPhase
    have owns := owns_of_phase isolated isThread isPhase rfl
    split at acted
    · split at acted
      · rename_i pid policy rest found
        cases acted
        have isOwner := (isolated.requests thread (mem_of_getElem? isThread)).1
        rcases named_of_phase isolated isThread isPhase rfl with ⟨node, isNode, isPid⟩
        rw [found] at isNode
        cases isNode
        have answered := isolated.answers _ (mem_of_getElem? found) policy mem_cons_self
        rw [isPid, ← isOwner] at answered
        have taken : (state.updateFifo fifo List.tail).Isolated owner := by
          apply isolated_updateFifo isolated
          intro node _ other mem
          exact Or.inl (mem_of_mem_tail mem)
        have given := isolated_setPolicy taken owns (Or.inl answered)
        exact isolated_goto given isThread
          (belongs_of_owns rfl (owns_update (uid_setPolicy policy) owns) nofun)
      · cases acted
    · cases acted
      exact isolated_goto (isolated_denyFailed isolated owns) isThread
        (belongs_of_owns rfl (owns_update (uid_setPolicy .deny) owns) nofun)
  · cases acted

/-- What is decided with belongs to the uid of the request. -/
theorem isolated_settle (acted : state.act number thread (.settle now) = some next) :
    next.Isolated owner := by
  simp only [State.act] at acted
  split at acted
  · rename_i info isPhase
    split at acted
    · cases acted
    · rename_i shared found
      cases acted
      rcases owns_of_phase isolated isThread isPhase rfl with ⟨owned, isOwned, isUid⟩
      rw [found] at isOwned
      cases isOwned
      have known := (isolated.requests thread (mem_of_getElem? isThread)).2
      have recorded : (state.record (.decided thread.uid shared.info.access.settings)).Isolated
          owner := by
        apply isolated_record isolated
        rintro uid settings ⟨⟩
        rw [← isUid]
        rw [← isUid] at known
        exact isolated.infos shared (mem_of_getElem? found) known
      have refreshed : ((state.record (.decided thread.uid shared.info.access.settings)).update
          info (Shared.refresh now)).Isolated owner :=
        isolated_update recorded (fun _ => rfl) fun _ _ _ sourced => sourced
      exact isolated_goto refreshed isThread ⟨nofun, nofun⟩
  · cases acted

theorem isolated_act {action : Action} (acted : state.act number thread action = some next) :
    next.Isolated owner := by
  cases action with
  | load now => exact isolated_load isolated isThread acted
  | check now => exact isolated_check isolated isThread acted
  | build env => exact isolated_build isolated isThread acted
  | store => exact isolated_store isolated isThread acted
  | lock => exact isolated_lock isolated isThread acted
  | mkfifo succeeds => exact isolated_mkfifo_act isolated isThread acted
  | notify succeeds => exact isolated_notify isolated isThread acted
  | openFifo succeeds => exact isolated_openFifo isolated isThread acted
  | poll succeeds => exact isolated_poll isolated isThread acted
  | fail => exact isolated_fail isolated isThread acted
  | read succeeds => exact isolated_read isolated isThread acted
  | settle now => exact isolated_settle isolated isThread acted

end Act

/-! ## Every run -/

/-- A request comes from a process whose number belongs to its uid; no process has the
uid -1. -/
def Allowed (owner : Option Int32 → Int32) : Label → Prop
  | .start uid pid => uid = owner pid ∧ uid ≠ -1
  | _ => True

instance (owner : Option Int32 → Int32) (label : Label) : Decidable (Allowed owner label) :=
  match label with
  | .start uid pid => inferInstanceAs (Decidable (uid = owner pid ∧ uid ≠ -1))
  | .act _ _ => isTrue trivial
  | .managerOpen _ => isTrue trivial
  | .managerAnswer _ _ => isTrue trivial

theorem isolated_initial (now : Nat) (owner : Option Int32 → Int32) :
    (initial now).Isolated owner where
  requests := nofun
  phases := nofun
  paths := nofun
  pending := nofun
  handles := nofun
  answers := nofun
  infos := by
    intro shared mem known
    cases mem_singleton.mp mem
    exact absurd rfl known
  decisions := nofun

theorem isolated_step {state next : State} {label : Label} {owner : Option Int32 → Int32}
    (isolated : state.Isolated owner) (allowed : Allowed owner label)
    (stepped : step state label = some next) : next.Isolated owner := by
  cases label with
  | start uid pid =>
    cases stepped
    refine { isolated with requests := ?_, phases := ?_ }
    · intro thread mem
      rcases mem_append.mp mem with old | new
      · exact isolated.requests thread old
      · cases mem_singleton.mp new
        exact allowed
    · intro thread mem
      rcases mem_append.mp mem with old | new
      · exact isolated.phases thread old
      · cases mem_singleton.mp new
        exact ⟨nofun, nofun⟩
  | act number action =>
    rcases Option.bind_eq_some_iff.mp stepped with ⟨thread, isThread, acted⟩
    exact isolated_act isolated isThread acted
  | managerOpen request =>
    simp only [step] at stepped
    split at stepped
    · rename_i told
      rcases Option.map_eq_some_iff.mp stepped with ⟨fifo, isPath, rfl⟩
      refine { isolated with handles := ?_ }
      intro handle mem
      rcases mem_cons.mp mem with rfl | before
      · exact ⟨request.1, isolated.paths _ fifo isPath, isolated.pending request told⟩
      · exact isolated.handles handle before
    · cases stepped
  | managerAnswer handle policy =>
    simp only [step] at stepped
    split at stepped
    · rename_i opened
      cases stepped
      have recorded : (state.record (.answered handle.2 policy)).Isolated owner :=
        isolated_record isolated nofun
      apply isolated_updateFifo recorded
      intro node found other mem
      rcases mem_append.mp mem with before | now
      · exact Or.inl before
      · cases mem_singleton.mp now
        rcases isolated.handles handle opened with ⟨pid, ⟨named, isNamed, isPid⟩, isOwner⟩
        change state.fifos[handle.1]? = some node at found
        rw [isNamed] at found
        cases found
        rw [isPid, ← isOwner]
        exact Or.inr mem_cons_self
    · cases stepped

/-- In every run in which the processes of requests with different uids have different
numbers, every decision belongs to the uid of its request. -/
theorem decisions_sourced (now : Nat) (execution : Execution (system now))
    (owner : Option Int32 → Int32) (meets : execution.Meets fun _ => Allowed owner)
    (time : Nat)
    (uid : Int32) (settings : RootSettings)
    (decided : Event.decided uid settings ∈ (execution.state time).history) :
    Sourced (execution.state time).history uid settings := by
  have isolated : (execution.state time).Isolated owner :=
    @Execution.invariant _ _ _ _ _ (fun state => state.Isolated owner) meets
      (isolated_initial now owner) isolated_step time
  exact isolated.decisions uid settings decided

/-- Under the same condition everything belongs to its uid at all times. -/
theorem isolated_state {now : Nat} (execution : Execution (system now))
    {owner : Option Int32 → Int32} (meets : execution.Meets fun _ => Allowed owner) (time : Nat) :
    (execution.state time).Isolated owner :=
  @Execution.invariant _ _ _ _ _ (fun state => state.Isolated owner) meets
    (isolated_initial now owner) isolated_step time

/-! ## Runs -/

/-- A device on which every app has to ask. -/
def askingEnv : Env where
  checkDb := true
  settings := some []
  policies := some []
  clock := 0
  manager _ := (10500, "manager")
  now := 0
  later := 0
  fifo := .unavailable
  forks := true

/-- A thread looks up a request, up to the first call of `app_request`. -/
def lookUp (number : Nat) : List Label :=
  [.act number (.load 0), .act number (.check 0), .act number (.build askingEnv),
    .act number .store, .act number .lock]

/-- A thread asks the manager and opens the FIFO. -/
def ask (number : Nat) : List Label :=
  [.act number (.mkfifo true), .act number (.notify true), .act number (.openFifo true)]

/-- A thread takes the answer and decides. -/
def conclude (number : Nat) : List Label :=
  [.act number (.poll true), .act number (.read true), .act number (.settle 0)]

/-- The manager allows the requests of two apps in the other order. -/
def twoApps : List Label :=
  [.start 10001 (some 7), .start 10002 (some 8)] ++ lookUp 0 ++ lookUp 1 ++ ask 0 ++ ask 1 ++
    [.managerOpen (some 8, 10002), .managerAnswer (1, 10002) .allow,
      .managerOpen (some 7, 10001), .managerAnswer (0, 10001) .deny] ++
    conclude 0 ++ conclude 1

/-- The apps of the two processes. -/
def twoOwners (pid : Option Int32) : Int32 :=
  if pid = some 7 then 10001 else 10002

theorem runs_twoApps : ((system 0).run (system 0).initial twoApps).isSome = true := by
  decide +kernel

def twoAppsRun : Execution (system 0) :=
  .ofLabels (system 0) twoApps (Option.some_get runs_twoApps).symm

theorem meets_twoAppsRun : twoAppsRun.Meets fun _ => Allowed twoOwners := by
  apply Execution.meets_ofLabels
  decide +kernel

/-- Both decisions belong to the apps they were made for. -/
theorem decisions_sourced_twoApps :
    Event.decided 10001 { policy := .deny } ∈ (twoAppsRun.state 28).history ∧
      Event.decided 10002 { policy := .allow } ∈ (twoAppsRun.state 28).history ∧
      Sourced (twoAppsRun.state 28).history 10001 { policy := .deny } ∧
      Sourced (twoAppsRun.state 28).history 10002 { policy := .allow } := by
  have first : Event.decided 10001 { policy := .deny } ∈ (twoAppsRun.state 28).history := by
    decide +kernel
  have second : Event.decided 10002 { policy := .allow } ∈ (twoAppsRun.state 28).history := by
    decide +kernel
  exact ⟨first, second, decisions_sourced 0 twoAppsRun twoOwners meets_twoAppsRun 28 _ _ first,
    decisions_sourced 0 twoAppsRun twoOwners meets_twoAppsRun 28 _ _ second⟩

theorem isolated_twoApps : (twoAppsRun.state 28).Isolated twoOwners :=
  isolated_state twoAppsRun meets_twoAppsRun 28

/-- The settings were computed by `build_su_info` for the uid, except that the manager may
have answered for it. -/
def Event.Supports (history : List Event) (uid : Int32) (settings : RootSettings) : Event → Prop
  | .built other info =>
    other = uid ∧ settings.log = info.access.settings.log ∧
      settings.notify = info.access.settings.notify ∧
      (settings.policy = info.access.settings.policy ∨
        Event.answered uid settings.policy ∈ history)
  | _ => False

instance (history : List Event) (uid : Int32) (settings : RootSettings) (event : Event) :
    Decidable (event.Supports history uid settings) :=
  match event with
  | .built _ _ => inferInstanceAs (Decidable (_ ∧ _ ∧ _ ∧ (_ ∨ _)))
  | .answered _ _ => isFalse id
  | .failed _ => isFalse id
  | .decided _ _ => isFalse id

/-- A run ends with a decision that nothing computed or answered for its uid supports. -/
def Unsupported (labels : List Label) (uid : Int32) (settings : RootSettings) : Prop :=
  ∃ last, (system 0).run (system 0).initial labels = some last ∧
    Event.decided uid settings ∈ last.history ∧
    ¬ ∃ event ∈ last.history, event.Supports last.history uid settings

theorem unsupported_of_run {labels : List Label} {uid : Int32} {settings : RootSettings}
    (runs : ((system 0).run (system 0).initial labels).isSome = true)
    (decided : Event.decided uid settings ∈
      (((system 0).run (system 0).initial labels).get runs).history)
    (unsupported : ¬ ∃ event ∈ (((system 0).run (system 0).initial labels).get runs).history,
      event.Supports (((system 0).run (system 0).initial labels).get runs).history uid settings) :
    Unsupported labels uid settings :=
  ⟨_, (Option.some_get runs).symm, decided, unsupported⟩

/-- A request of root. -/
def rootRequest : List Label :=
  [.start aidRoot none, .act 0 (.load 0), .act 0 .lock, .act 0 (.mkfifo true), .act 0 (.settle 0)]

/-- The FIFO cannot be made. -/
def failingRequest : List Label :=
  [.start 10001 (some 7)] ++ lookUp 0 ++
    [.act 0 (.mkfifo false), .act 0 .fail, .act 0 (.settle 0)]

/-- The first app does not get an answer in time.  Its process is gone, and another app
asks from a process with the same number; the FIFO of the other app then gets the answer
for the first. -/
def recycledProcess : List Label :=
  [.start 10001 (some 7)] ++ lookUp 0 ++ ask 0 ++ [.act 0 (.poll true)] ++
    [.start 10002 (some 7)] ++ lookUp 1 ++ ask 1 ++
    [.managerOpen (some 7, 10001), .managerAnswer (1, 10001) .allow] ++ conclude 1

/-- Root is allowed without a lookup, a request that cannot be made is denied, and an
answer for one app is applied to another. -/
theorem unsupported_runs : Unsupported rootRequest aidRoot { policy := .allow } ∧
      Unsupported failingRequest 10001 { policy := .deny } ∧
      Unsupported recycledProcess 10002 { policy := .allow } :=
  ⟨unsupported_of_run (by decide +kernel) (by decide +kernel) (by decide +kernel),
    unsupported_of_run (by decide +kernel) (by decide +kernel) (by decide +kernel),
    unsupported_of_run (by decide +kernel) (by decide +kernel) (by decide +kernel)⟩

end Magisk.Core.Session
