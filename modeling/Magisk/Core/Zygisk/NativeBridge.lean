import Magisk.Interleaving.Core
import Magisk.Text.Core

/-!
# The native bridge property

Zygote loads the library named by a system property as its native bridge.  The
daemon puts the zygisk loader in front of the original name, and takes it away
again when the boot completes, when zygote crashes too often and when the
daemon stops.  The original name is only remembered behind the loader's own
name, so taking the loader away twice loses it.
-/

namespace Magisk.Core.Zygisk

open Function Interleaving

variable {enabled : Bool} {orig : String}

/-! ## The state and its operations -/

/-- The system properties; one that is not set reads as the empty text. -/
abbrev Properties := String → String

def nbprop : String := "ro.dalvik.vm.native.bridge"

def zygiskldr : String := "libzygisk.so"

/-- Whether Huawei's Maple compiler is enabled. -/
def mapleEnable : String := "ro.maple.enable"

/-- `ZygiskState`, with the sockets of the 32-bit and the 64-bit companion. -/
structure ZygiskState where
  libName : String := ""
  sockets : Option Nat × Option Nat := (none, none)
  startCount : UInt32 := 1
  deriving DecidableEq

namespace ZygiskState

/-- `set_prop`: put the loader in front of the original name, once. -/
def setProp (zygisk : ZygiskState) (props : Properties) : ZygiskState × Properties :=
  if zygisk.libName ≠ "" then
    (zygisk, props)
  else
    let orig := props nbprop
    let libName := if orig = "" ∨ orig = "0" then zygiskldr else zygiskldr ++ orig
    let named := Function.update props nbprop libName
    ({ zygisk with libName := libName },
      if named mapleEnable = "1" then Function.update named mapleEnable "0" else named)

/-- `restore_prop`: put back what stands behind the loader's name.  A library
name is empty or starts with the loader, so counting characters is counting
bytes here. -/
def restoreProp (zygisk : ZygiskState) (props : Properties) : ZygiskState × Properties :=
  let orig :=
    if zygiskldr.length < zygisk.libName.length then
      Text.dropFirst zygisk.libName zygiskldr.length
    else "0"
  ({ zygisk with libName := "" }, Function.update props nbprop orig)

/-- `reset`: roll back for good or after too many restarts of zygote. -/
def reset (zygisk : ZygiskState) (restore : Bool) (props : Properties) :
    ZygiskState × Properties :=
  let counted :=
    if restore then
      { zygisk with startCount := 1 }
    else
      { zygisk with sockets := (none, none), startCount := zygisk.startCount + 1 }
  if restore ∨ 3 < counted.startCount then counted.restoreProp props else counted.setProp props

end ZygiskState

/-- The parts of the daemon and of the device that the loader touches. -/
structure Daemon where
  props : Properties
  zygisk : ZygiskState := {}
  running : Bool := true

/-- What reaches the zygisk state. -/
inductive Event where
  | applyModules
  | zygoteRestart
  | bootComplete
  | stopDaemon
  deriving DecidableEq

namespace Daemon

/-- Run an operation under the lock of the zygisk state. -/
def update (daemon : Daemon) (operation : ZygiskState → Properties → ZygiskState × Properties) :
    Daemon :=
  let result := operation daemon.zygisk daemon.props
  { daemon with zygisk := result.1, props := result.2 }

/-- The zygisk part of `apply_modules`, of the `ZYGOTE_RESTART` request, of
`boot_complete` and of the `STOP_DAEMON` request. -/
def handle (enabled : Bool) (daemon : Daemon) : Event → Daemon
  | .applyModules => if enabled then daemon.update ZygiskState.setProp else daemon
  | .zygoteRestart => if enabled then daemon.update (·.reset false) else daemon
  | .bootComplete => if enabled then daemon.update (·.reset true) else daemon
  | .stopDaemon => { daemon.update ZygiskState.restoreProp with running := false }

end Daemon

/-- The daemon handles events until it stops. -/
def system (enabled : Bool) (props : Properties) : System Daemon Event where
  initial := { props }
  step daemon event := if daemon.running then some (daemon.handle enabled event) else none

/-! ## What the property should be -/

/-- The part of a name that stands behind the loader. -/
def appended (orig : String) : String :=
  if orig = "" ∨ orig = "0" then "" else orig

/-- The property has its original value, or that value behind the loader. -/
structure Faithful (orig : String) (daemon : Daemon) : Prop where
  plain : daemon.zygisk.libName = "" →
    daemon.props nbprop = orig ∨ (orig = "" ∧ daemon.props nbprop = "0")
  injected : daemon.zygisk.libName ≠ "" → daemon.props nbprop = zygiskldr ++ appended orig

/-- Whether an event ends in `restore_prop`. -/
def restores (enabled : Bool) (daemon : Daemon) : Event → Bool
  | .applyModules => false
  | .zygoteRestart => enabled && decide (3 < daemon.zygisk.startCount + 1)
  | .bootComplete => enabled
  | .stopDaemon => true

/-- The loader is only taken away while it is there, or where the original name
is none. -/
def Recoverable (enabled : Bool) (orig : String) (daemon : Daemon) (event : Event) : Prop :=
  restores enabled daemon event = true →
    daemon.zygisk.libName ≠ "" ∨ orig = "" ∨ orig = "0"

/-- The library name is what the property holds. -/
def Daemon.Linked (daemon : Daemon) : Prop :=
  daemon.zygisk.libName ≠ "" → daemon.props nbprop = daemon.zygisk.libName

/-! ## One step -/

theorem zygiskldr_append_ne (rest : String) : zygiskldr ++ rest ≠ "" := by
  intro empty
  have length := congrArg String.length empty
  exact absurd length (by simp [zygiskldr])

theorem appended_eq_empty_iff : appended orig = "" ↔ orig = "" ∨ orig = "0" := by
  rw [appended]
  split <;> rename_i none
  · exact iff_of_true rfl none
  · exact iff_of_false (fun empty => none (.inl empty)) none

/-- `set_prop` names the property and the library alike. -/
theorem ZygiskState.setProp_cases (zygisk : ZygiskState) (props : Properties) :
    (zygisk.libName ≠ "" ∧ zygisk.setProp props = (zygisk, props)) ∨ (zygisk.libName = "" ∧
        (zygisk.setProp props).1.libName = zygiskldr ++ appended (props nbprop) ∧
        (zygisk.setProp props).2 nbprop = zygiskldr ++ appended (props nbprop)) := by
  by_cases injected : zygisk.libName = ""
  · right
    have named : (if props nbprop = "" ∨ props nbprop = "0" then zygiskldr
        else zygiskldr ++ props nbprop) = zygiskldr ++ appended (props nbprop) := by
      rw [appended]
      split
      · exact (String.append_empty).symm
      · rfl
    refine ⟨injected, ?_, ?_⟩
    · rw [setProp, if_neg (not_not_intro injected)]
      exact named
    · rw [setProp, if_neg (not_not_intro injected)]
      dsimp only
      rw [named]
      split
      · rw [update_of_ne (by decide), update_self]
      · rw [update_self]
  · exact .inl ⟨injected, if_pos injected⟩

/-- What `restore_prop` finds behind the loader. -/
def behind (libName : String) : String :=
  if zygiskldr.length < libName.length then Text.dropFirst libName zygiskldr.length else "0"

theorem behind_append (orig : String) :
    behind (zygiskldr ++ appended orig) = if orig = "" ∨ orig = "0" then "0" else orig := by
  rw [behind, String.length_append]
  by_cases none : orig = "" ∨ orig = "0"
  · rw [if_pos none, appended_eq_empty_iff.mpr none, if_neg (by simp)]
  · have nonempty : orig.length ≠ 0 := by
      intro zero
      exact none (.inl (String.length_eq_zero_iff.mp zero))
    rw [if_neg none, appended, if_neg none, if_pos (by omega),
      Text.dropFirst_append String.length_toList.symm]

/-- An event takes the loader away, puts it in front, or leaves both names. -/
theorem handle_cases (enabled : Bool) (daemon : Daemon) (event : Event) :
    (restores enabled daemon event = true ∧ (daemon.handle enabled event).zygisk.libName = "" ∧
        (daemon.handle enabled event).props nbprop = behind daemon.zygisk.libName) ∨
      (restores enabled daemon event = false ∧
        (daemon.handle enabled event).zygisk.libName = daemon.zygisk.libName ∧
        (daemon.handle enabled event).props nbprop = daemon.props nbprop) ∨
      (restores enabled daemon event = false ∧ daemon.zygisk.libName = "" ∧
        (daemon.handle enabled event).zygisk.libName = zygiskldr ++ appended (daemon.props nbprop) ∧
        (daemon.handle enabled event).props nbprop =
          zygiskldr ++ appended (daemon.props nbprop)) := by
  have named : ∀ zygisk : ZygiskState, zygisk.libName = daemon.zygisk.libName →
      ((zygisk.setProp daemon.props).1.libName = daemon.zygisk.libName ∧
          (zygisk.setProp daemon.props).2 nbprop = daemon.props nbprop) ∨
        (daemon.zygisk.libName = "" ∧ (zygisk.setProp daemon.props).1.libName =
            zygiskldr ++ appended (daemon.props nbprop) ∧
          (zygisk.setProp daemon.props).2 nbprop =
            zygiskldr ++ appended (daemon.props nbprop)) := by
    intro zygisk same
    rcases zygisk.setProp_cases daemon.props with ⟨_, unchanged⟩ | ⟨absent, library, property⟩
    · rw [unchanged]
      exact .inl ⟨same, rfl⟩
    · exact .inr ⟨same ▸ absent, library, property⟩
  have restored : ∀ zygisk : ZygiskState, zygisk.libName = daemon.zygisk.libName →
      (zygisk.restoreProp daemon.props).1.libName = "" ∧
        (zygisk.restoreProp daemon.props).2 nbprop = behind daemon.zygisk.libName := by
    intro zygisk same
    rw [← same]
    refine ⟨rfl, ?_⟩
    change update daemon.props nbprop (behind zygisk.libName) nbprop = _
    rw [update_self]
  cases event with
  | stopDaemon => exact .inl ⟨rfl, restored daemon.zygisk rfl⟩
  | applyModules =>
    cases enabled with
    | false => exact .inr (.inl ⟨rfl, rfl, rfl⟩)
    | true =>
      rcases named daemon.zygisk rfl with same | ⟨absent, injected⟩
      · exact .inr (.inl ⟨rfl, same⟩)
      · exact .inr (.inr ⟨rfl, absent, injected⟩)
  | bootComplete =>
    cases enabled with
    | false => exact .inr (.inl ⟨rfl, rfl, rfl⟩)
    | true => exact .inl ⟨rfl, restored _ rfl⟩
  | zygoteRestart =>
    cases enabled with
    | false => exact .inr (.inl ⟨rfl, rfl, rfl⟩)
    | true =>
      by_cases tooOften : 3 < daemon.zygisk.startCount + 1
      · have resets : daemon.handle true .zygoteRestart =
            daemon.update fun zygisk => ZygiskState.restoreProp
              { zygisk with sockets := (none, none), startCount := zygisk.startCount + 1 } := by
          simp only [Daemon.handle, if_true, Daemon.update, ZygiskState.reset,
            Bool.false_eq_true, if_false, false_or, if_pos tooOften]
        rw [resets]
        exact .inl ⟨decide_eq_true tooOften, restored _ rfl⟩
      · have resets : daemon.handle true .zygoteRestart =
            daemon.update fun zygisk => ZygiskState.setProp
              { zygisk with sockets := (none, none), startCount := zygisk.startCount + 1 } := by
          simp only [Daemon.handle, if_true, Daemon.update, ZygiskState.reset,
            Bool.false_eq_true, if_false, false_or, if_neg tooOften]
        rw [resets]
        rcases named { daemon.zygisk with
            sockets := (none, none), startCount := daemon.zygisk.startCount + 1 } rfl with
          same | ⟨absent, injected⟩
        · exact .inr (.inl ⟨decide_eq_false tooOften, same⟩)
        · exact .inr (.inr ⟨decide_eq_false tooOften, absent, injected⟩)

variable {daemon : Daemon} {props : Properties}

theorem linked_handle (linked : daemon.Linked) (event : Event) :
    (daemon.handle enabled event).Linked := by
  rcases handle_cases enabled daemon event with
    ⟨_, library, _⟩ | ⟨_, library, property⟩ | ⟨_, _, library, property⟩
  · exact fun injected => absurd library injected
  · intro injected
    rw [library] at injected
    rw [library, property]
    exact linked injected
  · intro _
    rw [library, property]

/-- The loader keeps the original name in front of which it is put. -/
theorem appended_of_faithful (faithful : Faithful orig daemon)
    (absent : daemon.zygisk.libName = "") :
    appended (daemon.props nbprop) = appended orig := by
  rcases faithful.plain absent with same | ⟨rfl, zero⟩
  · rw [same]
  · rw [zero]
    rfl

/-- The property stays faithful exactly if its original name can be recovered. -/
theorem faithful_handle_iff (linked : daemon.Linked) (faithful : Faithful orig daemon)
    (event : Event) :
    Faithful orig (daemon.handle enabled event) ↔ Recoverable enabled orig daemon event := by
  rcases handle_cases enabled daemon event with
    ⟨restoring, library, property⟩ | ⟨keeping, library, property⟩ |
      ⟨keeping, absent, library, property⟩
  · by_cases absent : daemon.zygisk.libName = ""
    · rw [absent] at property
      constructor
      · intro after _
        rcases after.plain library with same | ⟨none, _⟩
        · exact .inr (.inr (same.symm.trans property))
        · exact .inr (.inl none)
      · intro recoverable
        refine ⟨fun _ => ?_, fun injected => absurd library injected⟩
        rcases recoverable restoring with injected | none | zero
        · exact absurd absent injected
        · exact .inr ⟨none, property⟩
        · exact .inl (property.trans zero.symm)
    · refine iff_of_true ⟨fun _ => ?_, fun injected => absurd library injected⟩ fun _ => .inl absent
      rw [property, ← linked absent, faithful.injected absent, behind_append]
      by_cases none : orig = "" ∨ orig = "0"
      · rcases none with rfl | rfl
        · exact .inr ⟨rfl, rfl⟩
        · exact .inl rfl
      · rw [if_neg none]
        exact .inl rfl
  · refine iff_of_true ⟨?_, ?_⟩ fun restoring => absurd (keeping.symm.trans restoring) (by decide)
    · rw [library, property]
      exact faithful.plain
    · rw [library, property]
      exact faithful.injected
  · refine iff_of_true ⟨?_, fun _ => ?_⟩
      fun restoring => absurd (keeping.symm.trans restoring) (by decide)
    · rw [library]
      exact fun empty => absurd empty (zygiskldr_append_ne _)
    · rw [property, appended_of_faithful faithful absent]

/-! ## Whole runs -/

theorem step_eq {next : Daemon} {event : Event}
    (stepEq : (system enabled props).step daemon event = some next) :
    next = daemon.handle enabled event := by
  change (if daemon.running = true then _ else none) = some next at stepEq
  split at stepEq
  · exact (Option.some.inj stepEq).symm
  · cases stepEq

/-- The library name is the property's value at all times. -/
theorem linked_state (execution : Execution (system enabled props)) (time : Nat) :
    (execution.state time).Linked := by
  have anything : execution.Meets fun _ _ => True := fun _ _ _ => trivial
  refine Execution.invariant anything ?_ ?_ time
  · exact fun injected => absurd rfl injected
  · intro daemon event next linked _ stepEq
    rw [step_eq stepEq]
    exact linked_handle linked event

/-- In a run the native bridge property has its original value, behind the
loader while that is injected, exactly if the loader is never taken away while
it is not there from a device that has a native bridge. -/
theorem faithful_iff_recoverable (enabled : Bool) (props : Properties)
    (execution : Execution (system enabled props)) :
    (∀ time, Faithful (props nbprop) (execution.state time)) ↔
      execution.Meets (Recoverable enabled (props nbprop)) := by
  apply Execution.forall_iff_meets
  · exact ⟨fun _ => .inl rfl, fun injected => absurd rfl injected⟩
  · intro time event taken faithful
    rw [step_eq (execution.step_eq taken)]
    exact faithful_handle_iff (linked_state execution time) faithful event

/-- A device whose native bridge is Houdini. -/
def houdini : Properties :=
  Function.update (fun _ => "") nbprop "libhoudini.so"

/-- The boot completes and the daemon is stopped: the name is lost. -/
theorem not_faithful_stopDaemon :
    ¬ ∀ (enabled : Bool) (props : Properties) (execution : Execution (system enabled props))
      (time : Nat), Faithful (props nbprop) (execution.state time) := by
  intro always
  let execution := Execution.ofLabels (system true houdini)
    [.applyModules, .bootComplete, .stopDaemon] rfl
  have atEnd := (always true houdini execution 3).plain (by decide +kernel)
  revert atEnd
  decide +kernel

end Magisk.Core.Zygisk
