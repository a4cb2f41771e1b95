import Magisk.Core.Deny.Data

/-!
# What all requests keep

A property of the tables that every single operation on them keeps is kept by
every request.
-/

namespace Magisk.Core.Deny

open Interleaving.Program Interleaving

/-- A property that the operations on the tables keep. -/
structure Closed (holds : DenyData → Prop) : Prop where
  record : ∀ {data appId} (view : View), 0 < appId → holds data → holds (data.record appId view)
  forget : ∀ {data} (appId : Int) (text : String), holds data → holds (data.forget appId text)
  emplace : ∀ {data pkg proc}, data.lists pkg proc = false → holds data →
    holds (data.emplace pkg proc)
  erase : ∀ {data} (pkg : String), holds data → holds (data.erase pkg)
  eraseProc : ∀ {data} (pkg proc : String), holds data → holds (data.eraseProc pkg proc)
  newPackages : ∀ {data}, holds data → holds { data with pkgToProcs := some [] }
  newIndex : ∀ {data}, holds data → holds { data with appIdToPkgs := some [] }
  clear : ∀ {data}, holds data → holds { data with pkgToProcs := none, appIdToPkgs := none }

namespace Closed

variable {holds : DenyData → Prop}

section

variable (closed : Closed holds)

include closed

theorem stable_updateAppId (appId : Int) (view : View) (remove : Bool) :
    (updateAppId appId view remove).Stable holds := by
  rw [updateAppId]
  by_cases none : appId ≤ 0
  · rw [if_pos none]
    exact trivial
  · rw [if_neg none]
    cases remove with
    | true => exact stable_change fun data before => closed.forget appId view.text before
    | false =>
      exact stable_change fun data before => closed.record view (Int.not_le.mp none) before

theorem stable_addHideSet (pkg proc : String) : (addHideSet pkg proc).Stable holds := by
  refine ⟨fun data before => ?_, fun _ => trivial⟩
  dsimp only
  split
  · exact before
  · rename_i unlisted
    exact closed.emplace (Bool.eq_false_of_not_eq_true unlisted) before

theorem stable_scanLoop (dir : DataDir) (packages : List Package) :
    (scanLoop dir packages).Stable holds := by
  induction packages with
  | nil => exact trivial
  | cons package rest ih =>
    rw [scanLoop]
    split
    · exact ih
    · split
      · apply Program.Stable.bind
        · exact stable_change fun _ before => closed.erase package.name before
        · exact fun _ => ih.bind fun _ => trivial
      · exact (closed.stable_updateAppId _ _ _).bind fun _ => ih

theorem stable_scanDenyApps (dir : DataDir) : (scanDenyApps dir).Stable holds := by
  refine (stable_look _ _).bind fun index => ?_
  split
  · exact trivial
  · apply Program.Stable.bind
    · exact stable_change fun _ before => closed.newIndex before
    · exact fun _ => (stable_look _ _).bind fun packages => closed.stable_scanLoop dir packages

theorem stable_addRows (rows : List (String × String)) : (addRows rows).Stable holds := by
  induction rows with
  | nil => exact trivial
  | cons row rows ih => exact (closed.stable_addHideSet row.1 row.2).bind fun _ => ih

theorem stable_ensureData (load : Load) : (ensureData load).Stable holds := by
  refine (stable_look _ _).bind fun packages => ?_
  split
  · exact trivial
  · apply Program.Stable.bind
    · exact stable_change fun _ before => closed.newPackages before
    · refine fun _ => (closed.stable_addRows load.rows).bind fun _ => ?_
      split
      · apply Program.Stable.bind
        · exact stable_change fun _ before => closed.newIndex before
        · exact fun _ => (closed.stable_scanDenyApps load.dir).bind fun _ => trivial
      · apply Program.Stable.bind
        · exact stable_change fun _ before => closed.clear before
        · exact fun _ => trivial

theorem stable_rmPackage (package : Package) (dir : DataDir) :
    (rmPackage package dir).Stable holds := by
  apply (closed.stable_updateAppId _ _ _).bind
  exact fun _ => stable_change fun _ before => closed.erase package.name before

end

theorem stable_acquire : (acquire : DenyProgram Unit).Stable holds := trivial

theorem stable_leave (removed : List String) (outcome : Outcome) :
    (leave removed outcome).Stable holds :=
  trivial

theorem stable_addItem (closed : Closed holds) (pkg proc : String) (load : Load) (dir : DataDir) :
    (addItem pkg proc load dir).Stable holds := by
  refine stable_acquire.bind fun _ => (closed.stable_ensureData load).bind fun result => ?_
  dsimp only
  split
  · split
    · exact stable_leave ..
    · refine (closed.stable_addHideSet _ _).bind fun added => ?_
      split
      · refine (stable_look _ _).bind fun found => ?_
        split
        · exact (closed.stable_updateAppId _ _ _).bind fun _ => stable_leave ..
        · exact stable_leave ..
      · exact stable_leave ..
  · exact stable_leave ..

/-- Every request keeps the property. -/
theorem stable_program (closed : Closed holds) (request : Request) :
    (program request).Stable holds := by
  cases request with
  | addList pkg proc load dir =>
    change (addList pkg proc load dir).Stable holds
    rw [addList]
    split
    · exact closed.stable_addItem pkg _ load dir
    · exact trivial
  | rmList pkg proc load dir =>
    refine stable_acquire.bind fun _ => (closed.stable_ensureData load).bind fun result => ?_
    dsimp only
    split
    · refine (stable_look _ _).bind fun found => ?_
      split
      · exact stable_leave ..
      · split
        · exact (closed.stable_rmPackage _ dir).bind fun _ => stable_leave ..
        · split
          · apply Program.Stable.bind
            · exact stable_change fun _ before => closed.eraseProc pkg proc before
            · intro _
              split
              · exact (closed.stable_rmPackage _ dir).bind fun _ => stable_leave ..
              · exact stable_leave ..
          · exact stable_leave ..
    · exact stable_leave ..
  | lsList load dir =>
    refine stable_acquire.bind fun _ => (closed.stable_ensureData load).bind fun result => ?_
    dsimp only
    split
    · refine (closed.stable_scanDenyApps dir).bind fun dropped => ?_
      exact (stable_look _ _).bind fun _ => stable_leave ..
    · exact stable_leave ..
  | enableDeny enforced mntNs procfs load =>
    change (enableDeny enforced mntNs procfs load).Stable holds
    rw [enableDeny]
    split
    · exact trivial
    · refine stable_acquire.bind fun _ => ?_
      split
      · split
        · exact (closed.stable_ensureData load).bind fun result => stable_leave ..
        · exact stable_leave ..
      · exact stable_leave ..
  | isDenyTarget uid process load =>
    refine stable_acquire.bind fun _ => (closed.stable_ensureData load).bind fun result => ?_
    dsimp only
    split
    · exact (stable_look _ _).bind fun found => stable_leave ..
    · exact stable_leave ..
  | zygoteRestart dir => exact (closed.stable_scanDenyApps dir).bind fun _ => trivial

end Closed

end Magisk.Core.Deny
