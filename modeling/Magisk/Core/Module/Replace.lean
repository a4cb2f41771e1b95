import Magisk.Core.Module.Overlay

/-!
# Replaced directories

In a directory with a marker nothing is mirrored, and the directories in it are not
built from what was collected: those of the module the marker came from are mounted,
as if they were files of it.
-/

namespace Magisk.Core.Module

open Bytes (utf8)
open List FileTree

variable {children : List (String × FsNode)} {path : Path} {sources : Sources} {worker tree : Tree}
  {node : FsNode} {real : Option Tree} {dir : List String} {mounts : Namespace}

/-- What is mounted for a child of a replaced directory. -/
def standIn (dir : List String) : String × FsNode → String × FsNode
  | (name, .directory _) => (name, .file (dir ++ [name]))
  | child => child

/-- All that is mounted for the children. -/
def standIns (dir : List String) (children : List (String × FsNode)) : List (String × FsNode) :=
  (withoutReplace children).map (standIn dir)

/-- A collected node that is no directory, and whose source is there to be mounted. -/
def Mountable (sources : Sources) : FsNode → Prop
  | .file src => (sources src).isSome
  | .symlink _ | .whiteout => True
  | .magiskLink | .directory _ => False

/-- The children of a replaced directory, all of which can be mounted. -/
structure Marked (sources : Sources) (dir : List String) (children : List (String × FsNode)) :
    Prop where
  marker : replaceDir children = some dir
  distinct : (children.map Prod.fst).Nodup
  mountable : ∀ child ∈ standIns dir children, Mountable sources child.2

theorem standIn_fst (dir : List String) (child : String × FsNode) :
    (standIn dir child).1 = child.1 := by
  obtain ⟨name, node⟩ := child
  cases node <;> rfl

theorem map_fst_standIns (dir : List String) (children : List (String × FsNode)) :
    (standIns dir children).map Prod.fst = (withoutReplace children).map Prod.fst := by
  simp [standIns, standIn_fst]

theorem childNames_standIns (dir : List String) (children : List (String × FsNode)) :
    childNames (standIns dir children) = childNames (withoutReplace children) := by
  simp [childNames, standIns, standIn_fst]

/-- What stands in for a node shows what it is, whatever is real. -/
theorem builds_mountable (mountable : Mountable sources node) (fresh : worker.view path = none) :
    Builds worker (commitTmpfs sources path real worker node) path
      (overlay sources none (some node)) := by
  cases node with
  | file src =>
    obtain ⟨tree, stands⟩ := Option.isSome_iff_exists.mp mountable
    have shown : overlay sources none (some (.file src)) = tree.view := by
      funext rest
      rw [overlay, stands, Option.bind_some]
    rw [commitTmpfs, stands, mountDummy_eq, shown]
    exact builds_put ..
  | symlink target => exact builds_commitTmpfs (.symlink target) (.absent _) (by simp) fresh
  | whiteout => exact builds_commitTmpfs .whiteout (.absent _) (by simp) fresh
  | magiskLink => exact mountable.elim
  | directory inner => exact mountable.elim

/-- Replacing children is committing what stands in for them. -/
theorem replaceChildren_eq (worker : Tree)
    (mountable : ∀ child ∈ standIns dir children, Mountable sources child.2) :
    replaceChildren sources path real dir worker children =
      commitTmpfsChildren sources path real worker (standIns dir children) := by
  induction children generalizing worker with
  | nil => rw [replaceChildren, standIns, withoutReplace, filter_nil, map_nil, commitTmpfsChildren]
  | cons child rest ih =>
    obtain ⟨name, node⟩ := child
    by_cases isMarker : name = replaceName
    · have dropped : standIns dir ((name, node) :: rest) = standIns dir rest := by
        simp [standIns, withoutReplace, isMarker]
      rw [dropped] at mountable ⊢
      rw [← ih worker mountable]
      cases node <;> rw [replaceChildren, if_pos isMarker] <;> simp
    · have kept : standIns dir ((name, node) :: rest) =
          standIn dir (name, node) :: standIns dir rest := by
        simp [standIns, withoutReplace, isMarker]
      rw [kept, forall_mem_cons] at mountable
      rw [kept]
      cases node with
      | directory inner =>
        obtain ⟨tree, stands⟩ := Option.isSome_iff_exists.mp mountable.1
        rw [replaceChildren, if_neg isMarker, standIn, commitTmpfsChildren, if_neg isMarker,
          ih _ mountable.2, commitTmpfs, stands, mountDummy_eq, mountDummy_eq]
      | _ =>
        rw [replaceChildren, if_neg isMarker, standIn, commitTmpfsChildren, if_neg isMarker,
          ih _ mountable.2] <;> simp

theorem Marked.distinct_withoutReplace (marked : Marked sources dir children) :
    ((withoutReplace children).map Prod.fst).Nodup :=
  marked.distinct.sublist (filter_sublist.map Prod.fst)

/-- A replaced directory shows what stands in for its children, and nothing real. -/
theorem Marked.builds (marked : Marked sources dir children) (fresh : worker.view path = none) :
    Builds worker (commitTmpfs sources path real worker (.directory children)) path
      (overlay sources none (some (.directory (standIns dir children)))) := by
  have distinct := map_fst_standIns dir children ▸ marked.distinct_withoutReplace
  have unmarked : replaceName ∉ (standIns dir children).map Prod.fst := by
    simp [map_fst_standIns, withoutReplace]
  rw [commitTmpfs, marked.marker]
  simp only [mkdirs_eq fresh, replaceChildren_eq _ marked.mountable]
  have fills : Fills (worker.put path (.dir [])) (commitTmpfsChildren sources path real
      (worker.put path (.dir [])) (standIns dir children)) path (childNames (standIns dir children))
      fun name rest => overlay sources none (some (.directory (standIns dir children)))
        (name :: rest) := by
    apply fills_commitTmpfsChildren distinct unmarked
    · intro name node mem _ _ isFresh
      rw [funext (overlay_of_mem_children distinct mem)]
      exact builds_mountable (marked.mountable _ mem) isFresh
    · exact fun name _ => view_put_dir_entry worker path name []
  refine (builds_put worker (.dir []) path).trans (fills.builds (view_put_dir worker path) ?_ ?_)
  · rw [overlay]
  · intro name absent rest
    rw [overlay, findChild_eq_none absent, view_put_dir_entry, overlay]
    rfl

theorem Marked.view_commit (marked : Marked sources dir children)
    (found : mounts.real.get path = some tree) (fresh : mounts.worker.get path = none)
    (rest : Path) :
    (commit sources false path mounts (.directory children)).real.view (path ++ rest) =
      overlay sources none (some (.directory (standIns dir children))) rest := by
  have builds : Builds mounts.worker (commitTmpfs sources path (some tree) _ _) path _ :=
    marked.builds (Tree.view_eq_none_iff.mpr fresh)
  have shown := builds.inside []
  rw [append_nil] at shown
  obtain ⟨built, isBuilt, -⟩ := Option.map_eq_some_iff.mp shown
  have rebuilt : children.any fun child => needsTmpfs mounts.real path child.1 child.2 := by
    have marker := marked.marker
    unfold replaceDir at marker
    split at marker
    · rename_i src isMarker
      exact any_eq_true.mpr ⟨_, mem_of_find_eq_some isMarker, rfl⟩
    · cases marker
  rw [commit, if_pos (by simpa using rebuilt)]
  simp only [found, isBuilt, bindMount_eq found]
  rw [Tree.view_put_append, ← builds.inside rest, Tree.view_append isBuilt]

/-- The directories that were collected are as they are in the module of the marker. -/
def OfMarker (sources : Sources) (dir : List String) (children : List (String × FsNode)) : Prop :=
  ∀ name inner, (name, .directory inner) ∈ withoutReplace children → ∀ rest,
    (sources (dir ++ [name])).bind (fun tree => tree.view rest) =
      overlay sources none (some (.directory inner)) rest

theorem Marked.overlay_standIns_iff (marked : Marked sources dir children) :
    (∀ rest, overlay sources none (some (.directory (standIns dir children))) rest =
        overlay sources none (some (.directory (withoutReplace children))) rest) ↔
      OfMarker sources dir children := by
  have distinct := marked.distinct_withoutReplace
  have stands {name : String} {node : FsNode} (mem : (name, node) ∈ withoutReplace children)
      (rest : Path) : overlay sources none (some (.directory (standIns dir children)))
        (utf8 name :: rest) = overlay sources none (some (standIn dir (name, node)).2) rest := by
    have named : standIn dir (name, node) = (name, (standIn dir (name, node)).2) := by
      cases node <;> rfl
    exact overlay_of_mem_children (map_fst_standIns dir children ▸ distinct)
      (named ▸ mem_map_of_mem mem) rest
  constructor
  · intro shown name inner mem rest
    have below := shown (utf8 name :: rest)
    rw [stands mem, overlay_of_mem_children distinct mem, standIn, overlay] at below
    exact below
  · intro collected rest
    cases rest with
    | nil => rw [overlay, overlay]
    | cons name rest =>
      by_cases mem : name ∈ childNames (withoutReplace children)
      · obtain ⟨⟨name, node⟩, isChild, rfl⟩ := mem_map.mp mem
        rw [stands isChild, overlay_of_mem_children distinct isChild]
        cases node with
        | directory inner =>
          rw [standIn, overlay]
          exact collected name inner isChild rest
        | _ => rfl
      · rw [overlay, overlay, findChild_eq_none mem,
          findChild_eq_none (childNames_standIns dir children ▸ mem)]

/-- A replaced directory, in a directory that is rebuilt or by itself, shows exactly what was
collected in it, exactly if the directories in it are as in the module of the marker. -/
theorem view_commit_marked_iff (marked : Marked sources dir children)
    (fresh : mounts.worker.get path = none) :
    (∀ real, (∀ rest, (commitTmpfs sources path real mounts.worker (.directory children)).view
          (path ++ rest) =
          overlay sources none (some (.directory (withoutReplace children))) rest) ↔
        OfMarker sources dir children) ∧
      ∀ tree, mounts.real.get path = some tree →
        ((∀ rest, (commit sources false path mounts (.directory children)).real.view
            (path ++ rest) =
            overlay sources none (some (.directory (withoutReplace children))) rest) ↔
          OfMarker sources dir children) := by
  constructor
  · intro real
    simp only [(marked.builds (Tree.view_eq_none_iff.mpr fresh)).inside]
    exact marked.overlay_standIns_iff
  · intro tree found
    simp only [marked.view_commit found fresh]
    exact marked.overlay_standIns_iff

/-- One module replaces a directory and has a file further down, another one has a file
beside it. -/
def twoModules : List (String × FsNode) :=
  [(replaceName, .file ["a", "d", replaceName]),
    ("s", .directory [("x", .file ["b", "d", "s", "x"]), ("y", .file ["a", "d", "s", "y"])])]

/-- The directory of the first module, and files. -/
def twoSources : Sources := fun src =>
  if src = ["a", "d", "s"] then some (.dir [(utf8 "y", .leaf (.file [1]))])
  else some (.leaf (.file [2]))

/-- An empty directory. -/
def twoMounts : Namespace :=
  ⟨.dir [(utf8 "d", .dir [])], .dir []⟩

theorem marked_twoModules : Marked twoSources ["a", "d"] twoModules := by
  refine ⟨by decide, by decide, fun child mem => ?_⟩
  cases mem_singleton.mp mem
  rfl

/-- The directory is not collected as it is in the first module. -/
theorem view_commit_marked_iff_twoModules :
    Marked twoSources ["a", "d"] twoModules ∧ ¬ OfMarker twoSources ["a", "d"] twoModules := by
  refine ⟨marked_twoModules, fun same => ?_⟩
  have shown : (commit twoSources false [utf8 "d"] twoMounts (.directory twoModules)).real.view
      ([utf8 "d"] ++ [utf8 "s", utf8 "x"]) = _ :=
    ((view_commit_marked_iff marked_twoModules rfl).2 _ rfl).mpr same [utf8 "s", utf8 "x"]
  revert shown
  decide +kernel

/-- The file of the other module is not shown. -/
theorem view_commit_twoModules :
    (commit twoSources false [utf8 "d"] twoMounts (.directory twoModules)).real.view
        ([utf8 "d"] ++ [utf8 "s", utf8 "x"]) = none ∧
      overlay twoSources none (some (.directory (withoutReplace twoModules)))
        [utf8 "s", utf8 "x"] = some (.leaf (.file [2])) := by
  decide +kernel

end Magisk.Core.Module
