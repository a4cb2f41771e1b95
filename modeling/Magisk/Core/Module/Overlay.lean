import Magisk.Core.Module.Mount
import Magisk.FileTree.Build

/-!
# Mounting shows an overlay

What a mounted directory should show is said path by path, without mounts and
worker directories.  Committing a collected tree over a real directory shows
exactly that, at every depth, and leaves the rest of the real tree alone.
-/

namespace Magisk.Core.Module

open Bytes (utf8 fromUtf8 fromUtf8_utf8 utf8_injective)
open List FileTree

variable {children : List (String × FsNode)} {path : Path} {sources : Sources} {tree worker : Tree}
  {node : FsNode} {name : List UInt8} {real : Option Tree} {entries : List (List UInt8 × Tree)}
  {shows : List UInt8 → Path → Option (Kind Leaf)} {mounts : Namespace}

/-! ## The overlay -/

/-- The child of a name. -/
def findChild (name : List UInt8) (children : List (String × FsNode)) : Option FsNode :=
  FileTree.find name (children.map fun child => (utf8 child.1, child.2))

/-- What a path shows when a virtual node lies over a real one. -/
def overlay (sources : Sources) : Option Tree → Option FsNode → Path → Option (Kind Leaf)
  | real, none, path => real.bind fun tree => tree.view path
  | _, some (.file src), path => (sources src).bind fun tree => tree.view path
  | _, some (.symlink target), path => Tree.view (.leaf (.symlink (utf8 target))) path
  | _, some .magiskLink, _ => none
  | _, some .whiteout, _ => none
  | _, some (.directory _), [] => some .directory
  | real, some (.directory children), name :: path =>
    overlay sources (real.bind fun tree => tree.get [name]) (findChild name children) path

/-- A tree as `collect` builds it, without markers: the names in a directory are
distinct, and a file is a file of a module. -/
inductive Collected (sources : Sources) : FsNode → Prop
  | file {src : List String} (content : List UInt8)
      (stands : sources src = some (.leaf (.file content))) : Collected sources (.file src)
  | symlink (target : String) : Collected sources (.symlink target)
  | whiteout : Collected sources .whiteout
  | directory {children : List (String × FsNode)} (distinct : (children.map Prod.fst).Nodup)
      (unmarked : replaceName ∉ children.map Prod.fst)
      (each : ∀ name node, (name, node) ∈ children → Collected sources node) :
      Collected sources (.directory children)

/-- No name is a directory in one tree and something else in the other. -/
inductive Compatible : Option Tree → FsNode → Prop
  | absent (node : FsNode) : Compatible none node
  | leaf (value : Leaf) {node : FsNode} (notDirectory : ∀ children, node ≠ .directory children) :
      Compatible (some (.leaf value)) node
  | directory {entries : List (List UInt8 × Tree)} {children : List (String × FsNode)}
      (each : ∀ name node, (name, node) ∈ children →
        Compatible (FileTree.find (utf8 name) entries) node) :
      Compatible (some (.dir entries)) (.directory children)

/-- A real tree whose names and link targets are UTF-8. -/
inductive Utf8Tree : Tree → Prop
  | file (content : List UInt8) : Utf8Tree (.leaf (.file content))
  | symlink {target : List UInt8} (valid : (fromUtf8 target).isSome) :
      Utf8Tree (.leaf (.symlink target))
  | dir {entries : List (List UInt8 × Tree)} (distinct : (entries.map Prod.fst).Nodup)
      (valid : ∀ name node, (name, node) ∈ entries → (fromUtf8 name).isSome)
      (each : ∀ name node, (name, node) ∈ entries → Utf8Tree node) : Utf8Tree (.dir entries)

/-! ## Calls -/

theorem mountDummy_eq (tree : Tree) (path : Path) (src : Tree) (isDir : Bool) :
    mountDummy tree path (some src) isDir = tree.put path src := by
  cases found : tree.get path with
  | some node => cases isDir <;> simp [mountDummy, mkdirs, create, bindMount, found]
  | none =>
    cases isDir <;>
      simp [mountDummy, mkdirs, create, bindMount, found, Tree.get_put_self, Tree.put_put]

theorem mkdirs_eq (fresh : tree.view path = none) : mkdirs tree path = tree.put path (.dir []) := by
  rw [mkdirs, Tree.view_eq_none_iff.mp fresh]

theorem readLink_eq {target : List UInt8} (valid : (fromUtf8 target).isSome) :
    readLink target = target := by
  obtain ⟨text, decoded⟩ := Option.isSome_iff_exists.mp valid
  rw [readLink, decoded]

/-! ## Mirroring -/

/-- Mirroring entries fills a directory with them. -/
theorem fills_mirrorEntries (distinct : (entries.map Prod.fst).Nodup)
    (valid : ∀ name node, (name, node) ∈ entries → (fromUtf8 name).isSome)
    (builds : ∀ name node, (name, node) ∈ entries → ∀ {path : Path} {worker : Tree},
      worker.view path = none → Builds worker (mirrorNode path worker node) path node.view)
    (matching : ∀ name node, (name, node) ∈ entries → shows name = node.view)
    (fresh : ∀ name ∈ entries.map Prod.fst, worker.view (path ++ [name]) = none) :
    Fills worker (mirrorEntries path worker entries) path (entries.map Prod.fst) shows := by
  induction entries generalizing worker with
  | nil => exact fills_nil worker path shows
  | cons entry rest ih =>
    rcases entry with ⟨name, node⟩
    obtain ⟨text, decoded⟩ := Option.isSome_iff_exists.mp (valid name node mem_cons_self)
    rw [map_cons, nodup_cons] at distinct
    have first := builds name node mem_cons_self (fresh name mem_cons_self)
    rw [← matching name node mem_cons_self] at first
    simp only [mirrorEntries, decoded]
    apply first.fills_cons ?_ distinct.1
    apply ih distinct.2
    · exact fun name node mem => valid name node (mem_cons_of_mem _ mem)
    · exact fun name node mem => builds name node (mem_cons_of_mem _ mem)
    · exact fun name node mem => matching name node (mem_cons_of_mem _ mem)
    · intro other mem
      have different : name ≠ other := fun equal => distinct.1 (equal ▸ mem)
      rw [first.view_beside (beside_of_ne path different [])]
      exact fresh other (mem_cons_of_mem _ mem)

theorem view_put_dir (tree : Tree) (path : Path) :
    (tree.put path (.dir [])).view path = some .directory := by
  rw [Tree.view, Tree.get_put_self]
  rfl

/-- A new directory is empty. -/
theorem view_put_dir_entry (tree : Tree) (path : Path) (name : List UInt8) (rest : Path) :
    (tree.put path (.dir [])).view (path ++ name :: rest) = none :=
  tree.view_put_append (.dir []) path (name :: rest)

theorem view_dir_cons (name : List UInt8) (rest : Path) : Tree.view (.dir entries) (name :: rest) =
      (FileTree.find name entries).bind fun node => node.view rest := by
  rw [Tree.view, Tree.get_cons, Tree.entries]
  cases FileTree.find name entries <;> rfl

/-- Mirroring a node shows the node. -/
theorem builds_mirrorNode {node : Tree} (utf8Tree : Utf8Tree node)
    (fresh : worker.view path = none) :
    Builds worker (mirrorNode path worker node) path node.view := by
  induction utf8Tree generalizing path worker with
  | file content =>
    rw [mirrorNode, mountDummy_eq]
    exact builds_put _ _ _
  | symlink valid =>
    rw [mirrorNode, readLink_eq valid]
    exact builds_put _ _ _
  | dir distinct valid each ih =>
    rename_i entries
    rw [mirrorNode, mkdirs_eq fresh]
    have fills : Fills (worker.put path (.dir []))
        (mirrorEntries path (worker.put path (.dir [])) entries) path (entries.map Prod.fst)
        fun name rest => Tree.view (.dir entries) (name :: rest) := by
      apply fills_mirrorEntries distinct valid ih
      · intro name node mem
        funext rest
        rw [view_dir_cons, find_eq_some_of_mem distinct mem, Option.bind_some]
      · intro name _
        exact view_put_dir_entry worker path name []
    apply (builds_put worker (.dir []) path).trans (fills.builds (view_put_dir worker path) rfl ?_)
    intro name absent rest
    rw [view_put_dir_entry, view_dir_cons, find_eq_none_of_notMem absent, Option.bind_none]

/-! ## Rebuilding -/

theorem get_singleton (entries : List (List UInt8 × Tree)) (name : List UInt8) :
    FileTree.Tree.get (.dir entries) [name] = FileTree.find name entries := by
  rw [Tree.get_cons, Tree.entries]
  cases found : FileTree.find name entries with
  | none => rfl
  | some node => rw [Option.bind_some, Tree.get_nil]

/-- The byte names of children. -/
def childNames (children : List (String × FsNode)) : Path :=
  children.map fun child => utf8 child.1

theorem nodup_childNames (distinct : (children.map Prod.fst).Nodup) :
    (childNames children).Nodup := by
  have mapped := distinct.map utf8_injective
  rwa [map_map] at mapped

theorem findChild_of_mem (distinct : (children.map Prod.fst).Nodup) {name : String}
    (mem : (name, node) ∈ children) : findChild (utf8 name) children = some node := by
  apply find_eq_some_of_mem
  · rw [map_map]
    exact nodup_childNames distinct
  · exact mem_map.mpr ⟨(name, node), mem, rfl⟩

theorem findChild_eq_none (absent : name ∉ childNames children) :
    findChild name children = none := by
  apply find_eq_none_of_notMem
  rw [map_map]
  exact absent

/-- Committing children fills a directory with them. -/
theorem fills_commitTmpfsChildren (distinct : (children.map Prod.fst).Nodup)
    (unmarked : replaceName ∉ children.map Prod.fst)
    (builds : ∀ name node, (name, node) ∈ children → ∀ {path : Path} {worker : Tree},
      worker.view path = none →
      Builds worker (commitTmpfs sources path (real.bind fun tree => tree.get [utf8 name]) worker
        node) path (shows (utf8 name)))
    (fresh : ∀ name ∈ childNames children, worker.view (path ++ [name]) = none) :
    Fills worker (commitTmpfsChildren sources path real worker children) path
      (childNames children) shows := by
  induction children generalizing worker with
  | nil => exact fills_nil worker path shows
  | cons child rest ih =>
    rcases child with ⟨name, node⟩
    have names := nodup_childNames distinct
    rw [childNames, map_cons, nodup_cons] at names
    rw [map_cons, nodup_cons] at distinct
    rw [map_cons, mem_cons, not_or] at unmarked
    have first := builds name node mem_cons_self (fresh (utf8 name) mem_cons_self)
    rw [commitTmpfsChildren, if_neg (Ne.symm unmarked.1), childNames]
    apply first.fills_cons ?_ names.1
    apply ih distinct.2 unmarked.2
    · exact fun name node mem => builds name node (mem_cons_of_mem _ mem)
    · intro other mem
      have different : utf8 name ≠ other := fun equal => names.1 (equal ▸ mem)
      rw [first.view_beside (beside_of_ne path different [])]
      exact fresh other (mem_cons_of_mem _ mem)

section

variable (unmarked : replaceName ∉ children.map Prod.fst)

include unmarked

theorem withoutReplace_eq_self : withoutReplace children = children := by
  apply filter_eq_self.mpr
  intro child mem
  have different : child.1 ≠ replaceName := by
    intro equal
    exact unmarked (equal ▸ mem_map_of_mem mem)
  simp [different]

theorem replaceDir_eq_none :
    replaceDir children = none := by
  rw [replaceDir, find_eq_none_of_notMem unmarked]

/-- The entries to mirror are those that no child is named after. -/
theorem mem_unclaimed_iff {entry : List UInt8 × Tree} :
    entry ∈ unclaimed children (some (.dir entries)) ↔
      entry ∈ entries ∧ entry.1 ∉ childNames children := by
  rw [unclaimed, withoutReplace_eq_self unmarked, mem_filter, decide_eq_true_iff, childNames,
    mem_map]
  constructor
  · rintro ⟨mem, unnamed⟩
    refine ⟨mem, ?_⟩
    rintro ⟨child, childMem, equal⟩
    exact unnamed child childMem equal
  · rintro ⟨mem, unnamed⟩
    exact ⟨mem, fun child childMem equal => unnamed ⟨child, childMem, equal⟩⟩

/-- Entries that no child stands for are shown as they are. -/
theorem overlay_of_mem_unclaimed (distinct : (entries.map Prod.fst).Nodup) {node : Tree}
    (mem : (name, node) ∈ unclaimed children (some (.dir entries))) (rest : Path) :
    overlay sources (some (.dir entries)) (some (.directory children)) (name :: rest) =
      node.view rest := by
  obtain ⟨isEntry, unnamed⟩ := (mem_unclaimed_iff unmarked).mp mem
  rw [overlay, findChild_eq_none unnamed, Option.bind_some, get_singleton,
    find_eq_some_of_mem distinct isEntry, overlay, Option.bind_some]

end

theorem overlay_of_mem_children (distinct : (children.map Prod.fst).Nodup) {name : String}
    (mem : (name, node) ∈ children) (rest : Path) :
    overlay sources real (some (.directory children)) (utf8 name :: rest) =
      overlay sources (real.bind fun tree => tree.get [utf8 name]) (some node) rest := by
  rw [overlay, findChild_of_mem distinct mem]

/-- What is mirrored into a rebuilt directory. -/
structure Mirrors (sources : Sources) (real : Option Tree) (children : List (String × FsNode))
    (entries : List (List UInt8 × Tree)) : Prop where
  distinct : (entries.map Prod.fst).Nodup
  valid : ∀ name node, (name, node) ∈ entries → (fromUtf8 name).isSome
  utf8Tree : ∀ name node, (name, node) ∈ entries → Utf8Tree node
  unnamed : ∀ name ∈ entries.map Prod.fst, name ∉ childNames children
  shown : ∀ name node, (name, node) ∈ entries → ∀ rest,
    overlay sources real (some (.directory children)) (name :: rest) = node.view rest
  nothing : ∀ name, name ∉ entries.map Prod.fst → name ∉ childNames children → ∀ rest,
    overlay sources real (some (.directory children)) (name :: rest) = none

/-- The entries that no child stands for are what has to be mirrored. -/
theorem mirrors_unclaimed (unmarked : replaceName ∉ children.map Prod.fst)
    (compatible : Compatible real (.directory children))
    (utf8Real : ∀ tree, real = some tree → Utf8Tree tree) :
    Mirrors sources real children (unclaimed children real) := by
  cases compatible with
  | absent =>
    refine ⟨nodup_nil, ?_, ?_, ?_, ?_, ?_⟩
    · exact fun _ _ mem => absurd mem not_mem_nil
    · exact fun _ _ mem => absurd mem not_mem_nil
    · exact fun _ mem => absurd mem not_mem_nil
    · exact fun _ _ mem => absurd mem not_mem_nil
    · intro name _ unnamed rest
      rw [overlay, findChild_eq_none unnamed, Option.bind_none, overlay, Option.bind_none]
  | leaf value notDirectory => exact absurd rfl (notDirectory children)
  | @directory entries _ eachCompatible =>
    cases utf8Real _ rfl with
    | dir distinct valid each =>
      have isEntry : ∀ name node, (name, node) ∈ unclaimed children (some (.dir entries)) →
          (name, node) ∈ entries :=
        fun name node mem => ((mem_unclaimed_iff unmarked).mp mem).1
      refine ⟨?_, ?_, ?_, ?_, ?_, ?_⟩
      · exact distinct.sublist (filter_sublist.map _)
      · exact fun name node mem => valid name node (isEntry name node mem)
      · exact fun name node mem => each name node (isEntry name node mem)
      · intro name mem
        obtain ⟨entry, entryMem, rfl⟩ := mem_map.mp mem
        exact ((mem_unclaimed_iff unmarked).mp entryMem).2
      · exact fun name node mem => overlay_of_mem_unclaimed unmarked distinct mem
      · intro name notMirrored unnamed rest
        have absent : FileTree.find name entries = none := by
          apply find_eq_none_of_notMem
          intro mem
          obtain ⟨entry, entryMem, rfl⟩ := mem_map.mp mem
          exact notMirrored (mem_map_of_mem ((mem_unclaimed_iff unmarked).mpr ⟨entryMem, unnamed⟩))
        rw [overlay, findChild_eq_none unnamed, Option.bind_some, get_singleton, absent, overlay,
          Option.bind_none]

/-- What stands below a compatible directory is compatible with the child there. -/
theorem Compatible.child (compatible : Compatible real (.directory children)) {name : String}
    (mem : (name, node) ∈ children) :
    Compatible (real.bind fun tree => tree.get [utf8 name]) node := by
  cases compatible with
  | absent => exact .absent node
  | leaf value notDirectory => exact absurd rfl (notDirectory children)
  | directory each =>
    rw [Option.bind_some, get_singleton]
    exact each name node mem

theorem Utf8Tree.get_singleton {child : Tree} (utf8Tree : Utf8Tree tree)
    (found : tree.get [name] = some child) : Utf8Tree child := by
  cases utf8Tree with
  | file content => cases found
  | symlink valid => cases found
  | dir distinct valid each =>
    rw [Module.get_singleton] at found
    exact each name child (mem_of_find_eq_some found)

/-- A rebuilt node shows the overlay. -/
theorem builds_commitTmpfs (collected : Collected sources node) (compatible : Compatible real node)
    (utf8Real : ∀ tree, real = some tree → Utf8Tree tree) (fresh : worker.view path = none) :
    Builds worker (commitTmpfs sources path real worker node) path
      (overlay sources real (some node)) := by
  induction collected generalizing real path worker with
  | @file src content stands =>
    have shown : overlay sources real (some (.file src)) = Tree.view (.leaf (.file content)) := by
      funext rest
      rw [overlay, stands, Option.bind_some]
    rw [commitTmpfs, stands, mountDummy_eq, shown]
    exact builds_put _ _ _
  | symlink target =>
    have shown : overlay sources real (some (.symlink target)) =
        Tree.view (.leaf (.symlink (utf8 target))) := by
      funext rest
      rw [overlay]
    rw [shown]
    exact builds_put _ _ _
  | whiteout =>
    rw [commitTmpfs]
    refine ⟨?_, fun _ _ => rfl, fun _ _ _ isDirectory => isDirectory⟩
    intro rest
    rw [overlay, Tree.view, Tree.get_append, Tree.view_eq_none_iff.mp fresh]
    rfl
  | @directory children distinct unmarked each ih =>
    have mirrors : Mirrors sources real children (unclaimed children real) :=
      mirrors_unclaimed unmarked compatible utf8Real
    rw [commitTmpfs, replaceDir_eq_none unmarked]
    simp only [mkdirs_eq fresh]
    have mirrored : Fills (worker.put path (.dir []))
        (mirrorEntries path (worker.put path (.dir [])) (unclaimed children real)) path
        ((unclaimed children real).map Prod.fst)
        fun name rest => overlay sources real (some (.directory children)) (name :: rest) := by
      apply fills_mirrorEntries mirrors.distinct mirrors.valid
      · intro name node mem _ _ isFresh
        exact builds_mirrorNode (mirrors.utf8Tree name node mem) isFresh
      · intro name node mem
        exact funext (mirrors.shown name node mem)
      · intro name _
        exact view_put_dir_entry worker path name []
    have committed : Fills
        (mirrorEntries path (worker.put path (.dir [])) (unclaimed children real))
        (commitTmpfsChildren sources path real
          (mirrorEntries path (worker.put path (.dir [])) (unclaimed children real)) children)
        path (childNames children)
        fun name rest => overlay sources real (some (.directory children)) (name :: rest) := by
      apply fills_commitTmpfsChildren distinct unmarked
      · intro name node mem childPath childWorker isFresh
        rw [funext (overlay_of_mem_children distinct mem)]
        apply ih name node mem (compatible.child mem) ?_ isFresh
        intro child found
        obtain ⟨tree, isReal, isChild⟩ := Option.bind_eq_some_iff.mp found
        exact (utf8Real tree isReal).get_singleton isChild
      · intro name mem
        have notMirrored : name ∉ (unclaimed children real).map Prod.fst :=
          fun isMirrored => mirrors.unnamed name isMirrored mem
        rw [mirrored.view_outside notMirrored []]
        exact view_put_dir_entry worker path name []
    have filled := mirrored.append committed mirrors.unnamed
    apply (builds_put worker (.dir []) path).trans (filled.builds (view_put_dir worker path) ?_ ?_)
    · rw [overlay]
    · intro name absent rest
      rw [mem_append, not_or] at absent
      rw [mirrors.nothing name absent.1 absent.2, view_put_dir_entry]

/-! ## Committing -/

/-- A commit changes what is seen below its path, and the worker directory there. -/
structure Commits (before after : Namespace) (path : Path)
    (shows : Path → Option (Kind Leaf)) : Prop where
  real : Builds before.real after.real path shows
  worker : ∀ other, Beside path other → after.worker.get other = before.worker.get other

/-- Commits of the entries of a directory. -/
structure CommitsAll (before after : Namespace) (path : Path) (names : Path)
    (shows : List UInt8 → Path → Option (Kind Leaf)) : Prop where
  real : Fills before.real after.real path names shows
  worker : ∀ other, (∀ name ∈ names, ¬ path ++ [name] <+: other) → ¬ other <+: path →
    after.worker.get other = before.worker.get other

theorem Commits.cons {before middle after : Namespace} {names : Path}
    (commits : Commits before middle (path ++ [name]) (shows name))
    (more : CommitsAll middle after path names shows) (absent : name ∉ names) :
    CommitsAll before after path (name :: names) shows := by
  refine ⟨commits.real.fills_cons more.real absent, ?_⟩
  intro other notBelow notAbove
  rw [more.worker other (fun name mem => notBelow name (mem_cons_of_mem _ mem)) notAbove]
  apply commits.worker
  refine ⟨notBelow name mem_cons_self, ?_⟩
  intro above
  apply notAbove
  apply above_of_above_entry above
  rintro rfl
  exact notBelow name mem_cons_self (prefix_refl _)

/-- What a child of a directory that is not rebuilt finds at its path. -/
structure Ready (mounts : Namespace) (path : Path) (tree : Tree) (node : FsNode) : Prop where
  found : mounts.real.get path = some tree
  fresh : mounts.worker.get path = none
  compatible : Compatible (some tree) node
  utf8Tree : Utf8Tree tree
  stays : node.parentShouldBeTmpfs (some tree) = false

/-- Committing the children one after the other. -/
theorem commitsAll_commitChildren (distinct : (children.map Prod.fst).Nodup) {before : Tree}
    {trees : String → Tree}
    (commits : ∀ name node, (name, node) ∈ children → ∀ {mounts : Namespace},
      Ready mounts (path ++ [utf8 name]) (trees name) node →
      Commits mounts (commit sources false (path ++ [utf8 name]) mounts node)
        (path ++ [utf8 name]) (shows (utf8 name))) (ready : ∀ name node, (name, node) ∈ children →
      Ready mounts (path ++ [utf8 name]) (trees name) node) :
    CommitsAll mounts (commitChildren sources false path before mounts children) path
      (childNames children) shows := by
  induction children generalizing mounts with
  | nil => exact ⟨fills_nil mounts.real path shows, fun _ _ _ => rfl⟩
  | cons child rest ih =>
    rcases child with ⟨name, node⟩
    have names := nodup_childNames distinct
    rw [childNames, map_cons, nodup_cons] at names
    rw [map_cons, nodup_cons] at distinct
    have first := commits name node mem_cons_self (ready name node mem_cons_self)
    apply first.cons ?_ names.1
    apply ih distinct.2
    · exact fun name node mem => commits name node (mem_cons_of_mem _ mem)
    · intro other node' mem
      have otherReady := ready other node' (mem_cons_of_mem _ mem)
      have different : utf8 name ≠ utf8 other := by
        intro equal
        apply names.1
        rw [equal]
        exact mem_map.mpr ⟨(other, node'), mem, rfl⟩
      have beside := beside_of_ne path different []
      exact ⟨(first.real.beside _ beside).trans otherReady.found,
        (first.worker _ beside).trans otherReady.fresh, otherReady.compatible,
        otherReady.utf8Tree, otherReady.stays⟩

/-- A mount over something that exists shows its source. -/
theorem bindMount_eq {node : Tree} (found : tree.get path = some node) (src : Tree) :
    bindMount tree path (some src) = tree.put path src := by
  simp only [bindMount, found]

/-- A rebuilt directory is mounted over the real one. -/
theorem commits_rebuilt (collected : Collected sources (.directory children))
    (found : mounts.real.get path = some tree) (fresh : mounts.worker.get path = none)
    (compatible : Compatible (some tree) (.directory children)) (utf8Tree : Utf8Tree tree) :
    Commits mounts ⟨bindMount mounts.real path
        ((commitTmpfs sources path (some tree) mounts.worker (.directory children)).get path),
        commitTmpfs sources path (some tree) mounts.worker (.directory children)⟩ path
      (overlay sources (some tree) (some (.directory children))) := by
  have utf8Real : ∀ other, some tree = some other → Utf8Tree other := by
    rintro other ⟨⟩
    exact utf8Tree
  have builds := builds_commitTmpfs collected compatible utf8Real (Tree.view_eq_none_iff.mpr fresh)
  have shown := builds.inside []
  rw [append_nil] at shown
  obtain ⟨built, isBuilt, _⟩ := Option.map_eq_some_iff.mp shown
  refine ⟨?_, builds.beside⟩
  simp only [isBuilt, bindMount_eq found]
  have same : overlay sources (some tree) (some (.directory children)) = built.view := by
    funext rest
    rw [← builds.inside rest, Tree.view_append isBuilt]
  rw [same]
  exact builds_put _ _ _

theorem parentShouldBeTmpfs_none (node : FsNode) : node.parentShouldBeTmpfs none = true := by
  cases node <;> rfl

/-- A child that does not make its parent be rebuilt finds something to mount
over. -/
theorem Ready.child (ready : Ready mounts path tree (.directory children)) {name : String}
    (mem : (name, node) ∈ children) (direct : needsTmpfs mounts.real path name node = false) :
    Ready mounts (path ++ [utf8 name]) ((tree.get [utf8 name]).getD (.dir [])) node := by
  have same : mounts.real.get (path ++ [utf8 name]) = tree.get [utf8 name] := by
    rw [Tree.get_append, ready.found, Option.bind_some]
  have compatible := ready.compatible.child mem
  rw [Option.bind_some] at compatible
  rw [needsTmpfs, same, Bool.or_eq_false_iff] at direct
  cases found : tree.get [utf8 name] with
  | none =>
    rw [found, parentShouldBeTmpfs_none] at direct
    cases direct.2
  | some child =>
    rw [found] at compatible direct
    refine ⟨same.trans found, ?_, compatible, ready.utf8Tree.get_singleton found, direct.2⟩
    rw [Tree.get_append, ready.fresh, Option.bind_none]

/-- What the names without a child show. -/
theorem overlay_of_notMem_children (absent : name ∉ childNames children) (rest : Path) :
    overlay sources (some tree) (some (.directory children)) (name :: rest) =
      tree.view (name :: rest) := by
  rw [overlay, findChild_eq_none absent, overlay, Option.bind_some, Tree.view, Tree.get_cons,
    Tree.get_cons]
  cases FileTree.find name tree.entries with
  | none => rfl
  | some child => rw [Option.bind_some, Tree.get_nil, Option.bind_some, Option.bind_some, Tree.view]

/-- Committing a node shows the overlay. -/
theorem commits_commit (collected : Collected sources node) (ready : Ready mounts path tree node) :
    Commits mounts (commit sources false path mounts node) path
      (overlay sources (some tree) (some node)) := by
  induction collected generalizing mounts path tree with
  | @file src content stands =>
    have shown : overlay sources (some tree) (some (.file src)) =
        Tree.view (.leaf (.file content)) := by
      funext rest
      rw [overlay, stands, Option.bind_some]
    rw [commit, stands, bindMount_eq ready.found, shown]
    exact ⟨builds_put _ _ _, fun _ _ => rfl⟩
  | symlink target =>
    have rebuilt := ready.stays
    cases rebuilt
  | whiteout =>
    have rebuilt := ready.stays
    cases rebuilt
  | @directory children distinct unmarked each ih =>
    rw [commit]
    split
    · rw [ready.found]
      exact commits_rebuilt (.directory distinct unmarked each) ready.found ready.fresh
        ready.compatible ready.utf8Tree
    · rename_i direct
      have stands : mounts.real.view path = some .directory := by
        rw [Tree.view, ready.found]
        cases ready.compatible with
        | leaf value notDirectory => exact absurd rfl (notDirectory children)
        | directory _ => rfl
      have childReady : ∀ name node, (name, node) ∈ children →
          Ready mounts (path ++ [utf8 name]) ((tree.get [utf8 name]).getD (.dir [])) node := by
        intro name node mem
        apply ready.child mem
        simp only [Bool.not_false, Bool.true_and, any_eq_true, not_exists, not_and,
          Bool.not_eq_true] at direct
        exact direct (name, node) mem
      have commitsAll : CommitsAll mounts
          (commitChildren sources false path mounts.real mounts children) path
          (childNames children) fun name rest =>
            overlay sources (some tree) (some (.directory children)) (name :: rest) := by
        apply commitsAll_commitChildren distinct ?_ childReady
        intro name node mem mounts' isReady
        have found : tree.get [utf8 name] = some ((tree.get [utf8 name]).getD (.dir [])) := by
          rw [← (childReady name node mem).found, Tree.get_append, ready.found, Option.bind_some]
        rw [funext (overlay_of_mem_children distinct mem), Option.bind_some, found]
        exact ih name node mem isReady
      refine ⟨commitsAll.real.builds stands ?_ ?_, ?_⟩
      · rw [overlay]
      · intro name absent rest
        rw [overlay_of_notMem_children absent, Tree.view_append ready.found]
      · intro other beside
        apply commitsAll.worker other ?_ beside.2
        intro name _ below
        exact beside.1 ((prefix_append _ _).trans below)

/-- Committing a collected tree over a real directory shows the overlay of both
there, and changes nothing else. -/
theorem view_commit_eq_overlay {sources : Sources} {children : List (String × FsNode)}
    (collected : Collected sources (.directory children)) (mounts : Namespace) (path : Path)
    {entries : List (List UInt8 × Tree)} (found : mounts.real.get path = some (.dir entries))
    (fresh : mounts.worker.get path = none)
    (compatible : Compatible (some (.dir entries)) (.directory children))
    (utf8Tree : Utf8Tree (.dir entries)) :
    (∀ rest, (commit sources false path mounts (.directory children)).real.view (path ++ rest) =
        overlay sources (some (.dir entries)) (some (.directory children)) rest) ∧
      ∀ other, ¬ path <+: other →
        (commit sources false path mounts (.directory children)).real.view other =
          mounts.real.view other := by
  have ready : Ready mounts path (.dir entries) (.directory children) :=
    ⟨found, fresh, compatible, utf8Tree, rfl⟩
  have commits := commits_commit collected ready
  refine ⟨commits.real.inside, ?_⟩
  intro other notBelow
  by_cases above : other <+: path
  · have different : other ≠ path := by
      rintro rfl
      exact notBelow (prefix_refl _)
    have wasDirectory := Tree.view_of_above (by rw [found]; rfl) above different
    rw [wasDirectory, commits.real.above other above different wasDirectory]
  · exact commits.real.view_beside ⟨notBelow, above⟩

/-- A module that replaces a file, removes a link and adds a link further down. -/
def sampleChildren : List (String × FsNode) :=
  [("a", .file ["m", "a"]), ("l", .whiteout), ("s", .directory [("y", .symlink "x")])]

/-- A directory with a file, a link and a directory. -/
def sampleEntries : List (List UInt8 × Tree) :=
  [(utf8 "a", .leaf (.file [1])), (utf8 "l", .leaf (.symlink (utf8 "a"))),
    (utf8 "s", .dir [(utf8 "x", .leaf (.file [3]))])]

def sampleSources : Sources :=
  fun src => if src = ["m", "a"] then some (.leaf (.file [9])) else none

theorem collected_sampleChildren : Collected sampleSources (.directory sampleChildren) := by
  refine .directory (by decide) (by decide) ?_
  intro name node mem
  simp only [sampleChildren, mem_cons, not_mem_nil, or_false] at mem
  rcases mem with ⟨rfl, rfl⟩ | ⟨rfl, rfl⟩ | ⟨rfl, rfl⟩
  · exact .file [9] rfl
  · exact .whiteout
  · refine .directory (by decide) (by decide) ?_
    intro inner node mem
    simp only [mem_cons, Prod.mk.injEq, not_mem_nil, or_false] at mem
    rw [mem.2]
    exact .symlink "x"

theorem compatible_sample : Compatible (some (.dir sampleEntries)) (.directory sampleChildren) := by
  refine .directory ?_
  intro name node mem
  simp only [sampleChildren, mem_cons, not_mem_nil, or_false] at mem
  rcases mem with ⟨rfl, rfl⟩ | ⟨rfl, rfl⟩ | ⟨rfl, rfl⟩
  · exact .leaf (.file [1]) (by simp)
  · exact .leaf (.symlink (utf8 "a")) (by simp)
  · refine .directory ?_
    intro inner node mem
    simp only [mem_cons, Prod.mk.injEq, not_mem_nil, or_false] at mem
    rw [mem.1]
    exact .absent node

theorem utf8Tree_sampleEntries : Utf8Tree (.dir sampleEntries) := by
  refine .dir (by decide) ?_ ?_
  · intro name node mem
    simp only [sampleEntries, mem_cons, not_mem_nil, or_false] at mem
    rcases mem with ⟨rfl, rfl⟩ | ⟨rfl, rfl⟩ | ⟨rfl, rfl⟩ <;> decide
  · intro name node mem
    simp only [sampleEntries, mem_cons, not_mem_nil, or_false] at mem
    rcases mem with ⟨rfl, rfl⟩ | ⟨rfl, rfl⟩ | ⟨rfl, rfl⟩
    · exact .file [1]
    · exact .symlink (by decide)
    · refine .dir (by decide) ?_ ?_
      · intro inner node mem
        simp only [mem_cons, Prod.mk.injEq, not_mem_nil, or_false] at mem
        rw [mem.1]
        decide
      · intro inner node mem
        simp only [mem_cons, Prod.mk.injEq, not_mem_nil, or_false] at mem
        rw [mem.2]
        exact .file [3]

/-- The file further down is still there, beside the new link. -/
theorem view_commit_sample :
    (commit sampleSources false [utf8 "d"] ⟨.dir [(utf8 "d", .dir sampleEntries)], .dir []⟩
        (.directory sampleChildren)).real.view ([utf8 "d"] ++ [utf8 "s", utf8 "x"]) =
      some (.leaf (.file [3])) := by
  have shown := (view_commit_eq_overlay collected_sampleChildren
    ⟨.dir [(utf8 "d", .dir sampleEntries)], .dir []⟩ [utf8 "d"] rfl rfl compatible_sample
    utf8Tree_sampleEntries).1 [utf8 "s", utf8 "x"]
  decide

/-! ## Names that are not UTF-8 -/

/-- Entries of which one has a name that is not UTF-8. -/
def strangeEntries : List (List UInt8 × Tree) :=
  [([0xff], .leaf (.file [1])), (utf8 "a", .leaf (.file [2]))]

/-- Removing one entry from a directory also hides an entry whose name is not
UTF-8. -/
theorem view_commit_strangeEntries : Collected (fun _ => none) (.directory [("a", .whiteout)]) ∧
      Compatible (some (.dir strangeEntries)) (.directory [("a", .whiteout)]) ∧
      (strangeEntries.map Prod.fst).Nodup ∧
      (commit (fun _ => none) false [utf8 "d"] ⟨.dir [(utf8 "d", .dir strangeEntries)], .dir []⟩
        (.directory [("a", .whiteout)])).real.view ([utf8 "d"] ++ [[0xff]]) = none ∧
      overlay (fun _ => none) (some (.dir strangeEntries))
        (some (.directory [("a", .whiteout)])) [[0xff]] = some (.leaf (.file [1])) := by
  refine ⟨.directory (by decide) (by decide) ?_, .directory ?_, by decide, by decide, by decide⟩
  · intro name node mem
    simp only [mem_cons, Prod.mk.injEq, not_mem_nil, or_false] at mem
    rw [mem.2]
    exact .whiteout
  · intro name node mem
    simp only [mem_cons, Prod.mk.injEq, not_mem_nil, or_false] at mem
    rw [mem.1, mem.2]
    exact .leaf (.file [2]) (by simp)

end Magisk.Core.Module
