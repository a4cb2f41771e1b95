import Magisk.Core.Module.Overlay
import Magisk.FileTree.Ordered
import Magisk.FileTree.Union

/-!
# Collecting modules

The first step of `apply_modules` collects the trees of all modules into one virtual
tree.  `collect` enters what it reads from a module directory and never changes what
an earlier module has entered, so the result is the first-wins union of the trees.

Calls are assumed to succeed.  `Directory::read` skips names that are not UTF-8, and
`read_link` reads targets that are not UTF-8 as empty.
-/

namespace Magisk.Core.Module

open Bytes (utf8 fromUtf8 fromUtf8_utf8 utf8_injective utf8_of_fromUtf8_eq_some)
open Option List FileTree

variable {name : List UInt8} {src : List String}

/-! ## Module trees -/

/-- What is not a directory in a module. -/
inductive SourceLeaf where
  | symlink (target : List UInt8)
  | charDevice (isWhiteout : Bool)
  | file
  deriving DecidableEq, Repr

/-- The tree of a module. -/
abbrev ModuleTree :=
  FileTree.Tree (List UInt8) SourceLeaf

/-- The node of an entry that is not a directory; `src` is its path in the module
mount. -/
def leafNode (src : List String) : SourceLeaf → FsNode
  | .symlink target => .symlink ((fromUtf8 target).getD "")
  | .charDevice true => .whiteout
  | .charDevice false => .file src
  | .file => .file src

mutual

/-- The node of an entry, given the node that is there already. -/
def collectEntry (src : List String) : ModuleTree → Option FsNode → FsNode
  | .dir entries, none => .directory (collectEntries src [] entries)
  | .dir entries, some (.directory children) => .directory (collectEntries src children entries)
  | .dir _, some node => node
  | .leaf leaf, old => old.getD (leafNode src leaf)

/-- The loop of `collect` over the entries of a directory. -/
def collectEntries (src : List String) (children : List (String × FsNode)) :
    List (List UInt8 × ModuleTree) → List (String × FsNode)
  | [] => children
  | (name, entry) :: rest =>
    match fromUtf8 name with
    | none => collectEntries src children rest
    | some text =>
      collectEntries src (upsert text (collectEntry (src ++ [text]) entry) children) rest

end

/-- `FsNode::collect`; only a directory can be opened. -/
def collect (src : List String) (node : FsNode) : ModuleTree → FsNode
  | .dir entries =>
    match node with
    | .directory children => .directory (collectEntries src children entries)
    | _ => node
  | .leaf _ => node

/-- A module: its `system` directory, if there is one, and the marker `skip_mount`. -/
structure ModuleRoot where
  name : String
  skipMount : Bool
  system : Option ModuleTree

/-- A tree with the path of its root in the module mount. -/
abbrev Located :=
  List String × ModuleTree

/-- The tree that a module contributes. -/
def ModuleRoot.located (mnt : List String) (module : ModuleRoot) : Option Located :=
  if module.skipMount then none
  else module.system.map fun tree => (mnt ++ [module.name, "system"], tree)

/-- Collect trees into a node. -/
def collectAll (node : FsNode) (trees : List Located) : FsNode :=
  trees.foldl (fun node tree => collect tree.1 node tree.2) node

/-- The first step of `apply_modules`; `mnt` is the path of the module mount. -/
def buildSystem (mnt : List String) (modules : List ModuleRoot) : FsNode :=
  modules.foldl
    (fun node module =>
      if module.skipMount then node
      else
        match module.system with
        | none => node
        | some tree => collect (mnt ++ [module.name, "system"]) node tree)
    (.directory [])

/-! ## What a path shows -/

/-- What is not a directory in a virtual tree. -/
inductive Virtual where
  | file (src : List String)
  | symlink (target : List UInt8)
  | magiskLink
  | whiteout
  deriving DecidableEq, Repr

/-- What kind of node a node is. -/
def FsNode.kind : FsNode → Kind Virtual
  | .directory _ => .directory
  | .file src => .leaf (.file src)
  | .symlink target => .leaf (.symlink (utf8 target))
  | .magiskLink => .leaf .magiskLink
  | .whiteout => .leaf .whiteout

/-- The node at a path. -/
def FsNode.get (node : FsNode) : Path → Option FsNode
  | [] => some node
  | name :: path =>
    match node with
    | .directory children => (findChild name children).bind fun child => child.get path
    | _ => none

/-- What a path shows. -/
def FsNode.view (node : FsNode) (path : Path) : Option (Kind Virtual) :=
  (node.get path).map FsNode.kind

/-- What a leaf of a module is to become. -/
def SourceLeaf.virtual (src : List String) : SourceLeaf → Virtual
  | .symlink target => .symlink target
  | .charDevice true => .whiteout
  | .charDevice false => .file src
  | .file => .file src

/-- The text of a name. -/
def nameText (name : List UInt8) : String :=
  (fromUtf8 name).getD ""

mutual

/-- The tree of a module with the source of each leaf. -/
def annotate (src : List String) : ModuleTree → FileTree.Tree (List UInt8) Virtual
  | .dir entries => .dir (annotateEntries src entries)
  | .leaf leaf => .leaf (leaf.virtual src)

/-- The entries of a directory with the source of each leaf. -/
def annotateEntries (src : List String) :
    List (List UInt8 × ModuleTree) → List (List UInt8 × FileTree.Tree (List UInt8) Virtual)
  | [] => []
  | (name, entry) :: rest =>
    (name, annotate (src ++ [nameText name]) entry) :: annotateEntries src rest

end

/-- The trees of the modules that contribute, in their order. -/
def sourceTrees (mnt : List String) (modules : List ModuleRoot) :
    List (FileTree.Tree (List UInt8) Virtual) :=
  (modules.filterMap (ModuleRoot.located mnt)).map fun tree => annotate tree.1 tree.2

/-- A tree whose names and link targets are UTF-8; the names in a directory are
distinct. -/
inductive Utf8Source : ModuleTree → Prop
  | symlink {target : List UInt8} (valid : (fromUtf8 target).isSome) :
      Utf8Source (.leaf (.symlink target))
  | charDevice (isWhiteout : Bool) : Utf8Source (.leaf (.charDevice isWhiteout))
  | file : Utf8Source (.leaf .file)
  | dir {entries : List (List UInt8 × ModuleTree)} (distinct : (entries.map Prod.fst).Nodup)
      (valid : ∀ name node, (name, node) ∈ entries → (fromUtf8 name).isSome)
      (each : ∀ name node, (name, node) ∈ entries → Utf8Source node) : Utf8Source (.dir entries)

/-- A virtual tree whose directories are maps in the order of the names. -/
inductive FsNode.Sorted : FsNode → Prop
  | file (src : List String) : Sorted (.file src)
  | symlink (target : String) : Sorted (.symlink target)
  | magiskLink : Sorted .magiskLink
  | whiteout : Sorted .whiteout
  | directory {children : List (String × FsNode)} (ordered : Ordered children)
      (each : ∀ name node, (name, node) ∈ children → Sorted node) :
      Sorted (.directory children)

/-! ## Children -/

theorem findChild_utf8 (text : String) (children : List (String × FsNode)) :
    findChild (utf8 text) children = find text children := by
  induction children with
  | nil => rfl
  | cons child rest ih =>
    rcases child with ⟨name, node⟩
    rw [findChild, map_cons, find, find]
    by_cases same : name = text
    · rw [if_pos (congrArg utf8 same), if_pos same]
    · rw [if_neg fun equal => same (utf8_injective equal), if_neg same]
      exact ih

theorem findChild_of_invalid (invalid : fromUtf8 name = none) (children : List (String × FsNode)) :
    findChild name children = none := by
  apply findChild_eq_none
  intro mem
  rcases mem_map.mp mem with ⟨child, _, rfl⟩
  rw [fromUtf8_utf8] at invalid
  cases invalid

section Upsert

variable {text : String} {change : Option FsNode → FsNode} {children : List (String × FsNode)}

theorem findChild_upsert_self (ordered : Ordered children) :
    findChild (utf8 text) (upsert text change children) =
      some (change (findChild (utf8 text) children)) := by
  rw [findChild_utf8, findChild_utf8]
  exact find_upsert_self ordered

theorem findChild_upsert_of_ne (different : name ≠ utf8 text) :
    findChild name (upsert text change children) = findChild name children := by
  cases decoded : fromUtf8 name with
  | none => rw [findChild_of_invalid decoded, findChild_of_invalid decoded]
  | some other =>
    have isText := utf8_of_fromUtf8_eq_some decoded
    subst isText
    rw [findChild_utf8, findChild_utf8]
    exact find_upsert_of_ne fun equal => different (congrArg utf8 equal)

end Upsert

/-! ## One directory -/

/-- The child of a name after an entry of this name, if there is one, is collected. -/
def entered (src : List String) (name : List UInt8) (old : Option FsNode) :
    Option ModuleTree → Option FsNode
  | none => old
  | some entry => some (collectEntry (src ++ [nameText name]) entry old)

variable {entry : ModuleTree} {entries : List (List UInt8 × ModuleTree)} {node left right : FsNode}
  {trees : List Located} {modules : List ModuleRoot}

theorem collectEntries_cons {children : List (String × FsNode)} {text : String}
    {rest : List (List UInt8 × ModuleTree)} :
    collectEntries src children ((utf8 text, entry) :: rest) =
      collectEntries src (upsert text (collectEntry (src ++ [text]) entry) children) rest := by
  rw [collectEntries, fromUtf8_utf8]

theorem ordered_collectEntries {src : List String} {children : List (String × FsNode)}
    (ordered : Ordered children) (entries : List (List UInt8 × ModuleTree)) :
    Ordered (collectEntries src children entries) := by
  induction entries generalizing children with
  | nil =>
    exact ordered
  | cons entry rest ih =>
    rcases entry with ⟨name, entry⟩
    rw [collectEntries]
    cases fromUtf8 name with
    | none => exact ih ordered
    | some text => exact ih (ordered_upsert ordered)

/-- The loop over a directory collects under each name the entry of this name. -/
theorem findChild_collectEntries {children : List (String × FsNode)} (ordered : Ordered children)
    (distinct : (entries.map Prod.fst).Nodup)
    (valid : ∀ name node, (name, node) ∈ entries → (fromUtf8 name).isSome) (name : List UInt8) :
    findChild name (collectEntries src children entries) =
      entered src name (findChild name children) (find name entries) := by
  induction entries generalizing children with
  | nil => rw [collectEntries, find, entered]
  | cons entry rest ih =>
    rcases entry with ⟨first, entry⟩
    rw [map_cons, nodup_cons] at distinct
    rcases isSome_iff_exists.mp (valid first entry mem_cons_self) with
      ⟨text, decoded⟩
    have isText := utf8_of_fromUtf8_eq_some decoded
    subst isText
    rw [collectEntries_cons, ih (ordered_upsert ordered) distinct.2
      fun name node mem => valid name node (mem_cons_of_mem _ mem)]
    by_cases same : utf8 text = name
    · subst same
      rw [find_eq_none_of_notMem distinct.1, find, if_pos rfl, findChild_upsert_self ordered,
        entered, entered, nameText, fromUtf8_utf8, getD_some]
    · rw [find, if_neg same, findChild_upsert_of_ne (Ne.symm same)]

/-! ## Many directories -/

/-- What directories have under a name. -/
def under (name : List UInt8) (trees : List Located) : List Located :=
  trees.filterMap fun tree =>
    (find name tree.2.entries).map fun entry => (tree.1 ++ [nameText name], entry)

/-- Collect entries of one name in turn. -/
def enterAll (old : Option FsNode) (trees : List Located) : Option FsNode :=
  trees.foldl (fun old tree => some (collectEntry tree.1 tree.2 old)) old

theorem collectEntry_some (src : List String) (tree : ModuleTree) (node : FsNode) :
    collectEntry src tree (some node) = collect src node tree := by
  cases tree with
  | leaf leaf => rw [collectEntry, getD_some, collect]
  | dir entries => cases node <;> rw [collectEntry, collect] <;> nofun

theorem enterAll_some (node : FsNode) (trees : List Located) :
    enterAll (some node) trees = some (collectAll node trees) := by
  induction trees generalizing node with
  | nil => rfl
  | cons tree rest ih =>
    rw [enterAll, foldl_cons, collectEntry_some]
    exact ih _

theorem collect_of_not_directory (notDirectory : node.kind ≠ .directory) (src : List String)
    (tree : ModuleTree) : collect src node tree = node := by
  cases tree with
  | leaf leaf => rfl
  | dir entries =>
    cases node with
    | directory children => exact absurd rfl notDirectory
    | _ => rfl

theorem collectAll_of_not_directory (notDirectory : node.kind ≠ .directory) (trees : List Located) :
    collectAll node trees = node := by
  induction trees with
  | nil => rfl
  | cons tree rest ih =>
    rw [collectAll, foldl_cons, collect_of_not_directory notDirectory]
    exact ih

/-- Collecting trees into a directory collects under each name what the trees have
under it. -/
theorem collectAll_directory {children : List (String × FsNode)} (ordered : Ordered children)
    (readable : ∀ tree ∈ trees, Utf8Source tree.2) :
    ∃ merged, collectAll (.directory children) trees = .directory merged ∧ Ordered merged ∧
      ∀ name, findChild name merged = enterAll (findChild name children) (under name trees) := by
  induction trees generalizing children with
  | nil => exact ⟨children, rfl, ordered, fun name => rfl⟩
  | cons tree rest ih =>
    rcases tree with ⟨src, tree⟩
    have restReadable : ∀ tree ∈ rest, Utf8Source tree.2 :=
      fun tree mem => readable tree (mem_cons_of_mem _ mem)
    cases readable (src, tree) mem_cons_self with
    | @dir entries distinct valid each =>
      rcases ih (@ordered_collectEntries src _ ordered entries) restReadable with
        ⟨merged, isMerged, mergedOrdered, found⟩
      refine ⟨merged, isMerged, mergedOrdered, fun name => ?_⟩
      rw [found, findChild_collectEntries ordered distinct valid, under, under,
        filterMap_cons, Tree.entries]
      cases find name entries with
      | none => rfl
      | some entry => rfl
    | _ => exact ih ordered restReadable

/-! ## The union -/

theorem find_annotateEntries (src : List String) (name : List UInt8)
    (entries : List (List UInt8 × ModuleTree)) :
    find name (annotateEntries src entries) =
      (find name entries).map (annotate (src ++ [nameText name])) := by
  induction entries with
  | nil => rw [annotateEntries, find, find, map_none]
  | cons entry rest ih =>
    rcases entry with ⟨first, entry⟩
    rw [annotateEntries, find, find]
    by_cases same : first = name
    · rw [if_pos same, if_pos same, same, map_some]
    · rw [if_neg same, if_neg same, ih]

theorem find_entries_annotate (src : List String) (name : List UInt8) (tree : ModuleTree) :
    find name (annotate src tree).entries =
      (find name tree.entries).map (annotate (src ++ [nameText name])) := by
  cases tree with
  | leaf leaf =>
    rfl
  | dir entries =>
    exact find_annotateEntries src name entries

theorem children_annotate (name : List UInt8) (trees : List Located) :
    children (trees.map fun tree => annotate tree.1 tree.2) name =
      (under name trees).map fun tree => annotate tree.1 tree.2 := by
  rw [children, under, filterMap_map, map_filterMap]
  congr 1
  funext tree
  rw [Function.comp_apply, find_entries_annotate, Option.map_map]
  rfl

theorem readable_under {trees : List Located} (readable : ∀ tree ∈ trees, Utf8Source tree.2)
    {name : List UInt8} : ∀ tree ∈ under name trees, Utf8Source tree.2 := by
  intro tree mem
  rcases mem_filterMap.mp mem with ⟨above, aboveMem, isEntry⟩
  rcases map_eq_some_iff.mp isEntry with ⟨entry, found, rfl⟩
  have entryMem := mem_of_find_eq_some found
  have aboveReadable := readable above aboveMem
  rcases above with ⟨src, tree⟩
  cases aboveReadable with
  | dir distinct valid each => exact each name entry entryMem
  | _ => exact absurd entryMem not_mem_nil

/-- A leaf that can be read becomes what it is to become. -/
theorem kind_leafNode {leaf : SourceLeaf} (readable : Utf8Source (.leaf leaf)) (src : List String) :
    (leafNode src leaf).kind = .leaf (leaf.virtual src) := by
  cases readable with
  | symlink valid =>
    rcases isSome_iff_exists.mp valid with ⟨text, decoded⟩
    rw [leafNode, decoded, getD_some, FsNode.kind, SourceLeaf.virtual,
      utf8_of_fromUtf8_eq_some decoded]
  | charDevice isWhiteout => cases isWhiteout <;> rfl
  | file => rfl

theorem view_nil (node : FsNode) : node.view [] = some node.kind := by
  cases node <;> rfl

theorem view_cons_of_not_directory (notDirectory : node.kind ≠ .directory) (name : List UInt8)
    (path : Path) : node.view (name :: path) = none := by
  cases node with
  | directory children => exact absurd rfl notDirectory
  | _ => rfl

theorem view_directory_cons (children : List (String × FsNode)) (name : List UInt8) (path : Path) :
    (FsNode.directory children).view (name :: path) =
      (findChild name children).bind fun child => child.view path := by
  rw [FsNode.view, FsNode.get]
  cases findChild name children <;> rfl

/-- Collecting trees into a new directory builds their union. -/
theorem view_collectAll (readable : ∀ tree ∈ trees, Utf8Source tree.2) (path : Path) :
    (collectAll (.directory []) trees).view path =
      union (trees.map fun tree => annotate tree.1 tree.2) path := by
  induction path generalizing trees with
  | nil =>
    rcases collectAll_directory List.Pairwise.nil readable with ⟨merged, isMerged, _⟩
    rw [isMerged, view_nil, union_nil, FsNode.kind]
  | cons name path ih =>
    rcases collectAll_directory List.Pairwise.nil readable with ⟨merged, isMerged, _, found⟩
    have below := children_annotate name trees
    have belowReadable := @readable_under _ readable name
    rw [isMerged, view_directory_cons, found]
    cases located : under name trees with
    | nil =>
      rw [located] at below
      rw [union_cons_of_none below]
      rfl
    | cons first rest =>
      rw [located] at below belowReadable
      rcases first with ⟨src, tree⟩
      change (enterAll (some (collectEntry src tree none)) rest).bind _ = _
      rw [enterAll_some, bind_some]
      cases tree with
      | leaf leaf =>
        have kind := kind_leafNode (belowReadable _ mem_cons_self) src
        have notDirectory : (leafNode src leaf).kind ≠ .directory := by
          rw [kind]
          exact nofun
        rw [collectEntry, getD_none, collectAll_of_not_directory notDirectory,
          union_cons_of_leaf below]
        cases path with
        | nil => rw [view_nil, kind, if_pos rfl]
        | cons next path =>
          rw [view_cons_of_not_directory notDirectory, if_neg (cons_ne_nil _ _)]
      | dir entries =>
        have merges := ih belowReadable
        rw [← below] at merges
        rw [union_cons_of_dir below, union_filter, ← merges]
        rfl

theorem buildSystem_eq (mnt : List String) (modules : List ModuleRoot) : buildSystem mnt modules =
      collectAll (.directory []) (modules.filterMap (ModuleRoot.located mnt)) := by
  rw [buildSystem]
  generalize FsNode.directory [] = node
  induction modules generalizing node with
  | nil => rfl
  | cons module rest ih =>
    rcases module with ⟨name, skipMount, system⟩
    rw [foldl_cons, ih]
    cases skipMount with
    | true => rfl
    | false =>
      cases system with
      | none => rfl
      | some tree => rfl

/-! ## Sorted trees -/

theorem sorted_leafNode (src : List String) (leaf : SourceLeaf) : (leafNode src leaf).Sorted := by
  cases leaf with
  | symlink target => exact .symlink _
  | charDevice isWhiteout =>
    cases isWhiteout with
    | false => exact .file src
    | true => exact .whiteout
  | file => exact .file src

/-- The loop over a directory keeps children sorted if each entry does. -/
theorem sorted_collectEntries (eachEntry : ∀ name entry, (name, entry) ∈ entries → ∀ src old,
      (∀ node, old = some node → node.Sorted) → (collectEntry src entry old).Sorted)
    {children : List (String × FsNode)} (sorted : (FsNode.directory children).Sorted) :
    (FsNode.directory (collectEntries src children entries)).Sorted := by
  induction entries generalizing children with
  | nil =>
    exact sorted
  | cons entry rest ih =>
    rcases entry with ⟨name, entry⟩
    have later := @ih fun name entry mem => eachEntry name entry (mem_cons_of_mem _ mem)
    rw [collectEntries]
    cases fromUtf8 name with
    | none => exact later sorted
    | some text =>
      apply later
      cases sorted with
      | directory ordered each =>
        refine .directory (ordered_upsert ordered) fun name node mem => ?_
        rcases mem_upsert mem with ⟨_, old, changed, stored⟩ | mem
        · dsimp only at changed
          rw [changed]
          exact eachEntry _ entry mem_cons_self _ old fun node isOld =>
            each text node (stored node isOld)
        · exact each name node mem

theorem sorted_collectEntry_leaf {old : Option FsNode}
    (sorted : ∀ node, old = some node → node.Sorted) (src : List String) (leaf : SourceLeaf) :
    (collectEntry src (.leaf leaf) old).Sorted := by
  cases old with
  | none => exact sorted_leafNode src leaf
  | some node => exact sorted node rfl

theorem sorted_collectEntry {tree : ModuleTree} (readable : Utf8Source tree) (src : List String)
    (old : Option FsNode) (sorted : ∀ node, old = some node → node.Sorted) :
    (collectEntry src tree old).Sorted := by
  induction readable generalizing src old with
  | dir distinct valid each ih =>
    cases old with
    | none =>
      exact sorted_collectEntries ih (.directory List.Pairwise.nil nofun)
    | some node =>
      have nodeSorted := sorted node rfl
      cases node with
      | directory children => exact sorted_collectEntries ih nodeSorted
      | _ => exact nodeSorted
  | _ => exact sorted_collectEntry_leaf sorted src _

theorem sorted_collectAll (readable : ∀ tree ∈ trees, Utf8Source tree.2) (sorted : node.Sorted) :
    (collectAll node trees).Sorted := by
  induction trees generalizing node with
  | nil => exact sorted
  | cons tree rest ih =>
    apply ih fun tree mem => readable tree (mem_cons_of_mem _ mem)
    change (collect tree.1 node tree.2).Sorted
    rw [← collectEntry_some]
    apply sorted_collectEntry (readable tree mem_cons_self)
    rintro node ⟨⟩
    exact sorted

/-- A node that is not a directory is determined by its kind. -/
theorem eq_of_kind_eq (same : left.kind = right.kind) (notDirectory : left.kind ≠ .directory) :
    left = right := by
  cases left with
  | directory children => exact absurd rfl notDirectory
  | file src =>
    cases right with
    | file other =>
      cases same
      rfl
    | _ => cases same
  | symlink target =>
    cases right with
    | symlink other =>
      rw [FsNode.kind, FsNode.kind, Kind.leaf.injEq, Virtual.symlink.injEq] at same
      rw [utf8_injective same]
    | _ => cases same
  | magiskLink =>
    cases right with
    | magiskLink => rfl
    | _ => cases same
  | whiteout =>
    cases right with
    | whiteout => rfl
    | _ => cases same

/-- Sorted trees that show the same at every path are equal. -/
theorem FsNode.Sorted.ext (leftSorted : left.Sorted) (rightSorted : right.Sorted)
    (same : ∀ path, left.view path = right.view path) : left = right := by
  have kinds : left.kind = right.kind := by
    have top := same []
    rwa [view_nil, view_nil, some.injEq] at top
  induction leftSorted generalizing right with
  | @directory children ordered each ih =>
    cases rightSorted with
    | @directory others othersOrdered eachOther =>
      congr 1
      apply ordered.ext othersOrdered
      intro name
      have below : ∀ path, ((find name children).bind fun child => child.view path) =
            (find name others).bind fun child => child.view path := by
        intro path
        have here := same (utf8 name :: path)
        rwa [view_directory_cons, view_directory_cons, findChild_utf8, findChild_utf8] at here
      cases found : find name children with
      | none =>
        cases otherFound : find name others with
        | none => rfl
        | some other =>
          have top := below []
          rw [found, otherFound, bind_some] at top
          cases top
      | some child =>
        cases otherFound : find name others with
        | none =>
          have top := below []
          rw [found, otherFound, bind_some] at top
          cases top
        | some other =>
          rw [found, otherFound] at below
          have top := below []
          rw [bind_some, bind_some, view_nil, view_nil, some.injEq] at top
          rw [ih name child (mem_of_find_eq_some found)
            (eachOther name other (mem_of_find_eq_some otherFound)) below top]
    | _ => cases kinds
  | _ => exact eq_of_kind_eq kinds nofun

/-! ## First-wins union -/

/-- All trees of the modules can be read: names and link targets are UTF-8. -/
def Readable (modules : List ModuleRoot) : Prop :=
  ∀ module ∈ modules, ∀ tree, module.system = some tree → Utf8Source tree

section

variable (readable : Readable modules) (mnt : List String)
include readable

theorem readable_located :
    ∀ tree ∈ modules.filterMap (ModuleRoot.located mnt), Utf8Source tree.2 := by
  intro tree mem
  rcases mem_filterMap.mp mem with ⟨module, moduleMem, isLocated⟩
  rw [ModuleRoot.located] at isLocated
  split at isLocated
  · cases isLocated
  · rcases map_eq_some_iff.mp isLocated with ⟨tree, isSystem, rfl⟩
    exact readable module moduleMem tree isSystem

theorem view_buildSystem (path : Path) :
    (buildSystem mnt modules).view path = union (sourceTrees mnt modules) path := by
  rw [buildSystem_eq]
  exact view_collectAll (readable_located readable mnt) path

/-- The order of modules whose trees agree does not matter. -/
theorem buildSystem_perm {others : List ModuleRoot} (perm : modules.Perm others)
    (agree : (sourceTrees mnt modules).Pairwise Agree) :
    buildSystem mnt others = buildSystem mnt modules := by
  have othersReadable : Readable others := fun module mem => readable module (perm.mem_iff.mpr mem)
  have treesPerm : (sourceTrees mnt modules).Perm (sourceTrees mnt others) :=
    (perm.filterMap _).map _
  have sorted : ∀ {modules}, Readable modules → (buildSystem mnt modules).Sorted := by
    intro modules readable
    rw [buildSystem_eq]
    exact sorted_collectAll (readable_located readable mnt) (.directory List.Pairwise.nil nofun)
  apply (sorted othersReadable).ext (sorted readable)
  intro path
  rw [view_buildSystem othersReadable, view_buildSystem readable, union_perm agree treesPerm]

end

/-- Collecting modules builds the first-wins union of their trees: in a directory of
the result each name shows what the first module that has the path has there, and
nothing stands anywhere else.  If the trees agree on all paths, the order of the
modules does not matter. -/
theorem buildSystem_firstWins (mnt : List String) (modules : List ModuleRoot)
    (readable : Readable modules) :
    (buildSystem mnt modules).view [] = some .directory ∧ (∀ path name,
        (buildSystem mnt modules).view (path ++ [name]) =
          if (buildSystem mnt modules).view path = some .directory then
            (sourceTrees mnt modules).findSome? fun tree => tree.view (path ++ [name])
          else none) ∧
      ∀ others, modules.Perm others → (sourceTrees mnt modules).Pairwise Agree →
        buildSystem mnt others = buildSystem mnt modules := by
  refine ⟨?_, fun path name => ?_, fun others perm => buildSystem_perm readable mnt perm⟩
  · rw [view_buildSystem readable, union_nil]
  · rw [view_buildSystem readable, view_buildSystem readable, union_concat]

theorem utf8Source_singleton (valid : (fromUtf8 name).isSome) (readable : Utf8Source entry) :
    Utf8Source (.dir [(name, entry)]) := by
  refine .dir (nodup_singleton name) (fun other node mem => ?_) fun other node mem => ?_
  · cases mem_singleton.mp mem
    exact valid
  · cases mem_singleton.mp mem
    exact readable

/-- Two modules that have the same file. -/
def sharedFile : List ModuleRoot :=
  [⟨"first", false, some (.dir [([97], .dir [([98], .leaf .file)])])⟩,
    ⟨"second", false, some (.dir [([97], .dir [([98], .leaf .file)])])⟩]

theorem readable_sharedFile : Readable sharedFile := by
  have tree : Utf8Source (.dir [([97], .dir [([98], .leaf .file)])]) := by
    apply utf8Source_singleton (by decide +kernel)
    exact utf8Source_singleton (by decide +kernel) .file
  intro module mem
  rcases mem_cons.mp mem with rfl | mem
  · rintro _ ⟨⟩
    exact tree
  · cases mem_singleton.mp mem
    rintro _ ⟨⟩
    exact tree

theorem buildSystem_firstWins_sharedFile : Readable sharedFile ∧
      (buildSystem ["mnt"] sharedFile).view ([[97]] ++ [[98]]) =
        some (.leaf (.file ["mnt", "first", "system", "a", "b"])) := by
  refine ⟨readable_sharedFile, ?_⟩
  rw [(buildSystem_firstWins ["mnt"] sharedFile readable_sharedFile).2.1]
  decide +kernel

/-- A module with a file and a link that cannot be read. -/
def notUtf8 : List ModuleRoot :=
  [⟨"module", false, some (.dir [([0xFF], .leaf .file), ([97], .leaf (.symlink [0xFF]))])⟩]

/-- A file whose name is not UTF-8 is left out, and the target of a link that is not
UTF-8 is lost. -/
theorem not_firstWins_notUtf8 : (buildSystem ["mnt"] notUtf8).view [] = some .directory ∧
      ((sourceTrees ["mnt"] notUtf8).findSome? fun tree => tree.view [[0xFF]]) =
        some (.leaf (.file ["mnt", "module", "system", ""])) ∧
      (buildSystem ["mnt"] notUtf8).view [[0xFF]] = none ∧
      ((sourceTrees ["mnt"] notUtf8).findSome? fun tree => tree.view [[97]]) =
        some (.leaf (.symlink [0xFF])) ∧
      (buildSystem ["mnt"] notUtf8).view [[97]] = some (.leaf (.symlink [])) := by
  decide +kernel

end Magisk.Core.Module
