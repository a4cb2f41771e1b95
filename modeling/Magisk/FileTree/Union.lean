import Magisk.FileTree.Core

/-!
# The first-wins union of directory trees

Directories of the same path are merged; anything else is taken from the first tree
that has the path.  Below a path that is not a directory the union has nothing.
-/

namespace Magisk.FileTree

open List

universe u v

variable {Name : Type u} {Leaf : Type v} [DecidableEq Name]

/-- The tree is a directory. -/
def Tree.isDir : Tree Name Leaf → Bool
  | .leaf _ => false
  | .dir _ => true

/-- The entries that directories have under a name. -/
def children (trees : List (Tree Name Leaf)) (name : Name) : List (Tree Name Leaf) :=
  trees.filterMap fun tree => find name tree.entries

/-- What a path shows in the union of directories. -/
def union : List (Tree Name Leaf) → List Name → Option (Kind Leaf)
  | _, [] => some .directory
  | trees, name :: path =>
    match children trees name with
    | [] => none
    | .leaf value :: _ => if path = [] then some (.leaf value) else none
    | .dir entries :: rest => union ((.dir entries :: rest).filter Tree.isDir) path

section Union

variable {trees : List (Tree Name Leaf)} {name : Name} {path : List Name}

theorem union_nil (trees : List (Tree Name Leaf)) : union trees [] = some .directory := by
  rw [union]

theorem union_cons_of_none (none : children trees name = []) (path : List Name) :
    union trees (name :: path) = Option.none := by
  rw [union, none]

variable {rest : List (Tree Name Leaf)} {tree : Tree Name Leaf}

theorem union_cons_of_leaf {value : Leaf} (first : children trees name = .leaf value :: rest)
    (path : List Name) :
    union trees (name :: path) = if path = [] then some (.leaf value) else none := by
  rw [union, first]

theorem union_cons_of_dir {entries : List (Name × Tree Name Leaf)}
    (first : children trees name = .dir entries :: rest) (path : List Name) :
    union trees (name :: path) = union ((children trees name).filter Tree.isDir) path := by
  rw [union, first]

theorem view_cons (tree : Tree Name Leaf) (name : Name) (path : List Name) :
    tree.view (name :: path) = (find name tree.entries).bind fun child => child.view path := by
  rw [Tree.view, Tree.get_cons]
  cases find name tree.entries <;> rfl

theorem view_cons_of_not_dir (notDir : tree.isDir = false) (name : Name) (path : List Name) :
    tree.view (name :: path) = none := by
  cases tree with
  | leaf value => rfl
  | dir entries => cases notDir

section

variable (trees : List (Tree Name Leaf))

theorem children_filter (name : Name) :
    children (trees.filter Tree.isDir) name = children trees name := by
  induction trees with
  | nil => rfl
  | cons tree rest ih =>
    cases tree with
    | leaf value => exact ih
    | dir entries =>
      rw [filter_cons_of_pos rfl, children, filterMap_cons, children, filterMap_cons]
      cases find name (Tree.dir entries).entries with
      | none => exact ih
      | some child => exact congrArg (child :: ·) ih

/-- Only directories contribute to the union. -/
theorem union_filter (path : List Name) :
    union (trees.filter Tree.isDir) path = union trees path := by
  cases path with
  | nil => rw [union_nil, union_nil]
  | cons name path => rw [union, union, children_filter]

/-- Looking below a name is looking into what the trees have under it. -/
theorem findSome?_view_cons (name : Name) (path : List Name) :
    trees.findSome? (fun tree => tree.view (name :: path)) =
      (children trees name).findSome? fun child => child.view path := by
  induction trees with
  | nil => rfl
  | cons tree rest ih =>
    rw [findSome?_cons, view_cons, children, filterMap_cons]
    cases find name tree.entries with
    | none => exact ih
    | some child =>
      rw [Option.bind_some]
      rw [findSome?_cons]
      cases child.view path with
      | some kind => rfl
      | none => exact ih

/-- Only directories have something below them. -/
theorem findSome?_view_filter (name : Name) (path : List Name) :
    (trees.filter Tree.isDir).findSome? (fun tree => tree.view (name :: path)) =
      trees.findSome? fun tree => tree.view (name :: path) := by
  induction trees with
  | nil => rfl
  | cons tree rest ih =>
    cases isDir : tree.isDir with
    | true =>
      rw [filter_cons_of_pos isDir, findSome?_cons, findSome?_cons, ih]
    | false =>
      rw [filter_cons_of_neg (by rw [isDir]; decide), findSome?_cons,
        view_cons_of_not_dir isDir, ih]

/-- What stands in a directory of the union is what the first tree has there that
has anything; nothing stands anywhere else. -/
theorem union_concat [DecidableEq Leaf] (path : List Name)
    (name : Name) : union trees (path ++ [name]) =
      if union trees path = some .directory then
        trees.findSome? fun tree => tree.view (path ++ [name])
      else none := by
  induction path generalizing trees with
  | nil =>
    rw [union_nil, nil_append, findSome?_view_cons]
    cases found : children trees name with
    | nil => exact union_cons_of_none found []
    | cons first rest =>
      cases first with
      | leaf value => exact union_cons_of_leaf found []
      | dir entries =>
        rw [union_cons_of_dir found]
        rfl
  | cons first path ih =>
    rw [cons_append, findSome?_view_cons]
    cases found : children trees first with
    | nil =>
      rw [union_cons_of_none found, union_cons_of_none found]
      rfl
    | cons child rest =>
      cases child with
      | leaf value =>
        have notDirectory : union trees (first :: path) ≠ some .directory := by
          rw [union_cons_of_leaf found]
          split <;> simp
        rw [union_cons_of_leaf found, if_neg (by simp), if_neg notDirectory]
      | dir entries =>
        rw [union_cons_of_dir found, union_cons_of_dir found, ih, found]
        cases path with
        | nil => rw [nil_append, findSome?_view_filter]
        | cons next path => rw [cons_append, findSome?_view_filter]

end

/-- Two trees agree where both have something: both have a directory there. -/
def Agree (first second : Tree Name Leaf) : Prop :=
  ∀ path kind other, first.view path = some kind → second.view path = some other →
    kind = .directory ∧ other = .directory

instance : Std.Symm (Agree : Tree Name Leaf → Tree Name Leaf → Prop) where
  symm _ _ agree path kind other left right := (agree path other kind right left).symm

theorem eq_or_agree {first second : Tree Name Leaf} (pairwise : trees.Pairwise Agree)
    (firstMem : first ∈ trees) (secondMem : second ∈ trees) :
    first = second ∨ Agree first second := by
  by_cases same : first = second
  · exact Or.inl same
  · exact Or.inr (pairwise.forall firstMem secondMem same)

theorem view_of_view_concat {kind : Kind Leaf} (shows : tree.view (path ++ [name]) = some kind) :
    tree.view path = some .directory := by
  apply Tree.view_of_above _ (prefix_append path [name]) (by simp)
  rw [Option.isSome_iff_exists]
  rw [Tree.view, Option.map_eq_some_iff] at shows
  rcases shows with ⟨node, found, _⟩
  exact ⟨node, found⟩

/-- If the trees agree, the union shows what any of them shows. -/
theorem union_eq_some_iff [DecidableEq Leaf] (pairwise : trees.Pairwise Agree) (nonempty : path ≠ [])
    (kind : Kind Leaf) :
    union trees path = some kind ↔ ∃ tree ∈ trees, tree.view path = some kind := by
  induction path using reverseRecOn generalizing kind with
  | nil => exact absurd rfl nonempty
  | append_singleton path name ih =>
    have first : ∀ found, (trees.findSome? fun tree => tree.view (path ++ [name])) = some found →
        ∃ tree ∈ trees, tree.view (path ++ [name]) = some found := by
      intro found isFirst
      exact exists_of_findSome?_eq_some isFirst
    rw [union_concat]
    constructor
    · intro shows
      split at shows
      · exact first kind shows
      · cases shows
    · rintro ⟨tree, mem, shows⟩
      have above : union trees path = some .directory := by
        by_cases top : path = []
        · rw [top, union_nil]
        · exact (ih top _).mpr ⟨tree, mem, view_of_view_concat shows⟩
      rw [if_pos above]
      cases found : trees.findSome? fun tree => tree.view (path ++ [name]) with
      | none =>
        have nothing := findSome?_eq_none_iff.mp found tree mem
        rw [shows] at nothing
        cases nothing
      | some other =>
        rcases first other found with ⟨earlier, earlierMem, earlierShows⟩
        rcases eq_or_agree pairwise earlierMem mem with rfl | agree
        · rw [← earlierShows, shows]
        · have both := agree _ _ _ earlierShows shows
          rw [both.1, both.2]

/-- The union of trees that agree does not depend on their order. -/
theorem union_perm [DecidableEq Leaf] {others : List (Tree Name Leaf)}
    (pairwise : trees.Pairwise Agree) (perm : trees.Perm others) (path : List Name) :
    union trees path = union others path := by
  have otherPairwise : others.Pairwise Agree :=
    perm.pairwise pairwise (fun agree => Std.Symm.symm _ _ agree)
  by_cases top : path = []
  · rw [top, union_nil, union_nil]
  · apply Option.ext
    intro kind
    rw [union_eq_some_iff pairwise top, union_eq_some_iff otherPairwise top]
    simp only [perm.mem_iff]

end Union

end Magisk.FileTree
