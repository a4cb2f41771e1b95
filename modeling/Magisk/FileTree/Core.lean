import Mathlib

/-!
# Trees of named entries

A directory tree is a leaf or a list of named subtrees.  Subtrees are read and
replaced along paths.  Two trees look the same if every path shows the same kind
of node; the order of the entries does not show.
-/

namespace Magisk.FileTree

open List

universe u v

variable {Value : Type v}

/-- A directory tree. -/
inductive Tree (Name : Type u) (Leaf : Type v) where
  | leaf (value : Leaf)
  | dir (entries : List (Name × Tree Name Leaf))

/-- What can be seen of a node without entering it. -/
inductive Kind (Leaf : Type v) where
  | directory
  | leaf (value : Leaf)
  deriving DecidableEq, Repr

variable {Name : Type u} {Leaf : Type v} [DecidableEq Name]

/-! ## Entries -/

/-- The first entry of a name. -/
def find {Value : Type v} (name : Name) : List (Name × Value) → Option Value
  | [] => none
  | (first, value) :: rest => if first = name then some value else find name rest

/-- Replace the first entry of a name, or add one at the end. -/
def replace {Value : Type v} (name : Name) (value : Value) :
    List (Name × Value) → List (Name × Value)
  | [] => [(name, value)]
  | (first, old) :: rest =>
    if first = name then (first, value) :: rest else (first, old) :: replace name value rest

theorem find_replace_self (name : Name) (value : Value) (entries : List (Name × Value)) :
    find name (replace name value entries) = some value := by
  induction entries with
  | nil => exact if_pos rfl
  | cons entry rest ih =>
    rcases entry with ⟨first, old⟩
    by_cases same : first = name
    · rw [replace, if_pos same, find, if_pos same]
    · rw [replace, if_neg same, find, if_neg same, ih]

variable {name : Name}

theorem find_replace_of_ne {other : Name} (different : other ≠ name) (value : Value)
    (entries : List (Name × Value)) :
    find other (replace name value entries) = find other entries := by
  induction entries with
  | nil => exact if_neg (Ne.symm different)
  | cons entry rest ih =>
    rcases entry with ⟨first, old⟩
    by_cases same : first = name
    · have notOther : ¬ first = other := fun equal => different (equal.symm.trans same)
      rw [replace, if_pos same, find, if_neg notOther, find, if_neg notOther]
    · by_cases found : first = other
      · rw [replace, if_neg same, find, if_pos found, find, if_pos found]
      · rw [replace, if_neg same, find, if_neg found, find, if_neg found, ih]

theorem replace_replace (name : Name) (first second : Value) (entries : List (Name × Value)) :
    replace name second (replace name first entries) = replace name second entries := by
  induction entries with
  | nil => exact if_pos rfl
  | cons entry rest ih =>
    rcases entry with ⟨other, old⟩
    by_cases same : other = name
    · rw [replace, if_pos same, replace, if_pos same, replace, if_pos same]
    · rw [replace, if_neg same, replace, if_neg same, replace, if_neg same, ih]

variable {value : Value}

theorem mem_of_find_eq_some {entries : List (Name × Value)}
    (found : find name entries = some value) :
    (name, value) ∈ entries := by
  induction entries with
  | nil => cases found
  | cons entry rest ih =>
    rcases entry with ⟨first, old⟩
    by_cases same : first = name
    · rw [find, if_pos same] at found
      cases found
      subst same
      exact mem_cons_self
    · rw [find, if_neg same] at found
      exact mem_cons_of_mem _ (ih found)

theorem find_eq_none_of_notMem {entries : List (Name × Value)}
    (absent : name ∉ entries.map Prod.fst) : find name entries = none := by
  cases found : find name entries with
  | none => rfl
  | some value => exact absurd (mem_map_of_mem (mem_of_find_eq_some found)) absent

/-- With distinct names every entry is the first of its name. -/
theorem find_eq_some_of_mem {entries : List (Name × Value)}
    (distinct : (entries.map Prod.fst).Nodup) (mem : (name, value) ∈ entries) :
    find name entries = some value := by
  induction entries with
  | nil => exact absurd mem not_mem_nil
  | cons entry rest ih =>
    rcases entry with ⟨first, old⟩
    rw [map_cons, nodup_cons] at distinct
    rcases mem_cons.mp mem with here | later
    · cases here
      exact if_pos rfl
    · have different : ¬ first = name := by
        rintro rfl
        exact distinct.1 (mem_map.mpr ⟨_, later, rfl⟩)
      rw [find, if_neg different]
      exact ih distinct.2 later

namespace Tree

/-! ## Paths -/

/-- What kind of node the tree is. -/
def kind : Tree Name Leaf → Kind Leaf
  | leaf value => .leaf value
  | dir _ => .directory

/-- The entries of a directory; a leaf has none. -/
def entries : Tree Name Leaf → List (Name × Tree Name Leaf)
  | leaf _ => []
  | dir entries => entries

/-- The subtree at a path. -/
def get (tree : Tree Name Leaf) : List Name → Option (Tree Name Leaf)
  | [] => some tree
  | name :: path => (find name tree.entries).bind fun child => child.get path

/-- Replace the subtree at a path, creating the directories on the way. -/
def put (tree : Tree Name Leaf) : List Name → Tree Name Leaf → Tree Name Leaf
  | [], node => node
  | name :: path, node =>
    dir (replace name (((find name tree.entries).getD (dir [])).put path node) tree.entries)

/-- What a path shows. -/
def view (tree : Tree Name Leaf) (path : List Name) : Option (Kind Leaf) :=
  (tree.get path).map kind

@[simp]
theorem get_nil (tree : Tree Name Leaf) : tree.get [] = some tree := by
  cases tree <;> rfl

theorem get_cons (tree : Tree Name Leaf) (name : Name) (path : List Name) :
    tree.get (name :: path) = (find name tree.entries).bind fun child => child.get path := by
  cases tree <;> rfl

theorem put_nil (tree node : Tree Name Leaf) : tree.put [] node = node := by
  cases tree <;> rfl

theorem put_cons (tree : Tree Name Leaf) (name : Name) (path : List Name) (node : Tree Name Leaf) :
    tree.put (name :: path) node =
      dir (replace name (((find name tree.entries).getD (dir [])).put path node) tree.entries) := by
  cases tree <;> rfl

theorem get_append (tree : Tree Name Leaf) (first second : List Name) :
    tree.get (first ++ second) = (tree.get first).bind fun child => child.get second := by
  induction first generalizing tree with
  | nil => rw [nil_append, get_nil, Option.bind_some]
  | cons name first ih =>
    rw [cons_append, get_cons, get_cons, Option.bind_assoc]
    simp only [ih]

/-- A subtree that was put in place is found there. -/
theorem get_put_append (tree node : Tree Name Leaf) (first second : List Name) :
    (tree.put first node).get (first ++ second) = node.get second := by
  induction first generalizing tree with
  | nil => rw [nil_append, put_nil]
  | cons name first ih =>
    rw [cons_append, put_cons, get_cons, entries, find_replace_self, Option.bind_some, ih]

theorem get_put_self (tree node : Tree Name Leaf) (path : List Name) :
    (tree.put path node).get path = some node := by
  have appended := get_put_append tree node path []
  rwa [append_nil] at appended

/-- Only the last of two replacements counts. -/
theorem put_put (tree first second : Tree Name Leaf) (path : List Name) :
    (tree.put path first).put path second = tree.put path second := by
  induction path generalizing tree with
  | nil => rw [put_nil, put_nil]
  | cons name path ih =>
    rw [put_cons, put_cons, put_cons, entries, find_replace_self, Option.getD_some, ih,
      replace_replace]

variable {path other : List Name} {tree : Tree Name Leaf}

/-- Replacing a subtree leaves what lies beside its path. -/
theorem get_put_of_beside (tree node : Tree Name Leaf) (notBelow : ¬ path <+: other)
    (notAbove : ¬ other <+: path) : (tree.put path node).get other = tree.get other := by
  induction path generalizing tree other with
  | nil => exact absurd nil_prefix notBelow
  | cons name path ih =>
    cases other with
    | nil => exact absurd nil_prefix notAbove
    | cons first other =>
      rw [put_cons, get_cons, get_cons, entries]
      by_cases same : first = name
      · subst same
        have notBelow' : ¬ path <+: other :=
          fun below => notBelow (cons_prefix_cons.mpr ⟨rfl, below⟩)
        have notAbove' : ¬ other <+: path :=
          fun above => notAbove (cons_prefix_cons.mpr ⟨rfl, above⟩)
        rw [find_replace_self, Option.bind_some, ih _ notBelow' notAbove']
        cases found : find first tree.entries with
        | none =>
          cases other with
          | nil => exact absurd nil_prefix notAbove'
          | cons second other => rfl
        | some child => rfl
      · rw [find_replace_of_ne same]

/-- The nodes above a path that was put in place are directories. -/
theorem view_put_of_above (tree node : Tree Name Leaf) (above : other <+: path)
    (different : other ≠ path) : (tree.put path node).view other = some .directory := by
  induction path generalizing tree other with
  | nil => exact absurd (prefix_nil.mp above) different
  | cons name path ih =>
    cases other with
    | nil =>
      rfl
    | cons first other =>
      obtain ⟨rfl, above'⟩ := cons_prefix_cons.mp above
      have different' : other ≠ path := fun equal => different (by rw [equal])
      rw [view, put_cons, get_cons, entries, find_replace_self]
      exact ih _ above' different'

theorem view_put_append (tree node : Tree Name Leaf) (first second : List Name) :
    (tree.put first node).view (first ++ second) = node.view second := by
  rw [view, get_put_append, view]

theorem view_append {child : Tree Name Leaf} (found : tree.get path = some child)
    (rest : List Name) :
    tree.view (path ++ rest) = child.view rest := by
  rw [view, get_append, found, Option.bind_some, view]

theorem view_eq_none_iff : tree.view path = none ↔ tree.get path = none := Option.map_eq_none_iff

/-- The nodes above a node are directories. -/
theorem view_of_above (exists_ : (tree.get path).isSome) (above : other <+: path)
    (different : other ≠ path) : tree.view other = some .directory := by
  obtain ⟨rest, rfl⟩ := above
  rw [get_append] at exists_
  cases found : tree.get other with
  | none =>
    rw [found] at exists_
    cases exists_
  | some child =>
    rw [view, found]
    cases rest with
    | nil => exact absurd (append_nil other).symm different
    | cons name rest =>
      rw [found, Option.bind_some] at exists_
      cases child with
      | leaf value => cases exists_
      | dir entries => rfl

end Tree

end Magisk.FileTree
