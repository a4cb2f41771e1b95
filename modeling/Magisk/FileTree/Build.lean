import Magisk.FileTree.Core

/-!
# Building trees piece by piece

A tree is built up by changes that each stay below one path.  What such a change
shows below its path, and that it leaves the rest alone, is enough to put changes
together: entries side by side fill a directory, and a directory that was created
and filled is a change below its own path.
-/

namespace Magisk.FileTree

open List

universe u v

variable {Name : Type u} {Leaf : Type v} [DecidableEq Name]

/-- Two paths of which neither lies below the other. -/
def Beside (first second : List Name) : Prop :=
  ¬ first <+: second ∧ ¬ second <+: first

omit [DecidableEq Name] in
theorem beside_of_ne (path : List Name) {first second : Name} (different : first ≠ second)
    (rest : List Name) : Beside (path ++ [first]) (path ++ second :: rest) := by
  constructor
  · intro below
    have tails := (prefix_append_right_inj path).mp below
    exact different (cons_prefix_cons.mp tails).1
  · intro above
    have tails := (prefix_append_right_inj path).mp above
    exact different (cons_prefix_cons.mp tails).1.symm

omit [DecidableEq Name] in
/-- What lies below an entry does not lie below others. -/
theorem not_below_of_notMem {path names : List Name} {name : Name} (absent : name ∉ names)
    (rest : List Name) : ∀ other ∈ names, ¬ path ++ [other] <+: path ++ name :: rest := by
  intro other mem
  have different : other ≠ name := fun equal => absent (equal ▸ mem)
  exact (beside_of_ne path different rest).1

omit [DecidableEq Name] in
theorem not_above_self (path : List Name) (name : Name) (rest : List Name) :
    ¬ path ++ name :: rest <+: path := by
  intro above
  have shorter := above.length_le
  simp only [length_append, length_cons] at shorter
  omega

omit [DecidableEq Name] in
/-- A path above an entry of a directory is the directory or above it. -/
theorem above_of_above_entry {path other : List Name} {name : Name}
    (above : other <+: path ++ [name]) (different : other ≠ path ++ [name]) : other <+: path := by
  rcases prefix_concat_iff.mp above with equal | above
  · exact absurd equal different
  · exact above

/-- A change below one path, and what it shows there. -/
structure Builds (before after : Tree Name Leaf) (path : List Name)
    (shows : List Name → Option (Kind Leaf)) : Prop where
  inside : ∀ rest, after.view (path ++ rest) = shows rest
  beside : ∀ other, Beside path other → after.get other = before.get other
  above : ∀ other, other <+: path → other ≠ path →
    before.view other = some .directory → after.view other = some .directory

/-- Changes to the entries of one directory, and what they show there. -/
structure Fills (before after : Tree Name Leaf) (path : List Name) (names : List Name)
    (shows : Name → List Name → Option (Kind Leaf)) : Prop where
  inside : ∀ name ∈ names, ∀ rest, after.view (path ++ name :: rest) = shows name rest
  outside : ∀ other, (∀ name ∈ names, ¬ path ++ [name] <+: other) → ¬ other <+: path →
    after.get other = before.get other
  above : ∀ other, other <+: path →
    before.view other = some .directory → after.view other = some .directory

theorem builds_put (tree node : Tree Name Leaf) (path : List Name) :
    Builds tree (tree.put path node) path node.view := by
  constructor
  · exact tree.view_put_append node path
  · rintro other ⟨notBelow, notAbove⟩
    exact tree.get_put_of_beside node notBelow notAbove
  · intro other above different _
    exact tree.view_put_of_above node above different

variable {before after : Tree Name Leaf} {path : List Name} {shows : List Name → Option (Kind Leaf)}

theorem Builds.view_beside (builds : Builds before after path shows) {other : List Name}
    (beside : Beside path other) : after.view other = before.view other := by
  rw [Tree.view, builds.beside other beside, Tree.view]

variable {names : List Name} {shows : Name → List Name → Option (Kind Leaf)} {name : Name}

theorem Fills.view_outside (fills : Fills before after path names shows) (absent : name ∉ names)
    (rest : List Name) :
    after.view (path ++ name :: rest) = before.view (path ++ name :: rest) := by
  rw [Tree.view, fills.outside _ (not_below_of_notMem absent rest) (not_above_self path name rest),
    Tree.view]

variable {middle : Tree Name Leaf}

/-- A change below a path that was already changed. -/
theorem Builds.trans {first second : List Name → Option (Kind Leaf)}
    (builds : Builds before middle path first) (again : Builds middle after path second) :
    Builds before after path second := by
  refine ⟨again.inside, ?_, ?_⟩
  · intro other beside
    rw [again.beside other beside, builds.beside other beside]
  · intro other above different isDirectory
    exact again.above other above different (builds.above other above different isDirectory)

theorem fills_nil (tree : Tree Name Leaf) (path : List Name)
    (shows : Name → List Name → Option (Kind Leaf)) : Fills tree tree path [] shows := by
  constructor
  · intro name mem
    exact absurd mem not_mem_nil
  · exact fun _ _ _ => rfl
  · exact fun _ _ isDirectory => isDirectory

/-- A change to one entry, followed by changes to others. -/
theorem Builds.fills_cons (builds : Builds before middle (path ++ [name]) (shows name))
    (fills : Fills middle after path names shows) (absent : name ∉ names) :
    Fills before after path (name :: names) shows := by
  constructor
  · intro other mem rest
    rcases mem_cons.mp mem with rfl | later
    · rw [fills.view_outside absent rest, ← builds.inside rest, append_assoc]
      rfl
    · exact fills.inside other later rest
  · intro other notBelow notAbove
    have untouched := fun name mem => notBelow name (mem_cons_of_mem _ mem)
    rw [fills.outside other untouched notAbove]
    apply builds.beside
    refine ⟨notBelow name mem_cons_self, ?_⟩
    intro above
    apply notAbove
    apply above_of_above_entry above
    rintro rfl
    exact notBelow name mem_cons_self (prefix_refl _)
  · intro other above isDirectory
    apply fills.above other above
    have entryAbove : other <+: path ++ [name] := above.trans (prefix_append _ _)
    apply builds.above other entryAbove ?_ isDirectory
    rintro rfl
    exact not_above_self path name [] above

/-- Changes to some entries, followed by changes to others. -/
theorem Fills.append {first second : List Name} (fills : Fills before middle path first shows)
    (more : Fills middle after path second shows) (disjoint : ∀ name ∈ first, name ∉ second) :
    Fills before after path (first ++ second) shows := by
  constructor
  · intro name mem rest
    rcases mem_append.mp mem with isFirst | isSecond
    · rw [more.view_outside (disjoint name isFirst) rest, fills.inside name isFirst rest]
    · exact more.inside name isSecond rest
  · intro other notBelow notAbove
    rw [more.outside other (fun name mem => notBelow name (mem_append_right _ mem)) notAbove,
      fills.outside other (fun name mem => notBelow name (mem_append_left _ mem)) notAbove]
  · intro other above isDirectory
    exact more.above other above (fills.above other above isDirectory)

/-- Filling a directory is a change below its path. -/
theorem Fills.builds {shows : List Name → Option (Kind Leaf)}
    (fills : Fills before after path names fun name rest => shows (name :: rest))
    (stands : before.view path = some .directory) (isDirectory : shows [] = some .directory)
    (rest : ∀ name ∉ names, ∀ rest, shows (name :: rest) = before.view (path ++ name :: rest)) :
    Builds before after path shows := by
  constructor
  · intro inner
    cases inner with
    | nil =>
      rw [append_nil, isDirectory]
      exact fills.above path (prefix_refl _) stands
    | cons name inner =>
      by_cases mem : name ∈ names
      · exact fills.inside name mem inner
      · rw [fills.view_outside mem inner, rest name mem inner]
  · intro other beside
    apply fills.outside other ?_ beside.2
    intro name _ below
    exact beside.1 ((prefix_append _ _).trans below)
  · intro other above different before
    exact fills.above other above before

end Magisk.FileTree
