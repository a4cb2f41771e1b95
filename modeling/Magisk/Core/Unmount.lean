import Mathlib

/-!
# Which mounts are taken down

`revert_unmount` sorts the mount targets as strings and drops a target that lies
below the last one it has kept.  Between a directory and its contents the order of
strings puts names such as `dir-x`, since `-` comes before `/`; a target in there
is kept, and what is sorted behind it is no longer compared with the directory.
-/

namespace Magisk.Core

open List

/-- `Path::components`: the root, and the names without empty ones and dots. -/
def components (path : String) : List (List Char) :=
  match path.toList.splitOn '/' with
  | [] :: names@(_ :: _) => ['/'] :: names.filter fun name => name ≠ [] ∧ name ≠ ['.']
  | names => (names.take 1).filter (· ≠ []) ++
      (names.drop 1).filter fun name => name ≠ [] ∧ name ≠ ['.']

/-- `Path::starts_with`: one path is equal to another one or below it. -/
def Below (path base : String) : Prop :=
  components base <+: components path

instance : DecidableRel Below := fun _ _ =>
  inferInstanceAs (Decidable (_ <+: _))

theorem below_refl (path : String) : Below path path :=
  prefix_rfl

theorem Below.trans {path middle base : String} (inner : Below path middle)
    (outer : Below middle base) : Below path base :=
  IsPrefix.trans outer inner

/-- The closure `revert_unmount` passes to `retain`, with the last path kept. -/
def retain : Option String → List String → List String
  | _, [] => []
  | prev, target :: targets =>
    if prev.any fun kept => Below target kept then retain prev targets
    else target :: retain (some target) targets

/-- The targets that `revert_unmount` takes down. -/
def keptTargets (targets : List String) : List String :=
  retain none (targets.insertionSort (· ≤ ·))

/-- In the order of strings a target comes behind another one that everything up to it
is below. -/
def Follows (targets : List String) (target : String) : Prop :=
  ∃ first ∈ targets, first < target ∧
    ∀ other ∈ targets, first ≤ other → other ≤ target → Below other first

/-! ## The loop over sorted targets -/

variable {targets : List String} {prev next target : String}

theorem retain_some_cons (prev target : String) (targets : List String) :
    retain (some prev) (target :: targets) =
      if Below target prev then retain (some prev) targets
      else target :: retain (some target) targets := by
  simp [retain]

/-- The first target follows nothing. -/
theorem not_follows_head (sorted : (prev :: targets).Pairwise (· ≤ ·)) :
    ¬ Follows (prev :: targets) prev := by
  rintro ⟨first, isFirst, less, -⟩
  rcases mem_cons.mp isFirst with rfl | isFirst
  · exact lt_irrefl first less
  · exact not_lt.mpr ((pairwise_cons.mp sorted).1 first isFirst) less

/-- A target below the one in front of it makes no difference. -/
theorem follows_skip_iff (sorted : (prev :: next :: targets).Pairwise (· ≤ ·))
    (isBelow : Below next prev) :
    Follows (prev :: next :: targets) target ↔ Follows (prev :: targets) target := by
  obtain ⟨least, later⟩ := pairwise_cons.mp sorted
  have nextLeast := (pairwise_cons.mp later).1
  have wider := cons_subset_cons prev (subset_cons_self next targets)
  constructor
  · rintro ⟨first, isFirst, less, run⟩
    rw [mem_cons, mem_cons, or_left_comm] at isFirst
    rcases isFirst with rfl | isFirst
    · refine ⟨prev, mem_cons_self, (least first mem_cons_self).trans_lt less, ?_⟩
      intro other isOther _ atMost
      rcases mem_cons.mp isOther with rfl | isTarget
      · exact below_refl other
      · exact (run other (wider isOther) (nextLeast other isTarget) atMost).trans isBelow
    · exact ⟨first, mem_cons.mpr isFirst, less, fun other isOther => run other (wider isOther)⟩
  · rintro ⟨first, isFirst, less, run⟩
    refine ⟨first, wider isFirst, less, fun other isOther atLeast atMost => ?_⟩
    rw [mem_cons, mem_cons, or_left_comm, ← mem_cons] at isOther
    rcases isOther with rfl | isOther
    · rcases mem_cons.mp isFirst with rfl | isFirst
      · exact isBelow
      · rw [le_antisymm atLeast (nextLeast first isFirst)]
        exact below_refl other
    · exact run other isOther atLeast atMost

/-- Nothing behind the next target follows one that this is not below. -/
theorem follows_cons_iff (sorted : (prev :: next :: targets).Pairwise (· ≤ ·))
    (apart : ¬ Below next prev) (mem : target ∈ next :: targets) :
    Follows (prev :: next :: targets) target ↔ Follows (next :: targets) target := by
  obtain ⟨least, later⟩ := pairwise_cons.mp sorted
  constructor
  · rintro ⟨first, isFirst, less, run⟩
    rcases mem_cons.mp isFirst with rfl | isFirst
    · refine absurd (run next (by simp) (least next mem_cons_self) ?_) apart
      rcases mem_cons.mp mem with rfl | mem
      · exact le_rfl
      · exact (pairwise_cons.mp later).1 target mem
    · exact ⟨first, isFirst, less, fun other isOther => run other (mem_cons_of_mem prev isOther)⟩
  · rintro ⟨first, isFirst, less, run⟩
    refine ⟨first, mem_cons_of_mem prev isFirst, less, fun other isOther atLeast atMost => ?_⟩
    rcases mem_cons.mp isOther with rfl | isOther
    · rw [le_antisymm atLeast (least first isFirst)]
      exact below_refl other
    · exact run other isOther atLeast atMost

/-- The loop keeps what follows nothing. -/
theorem mem_retain_iff (sorted : (prev :: targets).Pairwise (· ≤ ·)) :
    target ∈ prev :: retain (some prev) targets ↔
      target ∈ prev :: targets ∧ ¬ Follows (prev :: targets) target := by
  induction targets generalizing prev with
  | nil =>
    refine ⟨fun mem => ⟨mem, ?_⟩, And.left⟩
    cases mem_singleton.mp mem
    exact not_follows_head sorted
  | cons next targets ih =>
    obtain ⟨least, later⟩ := pairwise_cons.mp sorted
    rw [retain_some_cons]
    split
    · rename_i isBelow
      have skip := (sublist_cons_self next targets).cons_cons prev
      rw [ih (sorted.sublist skip), follows_skip_iff sorted isBelow]
      refine ⟨fun kept => ⟨skip.subset kept.1, kept.2⟩, fun ⟨mem, leads⟩ => ⟨?_, leads⟩⟩
      rw [mem_cons, mem_cons, or_left_comm, ← mem_cons] at mem
      rcases mem with rfl | mem
      · rcases (least target mem_cons_self).eq_or_lt with rfl | less
        · exact mem_cons_self
        · refine absurd ⟨prev, mem_cons_self, less, fun other isOther _ atMost => ?_⟩ leads
          rcases mem_cons.mp isOther with rfl | isOther
          · exact below_refl other
          · rw [le_antisymm atMost ((pairwise_cons.mp later).1 other isOther)]
            exact isBelow
      · exact mem
    · rename_i apart
      rw [mem_cons, ih later]
      constructor
      · rintro (rfl | ⟨mem, leads⟩)
        · exact ⟨mem_cons_self, not_follows_head sorted⟩
        · exact ⟨mem_cons_of_mem prev mem, mt (follows_cons_iff sorted apart mem).mp leads⟩
      · rintro ⟨mem, leads⟩
        refine (mem_cons.mp mem).imp_right fun mem => ?_
        exact ⟨mem, mt (follows_cons_iff sorted apart mem).mpr leads⟩

/-- Every target is below one that the loop keeps. -/
theorem exists_retained (mem : target ∈ prev :: targets) :
    ∃ kept ∈ prev :: retain (some prev) targets, Below target kept := by
  induction targets generalizing prev with
  | nil => exact ⟨target, mem, below_refl target⟩
  | cons next targets ih =>
    rw [retain_some_cons]
    split
    · rename_i isBelow
      rw [mem_cons, mem_cons, or_left_comm, ← mem_cons] at mem
      rcases mem with rfl | mem
      · exact ⟨prev, mem_cons_self, isBelow⟩
      · exact ih mem
    · rcases mem_cons.mp mem with rfl | mem
      · exact ⟨target, mem_cons_self, below_refl target⟩
      · obtain ⟨kept, isKept, below⟩ := ih mem
        exact ⟨kept, mem_cons_of_mem prev isKept, below⟩

/-- No kept target is below another one, and every target is below a kept one, exactly if
of any two targets of which one is below the other one follows some target. -/
theorem keptTargets_apart_iff (targets : List String) :
    ((∀ kept ∈ keptTargets targets, ∀ other ∈ keptTargets targets,
          kept ≠ other → ¬ Below kept other) ∧
        ∀ target ∈ targets, ∃ kept ∈ keptTargets targets, Below target kept) ↔
      ∀ target ∈ targets, ∀ other ∈ targets, target ≠ other → Below target other →
        Follows targets target ∨ Follows targets other := by
  have sorted := pairwise_insertionSort (· ≤ ·) targets
  have same : ∀ target, target ∈ targets ↔ target ∈ targets.insertionSort (· ≤ ·) :=
    fun target => (mem_insertionSort (· ≤ ·)).symm
  simp only [keptTargets, Follows, same]
  cases elements : targets.insertionSort (· ≤ ·) with
  | nil => simp [retain]
  | cons prev targets =>
    rw [elements] at sorted
    rw [show retain none (prev :: targets) = prev :: retain (some prev) targets from rfl,
      and_iff_left fun target => exists_retained]
    simp only [mem_retain_iff sorted]
    constructor
    · intro apart target mem other isOther distinct below
      by_contra leads
      rw [not_or] at leads
      exact apart target ⟨mem, leads.1⟩ other ⟨isOther, leads.2⟩ distinct below
    · intro follow target kept other isOther distinct below
      rcases follow target kept.1 other isOther.1 distinct below with follows | follows
      · exact kept.2 follows
      · exact isOther.2 follows

/-- A directory, a sibling whose name comes in between, and a file in the directory. -/
theorem keptTargets_sibling :
    keptTargets ["/a", "/a-b", "/a/c"] = ["/a", "/a-b", "/a/c"] ∧ Below "/a/c" "/a" := by
  decide +kernel

end Magisk.Core
