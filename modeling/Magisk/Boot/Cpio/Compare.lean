import Magisk.Boot.Cpio.Backup

/-!
# The comparison loop of a backup

The loop walks two name-ordered lists in step.  Its actions are characterised
by membership: it backs up exactly the original entries that are missing or
different now, and records exactly the names that are new.
-/

namespace Magisk.Boot.Cpio

open List
open Std (ExtTreeMap)

variable {name other : String} {entry : CpioEntry} {items left right : List (String × CpioEntry)}
  {original current : Entries}

/-! ## The comparison loop on ordered lists -/

/-- Names in strictly increasing order. -/
def Ordered (items : List (String × CpioEntry)) : Prop :=
  items.Pairwise fun a b => compare a.1 b.1 = .lt

/-- Every name of `items` comes after `name`. -/
def After (name : String) (items : List (String × CpioEntry)) : Prop :=
  ∀ item ∈ items, compare name item.1 = .lt

theorem After.notMem (after : After name items) (entry : CpioEntry) : (name, entry) ∉ items := by
  intro mem
  have less := after _ mem
  rw [compare_eq_iff_eq.mpr rfl] at less
  contradiction

theorem After.cons (less : compare name other = .lt) (after : After other items) :
    After name ((other, entry) :: items) := by
  intro item mem
  rcases mem_cons.mp mem with rfl | tailMem
  · exact less
  · exact Std.TransCmp.lt_trans less (after item tailMem)

theorem Ordered.uncons (ordered : Ordered ((name, entry) :: items)) :
    After name items ∧ Ordered items :=
  pairwise_cons.mp ordered

theorem After.ne (after : After other items) (mem : (name, entry) ∈ items) : name ≠ other := by
  rintro rfl
  exact after.notMem entry mem

/-- The first item does not matter for the entries of another name. -/
theorem forall_mem_cons_iff {first : String} {holds : CpioEntry → Prop} (apart : name ≠ first) :
    (∀ other, (name, other) ∈ (first, entry) :: items → holds other) ↔
      ∀ other, (name, other) ∈ items → holds other := by
  constructor
  · intro all other mem
    exact all other (mem_cons_of_mem _ mem)
  · intro all other mem
    rcases mem_cons.mp mem with equal | tailMem
    · cases equal
      exact absurd rfl apart
    · exact all other tailMem

/-- The loop backs up the original entries without an equal counterpart. -/
theorem backup_mem_actions_iff (leftOrdered : Ordered left) (rightOrdered : Ordered right) :
    .backup name entry ∈ actions left right ↔
      (name, entry) ∈ left ∧ ∀ other, (name, other) ∈ right → other.data ≠ entry.data := by
  fun_induction actions left right with
  | case1 ln le left rn re right less ih =>
    have missing := (After.cons less rightOrdered.uncons.1 : After ln ((rn, re) :: right)).notMem
    rw [mem_cons, ih leftOrdered.uncons.2 rightOrdered, mem_cons, or_and_right, Action.backup.injEq,
      ← Prod.mk.injEq]
    refine or_congr_left (iff_self_and.mpr fun same other mem => ?_)
    cases same
    exact absurd mem (missing other)
  | case2 ln le left rn re right greater ih =>
    have less := Std.OrientedCmp.gt_iff_lt.mp greater
    have headAfter : After rn ((ln, le) :: left) := .cons less leftOrdered.uncons.1
    rw [mem_cons, or_iff_right nofun, ih leftOrdered rightOrdered.uncons.2]
    exact and_congr_right fun mem => (forall_mem_cons_iff (headAfter.ne mem)).symm
  | case3 ln le left rn re right equal ih =>
    cases Std.LawfulEqCmp.eq_of_compare equal
    obtain ⟨leftAfter, leftTail⟩ := leftOrdered.uncons
    obtain ⟨rightAfter, rightTail⟩ := rightOrdered.uncons
    rw [mem_cons, ih leftTail rightTail, mem_cons, or_and_right]
    refine or_congr ?_ (and_congr_right fun mem => (forall_mem_cons_iff (leftAfter.ne mem)).symm)
    constructor
    · intro equal
      by_cases differs : re.data ≠ le.data
      · rw [if_pos differs] at equal
        cases equal
        refine ⟨rfl, fun other otherMem => ?_⟩
        rcases mem_cons.mp otherMem with equal | tailMem
        · cases equal
          exact differs
        · exact absurd tailMem (rightAfter.notMem other)
      · rw [if_neg differs] at equal
        cases equal
    · rintro ⟨⟨⟩, differs⟩
      rw [if_pos (differs re mem_cons_self)]
  | case4 ln le left ih =>
    rw [mem_cons, ih leftOrdered.uncons.2 rightOrdered]
    simp
  | case5 rn re right ih =>
    rw [mem_cons, ih leftOrdered rightOrdered.uncons.2]
    simp
  | case6 => simp

/-- The loop records the current names without an original counterpart. -/
theorem record_mem_actions_iff (leftOrdered : Ordered left) (rightOrdered : Ordered right) :
    .record name ∈ actions left right ↔
      (∃ entry, (name, entry) ∈ right) ∧ ∀ entry, (name, entry) ∉ left := by
  fun_induction actions left right with
  | case1 ln le left rn re right less ih =>
    have headAfter : After ln ((rn, re) :: right) := .cons less rightOrdered.uncons.1
    rw [mem_cons, or_iff_right nofun, ih leftOrdered.uncons.2 rightOrdered]
    exact and_congr_right fun ⟨entry, mem⟩ => (forall_mem_cons_iff (headAfter.ne mem)).symm
  | case2 ln le left rn re right greater ih =>
    have less := Std.OrientedCmp.gt_iff_lt.mp greater
    have missing := (After.cons less leftOrdered.uncons.1 : After rn ((ln, le) :: left)).notMem
    rw [mem_cons, ih leftOrdered rightOrdered.uncons.2]
    simp only [mem_cons, exists_or, or_and_right, Prod.mk.injEq, exists_and_left, exists_eq, and_true,
      Action.record.injEq]
    refine or_congr_left (iff_self_and.mpr fun same => ?_)
    cases same
    simpa using missing
  | case3 ln le left rn re right equal ih =>
    cases Std.LawfulEqCmp.eq_of_compare equal
    obtain ⟨rightAfter, rightTail⟩ := rightOrdered.uncons
    have headOther : .record name ≠ if re.data ≠ le.data then Action.backup ln le else .noop := by
      split <;> simp
    rw [mem_cons, ih leftOrdered.uncons.2 rightTail, or_iff_right headOther]
    constructor
    · rintro ⟨⟨entry, mem⟩, absent⟩
      exact ⟨⟨entry, mem_cons_of_mem _ mem⟩, (forall_mem_cons_iff (rightAfter.ne mem)).mpr absent⟩
    · rintro ⟨⟨entry, mem⟩, absent⟩
      rcases mem_cons.mp mem with equal | tailMem
      · cases equal
        exact absurd mem_cons_self (absent le)
      · exact ⟨⟨entry, tailMem⟩, (forall_mem_cons_iff (rightAfter.ne tailMem)).mp absent⟩
  | case4 ln le left ih =>
    rw [mem_cons, ih leftOrdered.uncons.2 rightOrdered]
    simp
  | case5 rn re right ih =>
    rw [mem_cons, ih leftOrdered rightOrdered.uncons.2]
    simp [exists_or]
  | case6 => simp

theorem ordered_toList (entries : Entries) : Ordered entries.toList :=
  ExtTreeMap.ordered_keys_toList

/-- The comparison of two archives backs up what is missing or different. -/
theorem backup_mem_actions_toList_iff :
    .backup name entry ∈ actions original.toList current.toList ↔ original[name]? = some entry ∧
        ∀ other, current[name]? = some other → other.data ≠ entry.data := by
  simp only [backup_mem_actions_iff (ordered_toList original) (ordered_toList current),
    ExtTreeMap.mem_toList_iff_getElem?_eq_some]

/-- The comparison of two archives records what is new. -/
theorem record_mem_actions_toList_iff : .record name ∈ actions original.toList current.toList ↔
      (∃ entry, current[name]? = some entry) ∧ original[name]? = none := by
  simp only [record_mem_actions_iff (ordered_toList original) (ordered_toList current),
    ExtTreeMap.mem_toList_iff_getElem?_eq_some, Option.eq_none_iff_forall_ne_some]

end Magisk.Boot.Cpio
