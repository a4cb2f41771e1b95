import Magisk.SePolicy.XpermSet

/-!
# Runs of extended permission rules

A call of `add_xperm_rule` on a source type, a target type and a class edits the
nodes of one key.  The set of ioctl numbers a key allows is read off its nodes, and
a call whose range stays inside one driver acts on this set as announced: it adds
the range, or replaces the set by the complement of the range.
-/

namespace Magisk.SePolicy

open List

/-- The ioctl numbers that some node of a key allows. -/
def PolicyDb.allowedIoctls (db : PolicyDb) (key : AvtabKey) : Set UInt16 :=
  { n | permits (db.teAvtab.data key) n = true }

/-- No key has two driver nodes or two function nodes for one driver. -/
def PolicyDb.UniqueNodes (db : PolicyDb) : Prop :=
  ∀ key, UniqueSlots (db.teAvtab.data key)

/-- A call of `add_xperm_rule` on concrete symbols for a range inside one
driver. -/
structure XpermCall where
  src : TypeDatum
  tgt : TypeDatum
  cls : ClassDatum
  p : Xperm
  effect : Specified
  extended : effect ∈ [.xpermsAllowed, .xpermsAuditallow, .xpermsDontaudit]
  ordered : p.low ≤ p.high
  oneDriver : ioctlDriver p.low = ioctlDriver p.high

namespace XpermCall

/-- The key a call edits. -/
def key (call : XpermCall) : AvtabKey :=
  avtabKey call.src call.tgt call.cls call.effect

/-- The numbers of a call. -/
def range (call : XpermCall) : Set UInt16 :=
  { n | call.p.low ≤ n ∧ n ≤ call.p.high }

/-- Perform a call. -/
def run (db : PolicyDb) (call : XpermCall) : PolicyDb :=
  db.addXpermRuleDatum call.p call.effect (some call.src) (some call.tgt) (some call.cls)

/-- What a call does to the policy. -/
structure Edits (call : XpermCall) (before after : PolicyDb) : Prop where
  unique : after.UniqueNodes
  grows : call.p.reset = false →
    after.allowedIoctls call.key = before.allowedIoctls call.key ∪ call.range
  resets : call.p.reset = true → after.allowedIoctls call.key = call.rangeᶜ
  others : ∀ key, key ≠ call.key → after.teAvtab.data key = before.teAvtab.data key

variable {db : PolicyDb} {call : XpermCall}

theorem run_eq (supported : xpermsIoctlVersion ≤ db.policyvers) :
    run db call = { db with teAvtab := db.teAvtab.editXperm call.key call.p } := by
  change db.addXpermRuleAt call.p call.effect call.src call.tgt call.cls = _
  rw [PolicyDb.addXpermRuleAt, if_neg (UInt32.not_lt.mpr supported)]
  rfl

theorem policyvers_run (db : PolicyDb) (call : XpermCall) :
    (run db call).policyvers = db.policyvers := by
  change (db.addXpermRuleAt call.p call.effect call.src call.tgt call.cls).policyvers = _
  rw [PolicyDb.addXpermRuleAt]
  split <;> rfl

theorem mem_range_iff (call : XpermCall) (n : UInt16) :
    n ∈ call.range ↔ inRange call.p.low call.p.high n = true := by
  rw [inRange, Bool.and_eq_true, decide_eq_true_eq, decide_eq_true_eq]
  rfl

/-- Inside one driver a rule without reset adds exactly its range. -/
theorem covers_eq (call : XpermCall) (n : UInt16) :
    call.p.covers n = inRange call.p.low call.p.high n := by
  rw [Xperm.covers, if_neg (not_not.mpr call.oneDriver), Bool.eq_iff_iff,
    inRange_iff call.oneDriver, Bool.and_eq_true, decide_eq_true_eq, decide_eq_true_eq, eq_comm]

/-- One call. -/
theorem edits_run (supported : xpermsIoctlVersion ≤ db.policyvers) (unique : db.UniqueNodes) :
    call.Edits db (run db call) := by
  rw [run_eq supported]
  have others : ∀ key, key ≠ call.key →
      (db.teAvtab.editXperm call.key call.p).data key = db.teAvtab.data key :=
    fun key ne => Avtab.data_editXperm_of_ne ne db.teAvtab call.p
  have uniqueNodes (edited : UniqueSlots ((db.teAvtab.editXperm call.key call.p).data call.key)) :
      ({ db with teAvtab := db.teAvtab.editXperm call.key call.p } : PolicyDb).UniqueNodes := by
    intro key
    by_cases same : key = call.key
    · rw [same]
      exact edited
    · rw [others key same]
      exact unique key
  cases reset : call.p.reset with
  | false =>
    have step : db.teAvtab.editXperm call.key call.p = db.teAvtab.extendXperm call.key call.p := by
      rw [Avtab.editXperm, reset, if_neg (by decide)]
    have spec := Avtab.extendXperm_spec call.p (unique call.key)
    rw [← step] at spec
    refine ⟨uniqueNodes spec.1, fun _ => ?_,
      fun other => absurd (reset.symm.trans other) (by simp), others⟩
    ext n
    rw [Set.mem_union, mem_range_iff, ← covers_eq]
    change permits ((db.teAvtab.editXperm call.key call.p).data call.key) n = true ↔ _
    rw [spec.2, Bool.or_eq_true]
    rfl
  | true =>
    have step : db.teAvtab.editXperm call.key call.p = db.teAvtab.resetXperm call.key call.p := by
      rw [Avtab.editXperm, reset, if_pos rfl]
    have spec := Avtab.resetXperm_spec (unique call.key) call.oneDriver
    rw [← step] at spec
    refine ⟨uniqueNodes spec.1, fun other => absurd (reset.symm.trans other) (by simp),
      fun _ => ?_, others⟩
    ext n
    rw [Set.mem_compl_iff, mem_range_iff]
    change permits ((db.teAvtab.editXperm call.key call.p).data call.key) n = true ↔ _
    rw [spec.2, Bool.not_eq_true', Bool.not_eq_true]

theorem policyvers_foldl_run (db : PolicyDb) (calls : List XpermCall) :
    (calls.foldl run db).policyvers = db.policyvers := by
  induction calls generalizing db with
  | nil => rfl
  | cons call calls ih => rw [foldl_cons, ih, policyvers_run]

/-- A run keeps the nodes of every key unique. -/
theorem uniqueNodes_foldl_run (supported : xpermsIoctlVersion ≤ db.policyvers)
    (unique : db.UniqueNodes) (calls : List XpermCall) : (calls.foldl run db).UniqueNodes := by
  induction calls generalizing db with
  | nil => exact unique
  | cons call calls ih =>
    apply ih
    · rw [policyvers_run]
      exact supported
    · exact (edits_run supported unique).unique

/-- After a run of any calls the nodes of every key are unique, and one more call
has its announced effect on the set of its key and leaves the other keys alone. -/
theorem edits_after_run (db : PolicyDb) (supported : xpermsIoctlVersion ≤ db.policyvers)
    (unique : db.UniqueNodes) (calls : List XpermCall) (call : XpermCall) :
    (calls.foldl run db).UniqueNodes ∧
      call.Edits (calls.foldl run db) ((calls ++ [call]).foldl run db) := by
  refine ⟨uniqueNodes_foldl_run supported unique calls, ?_⟩
  rw [foldl_append, foldl_cons]
  apply edits_run
  · rw [policyvers_foldl_run]
    exact supported
  · exact uniqueNodes_foldl_run supported unique calls

/-- A call on the first type and class for one range. -/
def onFirst (p : Xperm) (ordered : p.low ≤ p.high)
    (oneDriver : ioctlDriver p.low = ioctlDriver p.high) : XpermCall :=
  ⟨⟨1, .type⟩, ⟨1, .type⟩, ⟨1, [], none⟩, p, .xpermsAllowed, by decide, ordered, oneDriver⟩

/-- A policy without rules. -/
def noRules : PolicyDb :=
  { policyvers := 30, types := [], classes := [], teAvtab := ⟨[], 0⟩ }

theorem uniqueNodes_noRules : noRules.UniqueNodes :=
  fun _ => ⟨Nat.zero_le 1, fun _ => Nat.zero_le 1⟩

/-- A whole driver is added, and then all but three numbers are allowed. -/
theorem edits_after_run_onFirst : (onFirst ⟨0x8910, 0x8912, true⟩ (by decide) (by decide)).Edits
      ([onFirst ⟨0x8900, 0x89FF, false⟩ (by decide) (by decide)].foldl run noRules)
      ([onFirst ⟨0x8900, 0x89FF, false⟩ (by decide) (by decide),
        onFirst ⟨0x8910, 0x8912, true⟩ (by decide) (by decide)].foldl run noRules) :=
  (edits_after_run noRules (by decide) uniqueNodes_noRules [_] _).2

end XpermCall

end Magisk.SePolicy
