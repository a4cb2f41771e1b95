import Magisk.SePolicy.Xperm

/-!
# Extended permissions as sets of ioctl numbers

The nodes of a key represent a set of ioctl numbers twice over, by whole
drivers and by functions.  As long as a key has at most one driver node and one
function node per driver, resetting to the complement of a range inside one
driver makes the represented set that complement.
-/

namespace Magisk.SePolicy

open AvtabDatum List Multimap

variable {key other : AvtabKey} {avtab : Avtab} {i driver : Nat} {edit : BitVec 256 → BitVec 256}

/-! ## Numbers and bitmaps -/

theorem ioctlDriver_eq (n : UInt16) : ioctlDriver n = n.toNat / 256 := by
  have bound := n.toNat_lt
  have mask : (0xFF : Nat) = 2 ^ 8 - 1 := rfl
  rw [ioctlDriver, UInt16.toNat_and, UInt16.toNat_shiftRight]
  simp only [UInt16.reduceToNat, Nat.reduceMod]
  rw [mask, Nat.and_two_pow_sub_one_eq_mod]
  omega

theorem ioctlFunc_eq (n : UInt16) : ioctlFunc n = n.toNat % 256 := by
  have mask : (0xFF : Nat) = 2 ^ 8 - 1 := rfl
  rw [ioctlFunc, UInt16.toNat_and]
  simp only [UInt16.reduceToNat]
  rw [mask, Nat.and_two_pow_sub_one_eq_mod]

theorem ioctlDriver_lt (n : UInt16) : ioctlDriver n < 256 := by
  have bound := n.toNat_lt
  rw [ioctlDriver_eq]
  omega

theorem ioctlFunc_lt (n : UInt16) : ioctlFunc n < 256 := by
  rw [ioctlFunc_eq]
  exact Nat.mod_lt _ (by decide)

theorem getLsbD_xpermClear (inside : i < 256) (perms : BitVec 256) (x : Nat) :
    (xpermClear perms x).getLsbD i = (perms.getLsbD i && !decide (x = i)) := by
  simp only [xpermClear, BitVec.getLsbD_and, BitVec.getLsbD_not, inside]
  by_cases same : x = i
  · simp [same, inside]
  · simp [same]

theorem getLsbD_foldl_xpermClear (inside : i < 256) (list : List Nat) (perms : BitVec 256) :
    (list.foldl xpermClear perms).getLsbD i = (perms.getLsbD i && !decide (i ∈ list)) := by
  induction list generalizing perms with
  | nil => simp
  | cons x rest ih =>
    rw [foldl_cons, ih, getLsbD_xpermClear inside]
    by_cases same : x = i
    · simp [same]
    · simp [same, Ne.symm same]

theorem getLsbD_clearRange (inside : i < 256) (low high : Nat) (perms : BitVec 256) :
    (clearRange low high perms).getLsbD i = (perms.getLsbD i && !decide (low ≤ i ∧ i ≤ high)) := by
  have members : i ∈ range' low (high + 1 - low) ↔ low ≤ i ∧ i ≤ high := by
    rw [mem_range'_1]
    omega
  rw [clearRange, getLsbD_foldl_xpermClear inside]
  simp only [members]

/-! ## The represented set -/

/-- One node allows an ioctl number. -/
def ExtendedPerms.permits (xperms : ExtendedPerms) (n : UInt16) : Bool :=
  match xperms.specified with
  | .ioctlDriver => xperms.perms.getLsbD (ioctlDriver n)
  | .ioctlFunction => xperms.driver.toNat = ioctlDriver n && xperms.perms.getLsbD (ioctlFunc n)
  | .other => false

/-- One datum allows an ioctl number. -/
def AvtabDatum.permits (datum : AvtabDatum) (n : UInt16) : Bool :=
  datum.xperms.any fun xperms => xperms.permits n

/-- Some node of a key allows an ioctl number. -/
def permits (list : List AvtabDatum) (n : UInt16) : Bool :=
  list.any fun datum => datum.permits n

/-- At most one driver node, and at most one function node per driver. -/
structure UniqueSlots (list : List AvtabDatum) : Prop where
  driver : list.countP AvtabDatum.isDriver ≤ 1
  function : ∀ driver, list.countP (AvtabDatum.isFunction driver) ≤ 1

theorem UniqueSlots.filter {list : List AvtabDatum} (unique : UniqueSlots list)
    (test : AvtabDatum → Bool) : UniqueSlots (list.filter test) := by
  constructor
  · exact (Sublist.countP_le filter_sublist).trans unique.driver
  · intro driver
    exact (Sublist.countP_le filter_sublist).trans (unique.function driver)

/-- A node listing functions. -/
def AvtabDatum.isAnyFunction (datum : AvtabDatum) : Bool :=
  datum.xperms.any fun xperms => xperms.specified = .ioctlFunction

/-! ## Edits of one key -/

variable {test : AvtabDatum → Bool} {datum : AvtabDatum} {slot : ExtendedPerms}

namespace Avtab

theorem data_removeFunction_self (unique : UniqueSlots (avtab.data key)) (driver : Nat) :
    (avtab.removeFunction key driver).data key =
      (avtab.data key).filter fun datum => !datum.isFunction driver := by
  unfold removeFunction
  by_cases present : (avtab.data key).any (isFunction driver) = true
  · rw [if_pos present, ← alterLast_eq_filter (unique.function driver)]
    exact values_editLast_self key _ _ avtab.nodes
  · rw [if_neg present, filter_eq_self.mpr]
    intro datum mem
    rw [any_eq_true] at present
    cases isFunction : datum.isFunction driver with
    | false => rfl
    | true => exact absurd ⟨datum, mem, isFunction⟩ present

theorem data_removeFunction_of_ne (ne : other ≠ key) (avtab : Avtab) (driver : Nat) :
    (avtab.removeFunction key driver).data other = avtab.data other := by
  unfold removeFunction
  split
  · exact values_editLast_of_ne ne _ _ avtab.nodes
  · rfl

theorem data_foldl_removeFunction_self (unique : UniqueSlots (avtab.data key))
    (drivers : List Nat) :
    (drivers.foldl (fun avtab driver => avtab.removeFunction key driver) avtab).data key =
      (avtab.data key).filter fun datum => !drivers.any fun driver => datum.isFunction driver := by
  induction drivers generalizing avtab with
  | nil => simp
  | cons driver rest ih =>
    have removed := data_removeFunction_self unique driver
    have stillUnique : UniqueSlots ((avtab.removeFunction key driver).data key) := by
      rw [removed]
      exact unique.filter _
    rw [foldl_cons, ih stillUnique, removed, filter_filter]
    apply filter_congr
    intro datum _
    rw [any_cons, Bool.not_or, Bool.and_comm]

theorem data_foldl_removeFunction_of_ne (ne : other ≠ key) (avtab : Avtab) (drivers : List Nat) :
    (drivers.foldl (fun avtab driver => avtab.removeFunction key driver) avtab).data other =
      avtab.data other := by
  induction drivers generalizing avtab with
  | nil => rfl
  | cons driver rest ih => rw [foldl_cons, ih, data_removeFunction_of_ne ne]

theorem data_editSlot_self (unique : (avtab.data key).countP test ≤ 1) (slot : ExtendedPerms)
    (edit : BitVec 256 → BitVec 256) :
    (avtab.editSlot key test slot edit).data key =
      if (avtab.data key).any test then
        (avtab.data key).map fun datum => if test datum then datum.mapPerms edit else datum
      else
        ⟨initialWord key.specified, some { slot with perms := edit slot.perms }⟩ ::
          avtab.data key := by
  unfold editSlot
  split
  · rw [← alterLast_eq_map _ unique]
    exact values_editLast_self key _ _ avtab.nodes
  · exact data_insertNode_self avtab key _

theorem data_editSlot_of_ne (ne : other ≠ key) (avtab : Avtab) (test : AvtabDatum → Bool)
    (slot : ExtendedPerms) (edit : BitVec 256 → BitVec 256) :
    (avtab.editSlot key test slot edit).data other = avtab.data other := by
  unfold editSlot
  split
  · exact values_editLast_of_ne ne _ _ avtab.nodes
  · exact data_insertNode_of_ne ne avtab _

theorem data_resetXperm_of_ne (ne : other ≠ key) (avtab : Avtab) (p : Xperm) :
    (avtab.resetXperm key p).data other = avtab.data other := by
  unfold resetXperm
  split
  · rw [data_editSlot_of_ne ne, data_foldl_removeFunction_of_ne ne]
  · rw [data_insertNode_of_ne ne, data_editSlot_of_ne ne, data_foldl_removeFunction_of_ne ne]

/-- An extended permission rule edits its own key only. -/
theorem data_editXperm_of_ne (ne : other ≠ key) (avtab : Avtab) (p : Xperm) :
    (avtab.editXperm key p).data other = avtab.data other := by
  unfold editXperm
  split
  · exact data_resetXperm_of_ne ne avtab p
  · unfold extendXperm
    split
    · exact data_editSlot_of_ne ne avtab _ _ _
    · exact data_editSlot_of_ne ne avtab _ _ _

end Avtab

/-! ## Resetting to a complement -/

namespace AvtabDatum

theorem permits_mapPerms (isDriver : datum.isDriver = true) (perms : BitVec 256) (n : UInt16) :
    (datum.mapPerms fun _ => perms).permits n = perms.getLsbD (SePolicy.ioctlDriver n) := by
  obtain ⟨data, xperms⟩ := datum
  cases xperms with
  | none => simp [AvtabDatum.isDriver] at isDriver
  | some xperms =>
    have specified : xperms.specified = .ioctlDriver := by
      simpa [AvtabDatum.isDriver] using isDriver
    simp [permits, mapPerms, ExtendedPerms.permits, specified]

theorem permits_eq_false (notDriver : datum.isDriver = false)
    (notFunction : datum.isAnyFunction = false) (n : UInt16) : datum.permits n = false := by
  obtain ⟨data, xperms⟩ := datum
  cases xperms with
  | none => rfl
  | some xperms =>
    obtain ⟨specified, driver, perms⟩ := xperms
    cases specified with
    | ioctlFunction => simp [isAnyFunction] at notFunction
    | ioctlDriver => simp [isDriver] at notDriver
    | other => rfl

theorem any_isFunction_iff (datum : AvtabDatum) :
    ((List.range 256).any fun driver => datum.isFunction driver) = datum.isAnyFunction := by
  obtain ⟨data, xperms⟩ := datum
  cases xperms with
  | none => simp [isFunction, isAnyFunction]
  | some xperms =>
    have bound := xperms.driver.toNat_lt
    by_cases specified : xperms.specified = .ioctlFunction
    · simp [isFunction, isAnyFunction, specified, bound]
    · simp [isFunction, isAnyFunction, specified]

theorem isAnyFunction_of_isFunction (isFunction : datum.isFunction driver = true) :
    datum.isAnyFunction = true := by
  obtain ⟨data, xperms⟩ := datum
  cases xperms with
  | none => simp [AvtabDatum.isFunction] at isFunction
  | some xperms =>
    simp only [AvtabDatum.isFunction, Option.any_some, Bool.and_eq_true] at isFunction
    exact isFunction.1

theorem isAnyFunction_mapPerms (datum : AvtabDatum) (edit : BitVec 256 → BitVec 256) :
    (datum.mapPerms edit).isAnyFunction = datum.isAnyFunction := by
  obtain ⟨data, xperms⟩ := datum
  cases xperms <;> rfl

end AvtabDatum

/-- A list of nodes without functions: what it allows is decided by its one
driver node. -/
structure DriversOnly (list : List AvtabDatum) : Prop where
  noFunction : ∀ datum ∈ list, datum.isAnyFunction = false
  unique : list.countP AvtabDatum.isDriver ≤ 1

namespace DriversOnly

variable {list : List AvtabDatum}

section

variable (driversOnly : DriversOnly list)
include driversOnly

theorem map (perms : BitVec 256) :
    DriversOnly (list.map fun datum =>
      if datum.isDriver then datum.mapPerms fun _ => perms else datum) := by
  constructor
  · intro datum mem
    obtain ⟨old, oldMem, rfl⟩ := mem_map.mp mem
    split
    · rw [isAnyFunction_mapPerms]
      exact driversOnly.noFunction old oldMem
    · exact driversOnly.noFunction old oldMem
  · rw [countP_map]
    refine le_trans (countP_mono_left ?_) driversOnly.unique
    intro datum _ isDriver
    by_cases already : datum.isDriver = true
    · exact already
    · simp only [Function.comp_apply, if_neg already] at isDriver
      exact isDriver

theorem permits_map (present : list.any isDriver = true) (perms : BitVec 256) (n : UInt16) :
    permits (list.map fun datum =>
      if datum.isDriver then datum.mapPerms fun _ => perms else datum) n =
        perms.getLsbD (ioctlDriver n) := by
  rw [Bool.eq_iff_iff, permits, any_map, any_eq_true]
  constructor
  · rintro ⟨datum, mem, allowed⟩
    by_cases isDriver : datum.isDriver = true
    · simpa only [Function.comp_apply, if_pos isDriver, permits_mapPerms isDriver] using allowed
    · have denied := permits_eq_false (Bool.eq_false_iff.mpr isDriver)
        (driversOnly.noFunction datum mem) n
      simp only [Function.comp_apply, if_neg isDriver, denied] at allowed
      contradiction
  · intro bit
    obtain ⟨datum, mem, isDriver⟩ := any_eq_true.mp present
    refine ⟨datum, mem, ?_⟩
    simpa only [Function.comp_apply, if_pos isDriver, permits_mapPerms isDriver] using bit

theorem countP_isFunction (driver : Nat) : list.countP (isFunction driver) = 0 := by
  rw [countP_eq_zero]
  intro datum mem isFunction
  have noFunction := driversOnly.noFunction datum mem
  rw [isAnyFunction_of_isFunction isFunction] at noFunction
  contradiction

theorem permits_eq_false (absent : list.any AvtabDatum.isDriver = false) (n : UInt16) :
    permits list n = false := by
  rw [permits, any_eq_false]
  intro datum mem
  have notDriver := any_eq_false.mp absent datum mem
  rw [AvtabDatum.permits_eq_false (Bool.eq_false_iff.mpr notDriver)
    (driversOnly.noFunction datum mem)]
  decide

end

end DriversOnly

namespace Avtab

/-- Filling in the driver node decides what a key without functions allows. -/
theorem driversOnly_editSlot (driversOnly : DriversOnly (avtab.data key)) (perms : BitVec 256) :
    DriversOnly ((avtab.editSlot key isDriver newDriverNode fun _ => perms).data key) ∧
      ∀ n, permits ((avtab.editSlot key isDriver newDriverNode
        fun _ => perms).data key) n = perms.getLsbD (ioctlDriver n) := by
  rw [data_editSlot_self driversOnly.unique]
  cases present : (avtab.data key).any isDriver with
  | true => exact ⟨driversOnly.map perms, driversOnly.permits_map present perms⟩
  | false =>
    have absent : (avtab.data key).countP isDriver = 0 := by
      rw [countP_eq_zero]
      exact any_eq_false.mp present
    refine ⟨⟨?_, ?_⟩, fun n => ?_⟩
    · intro datum mem
      rcases mem_cons.mp mem with rfl | tailMem
      · rfl
      · exact driversOnly.noFunction datum tailMem
    · rw [if_neg (by decide), countP_cons]
      split <;> omega
    · have rest := driversOnly.permits_eq_false present n
      rw [permits] at rest
      rw [if_neg (by decide), permits, any_cons, rest, Bool.or_false]
      rfl

/-- Removing the function nodes of all drivers leaves none. -/
theorem driversOnly_foldl_removeFunction (unique : UniqueSlots (avtab.data key)) :
    DriversOnly (((List.range 256).foldl
      (fun avtab driver => avtab.removeFunction key driver) avtab).data key) := by
  rw [data_foldl_removeFunction_self unique]
  constructor
  · intro datum mem
    have kept := (mem_filter.mp mem).2
    rw [any_isFunction_iff] at kept
    simpa using kept
  · exact (unique.filter _).driver

end Avtab

/-- The numbers from `low` to `high`. -/
def inRange (low high n : UInt16) : Bool :=
  low ≤ n && n ≤ high

/-- Inside one driver, a range of numbers is a range of functions. -/
theorem inRange_iff {low high : UInt16} (sameDriver : ioctlDriver low = ioctlDriver high)
    (n : UInt16) :
    inRange low high n = true ↔ ioctlDriver n = ioctlDriver low ∧ ioctlFunc low ≤ ioctlFunc n ∧
        ioctlFunc n ≤ ioctlFunc high := by
  simp only [inRange, Bool.and_eq_true, decide_eq_true_eq, UInt16.le_iff_toNat_le]
  simp only [ioctlDriver_eq] at sameDriver
  simp only [ioctlDriver_eq, ioctlFunc_eq]
  omega

theorem permits_newFuncNode (driver low high : Nat) (bound : driver < 256) (n : UInt16) :
    ({ Avtab.newFuncNode driver with
      perms := clearRange low high (BitVec.allOnes 256) } : ExtendedPerms).permits n =
      (decide (driver = ioctlDriver n) && !decide (low ≤ ioctlFunc n ∧ ioctlFunc n ≤ high)) := by
  have fits : driver.toUInt8.toNat = driver := by
    simp only [UInt8.toNat_ofNat']
    omega
  simp only [ExtendedPerms.permits, Avtab.newFuncNode, fits, getLsbD_clearRange (ioctlFunc_lt n),
    BitVec.getLsbD_allOnes, ioctlFunc_lt n, decide_true, Bool.true_and]

/-- A reset inside one driver makes the set of a key the complement of the
range, whatever it was before. -/
theorem Avtab.resetXperm_spec {p : Xperm} (unique : UniqueSlots (avtab.data key))
    (sameDriver : ioctlDriver p.low = ioctlDriver p.high) :
    UniqueSlots ((avtab.resetXperm key p).data key) ∧
      ∀ n, permits ((avtab.resetXperm key p).data key) n = !inRange p.low p.high n := by
  obtain ⟨driversOnly, drivers⟩ := driversOnly_editSlot (driversOnly_foldl_removeFunction unique)
    (xpermClear (BitVec.allOnes 256) (ioctlDriver p.low))
  unfold resetXperm
  rw [if_neg (not_not.mpr sameDriver), data_insertNode_self]
  generalize Avtab.data _ key = list at driversOnly drivers ⊢
  constructor
  · constructor
    · exact driversOnly.unique
    · intro driver
      rw [countP_cons, driversOnly.countP_isFunction driver]
      split <;> omega
  · intro n
    have function := permits_newFuncNode (ioctlDriver p.low) (ioctlFunc p.low) (ioctlFunc p.high)
      (ioctlDriver_lt p.low) n
    rw [permits, any_cons, ← permits, drivers, getLsbD_xpermClear (ioctlDriver_lt n),
      AvtabDatum.permits, Option.any_some, function, Bool.eq_iff_iff]
    simp only [Bool.or_eq_true, Bool.and_eq_true, Bool.not_eq_true', decide_eq_true_eq,
      BitVec.getLsbD_allOnes, ← Bool.not_eq_true, inRange_iff sameDriver]
    have bound := ioctlDriver_lt n
    omega

/-- In a run of resets inside single drivers only the last one counts. -/
theorem Avtab.foldl_editXperm_reset {items : List Xperm} {last : Xperm}
    (unique : UniqueSlots (avtab.data key))
    (resets : ∀ p ∈ items ++ [last], p.reset = true ∧ ioctlDriver p.low = ioctlDriver p.high) :
    UniqueSlots (((items ++ [last]).foldl (fun avtab p => avtab.editXperm key p) avtab).data key) ∧
      ∀ n, permits (((items ++ [last]).foldl (fun avtab p => avtab.editXperm key p) avtab).data
        key) n = !inRange last.low last.high n := by
  induction items generalizing avtab with
  | nil =>
    obtain ⟨isReset, sameDriver⟩ := resets last mem_cons_self
    simp only [nil_append, foldl_cons, editXperm, isReset]
    exact resetXperm_spec unique sameDriver
  | cons p rest ih =>
    obtain ⟨isReset, sameDriver⟩ := resets p mem_cons_self
    have stepped : UniqueSlots ((avtab.editXperm key p).data key) := by
      rw [editXperm, if_pos isReset]
      exact (resetXperm_spec unique sameDriver).1
    exact ih stepped fun other mem => resets other (mem_cons_of_mem p mem)

theorem Avtab.data_foldl_editXperm_of_ne (ne : other ≠ key) (avtab : Avtab) (items : List Xperm) :
    (items.foldl (fun avtab p => avtab.editXperm key p) avtab).data other = avtab.data other := by
  induction items generalizing avtab with
  | nil => rfl
  | cons p rest ih => rw [foldl_cons, ih, data_editXperm_of_ne ne]

/-! ## Adding values and ranges -/

theorem getLsbD_xpermSet (inside : i < 256) (perms : BitVec 256) (x : Nat) :
    (xpermSet perms x).getLsbD i = (perms.getLsbD i || decide (x = i)) := by
  simp only [xpermSet]
  by_cases same : x = i
  · simp [same, inside]
  · simp [same]

theorem getLsbD_foldl_xpermSet (inside : i < 256) (list : List Nat) (perms : BitVec 256) :
    (list.foldl xpermSet perms).getLsbD i = (perms.getLsbD i || decide (i ∈ list)) := by
  induction list generalizing perms with
  | nil => simp
  | cons x rest ih =>
    rw [foldl_cons, ih, getLsbD_xpermSet inside]
    by_cases same : x = i
    · simp [same]
    · simp [same, Ne.symm same]

theorem getLsbD_setRange (inside : i < 256) (low high : Nat) (perms : BitVec 256) :
    (setRange low high perms).getLsbD i = (perms.getLsbD i || decide (low ≤ i ∧ i ≤ high)) := by
  have members : i ∈ range' low (high + 1 - low) ↔ low ≤ i ∧ i ≤ high := by
    rw [mem_range'_1]
    omega
  rw [setRange, getLsbD_foldl_xpermSet inside]
  simp only [members]

/-- The numbers that a value or range without reset adds: functions inside one
driver, whole drivers otherwise. -/
def Xperm.covers (p : Xperm) (n : UInt16) : Bool :=
  if ioctlDriver p.low ≠ ioctlDriver p.high then
    decide (ioctlDriver p.low ≤ ioctlDriver n ∧ ioctlDriver n ≤ ioctlDriver p.high)
  else
    decide (ioctlDriver p.low = ioctlDriver n) &&
      decide (ioctlFunc p.low ≤ ioctlFunc n ∧ ioctlFunc n ≤ ioctlFunc p.high)

namespace AvtabDatum

theorem isDriver_mapPerms (datum : AvtabDatum) (edit : BitVec 256 → BitVec 256) :
    (datum.mapPerms edit).isDriver = datum.isDriver := by
  rcases datum with ⟨data, xperms⟩
  cases xperms <;> rfl

theorem isFunction_mapPerms (driver : Nat) (datum : AvtabDatum) (edit : BitVec 256 → BitVec 256) :
    (datum.mapPerms edit).isFunction driver = datum.isFunction driver := by
  rcases datum with ⟨data, xperms⟩
  cases xperms <;> rfl

theorem permits_mapPerms_setRange_of_isDriver (isDriver : datum.isDriver = true) (low high : Nat)
    (n : UInt16) :
    (datum.mapPerms (setRange low high)).permits n = (datum.permits n ||
        decide (low ≤ SePolicy.ioctlDriver n ∧ SePolicy.ioctlDriver n ≤ high)) := by
  rcases datum with ⟨data, xperms⟩
  cases xperms with
  | none => cases isDriver
  | some xperms =>
    have specified : xperms.specified = .ioctlDriver := by
      simpa [AvtabDatum.isDriver] using isDriver
    simp only [permits, mapPerms, Option.map_some, Option.any_some, ExtendedPerms.permits,
      specified, getLsbD_setRange (ioctlDriver_lt n)]

theorem permits_mapPerms_setRange_of_isFunction (isFunction : datum.isFunction driver = true)
    (low high : Nat) (n : UInt16) :
    (datum.mapPerms (setRange low high)).permits n =
      (datum.permits n || (decide (driver = SePolicy.ioctlDriver n) &&
        decide (low ≤ ioctlFunc n ∧ ioctlFunc n ≤ high))) := by
  rcases datum with ⟨data, xperms⟩
  cases xperms with
  | none => cases isFunction
  | some xperms =>
    simp only [AvtabDatum.isFunction, Option.any_some, Bool.and_eq_true, decide_eq_true_eq]
      at isFunction
    simp only [permits, mapPerms, Option.map_some, Option.any_some, ExtendedPerms.permits,
      isFunction.1, isFunction.2, getLsbD_setRange (ioctlFunc_lt n), Bool.and_or_distrib_left]

end AvtabDatum

/-- An edit of one slot that adds numbers. -/
structure Adds (test : AvtabDatum → Bool) (slot : ExtendedPerms) (edit : BitVec 256 → BitVec 256)
    (hit : UInt16 → Bool) : Prop where
  old : ∀ datum : AvtabDatum, test datum = true → ∀ n,
    (datum.mapPerms edit).permits n = (datum.permits n || hit n)
  fresh : ∀ data n, AvtabDatum.permits ⟨data, some { slot with perms := edit slot.perms }⟩ n = hit n

/-- The nodes of a key after an edit of one slot. -/
theorem Avtab.data_editSlot (avtab : Avtab) (key : AvtabKey) (test : AvtabDatum → Bool)
    (slot : ExtendedPerms) (edit : BitVec 256 → BitVec 256) :
    (avtab.editSlot key test slot edit).data key =
      if (avtab.data key).any test then
        alterLast test (fun datum => some (datum.mapPerms edit)) (avtab.data key)
      else
        ⟨initialWord key.specified, some { slot with perms := edit slot.perms }⟩ ::
          avtab.data key := by
  unfold editSlot
  split
  · exact values_editLast_self key _ _ avtab.nodes
  · exact data_insertNode_self avtab key _

theorem Avtab.permits_editSlot {hit : UInt16 → Bool} (adds : Adds test slot edit hit) (n : UInt16) :
    permits ((avtab.editSlot key test slot edit).data key) n =
      (permits (avtab.data key) n || hit n) := by
  rw [data_editSlot]
  generalize avtab.data key = list
  cases present : list.any test with
  | true =>
    obtain ⟨before, item, after, rfl, holds, none⟩ := exists_last present
    rw [if_pos rfl, alterLast_append_cons _ before holds none, permits, permits, any_append,
      any_append, any_append, any_cons, Option.toList_some, any_cons,
      any_nil, Bool.or_false, adds.old item holds n]
    rw [Bool.or_assoc (item.permits n), Bool.or_comm (hit n), ← Bool.or_assoc (item.permits n),
      ← Bool.or_assoc]
  | false =>
    rw [if_neg (by decide), permits, any_cons, adds.fresh, Bool.or_comm]
    rfl

namespace UniqueSlots

variable {list : List AvtabDatum}

theorem cons (unique : UniqueSlots list)
    (driver : datum.isDriver = true → list.any isDriver = false)
    (function : ∀ driver, datum.isFunction driver = true → list.any (isFunction driver) = false) :
    UniqueSlots (datum :: list) := by
  have one : ∀ {test : AvtabDatum → Bool}, list.countP test ≤ 1 →
      (test datum = true → list.any test = false) → (datum :: list).countP test ≤ 1 := by
    intro test atMost absent
    rw [countP_cons]
    split
    · rename_i isTest
      have none : list.countP test = 0 := by
        rw [countP_eq_zero]
        exact any_eq_false.mp (absent isTest)
      omega
    · exact atMost
  exact ⟨one unique.driver driver, fun other => one (unique.function other) (function other)⟩

theorem map_mapPerms (unique : UniqueSlots list) (test : AvtabDatum → Bool)
    (edit : BitVec 256 → BitVec 256) :
    UniqueSlots (list.map fun datum => if test datum then datum.mapPerms edit else datum) := by
  have kept : ∀ {slot : AvtabDatum → Bool},
      (∀ datum : AvtabDatum, slot (datum.mapPerms edit) = slot datum) →
        (list.map fun datum => if test datum then datum.mapPerms edit else datum).countP slot =
          list.countP slot := by
    intro slot same
    rw [countP_map]
    apply countP_congr
    intro datum _
    rw [Function.comp_apply]
    split
    · rw [same]
    · rfl
  constructor
  · rw [kept fun datum => datum.isDriver_mapPerms edit]
    exact unique.driver
  · intro driver
    rw [kept fun datum => datum.isFunction_mapPerms driver edit]
    exact unique.function driver

end UniqueSlots

/-- An edit of a slot keeps the slots unique if a new node is one of that slot. -/
theorem Avtab.uniqueSlots_editSlot (unique : UniqueSlots (avtab.data key))
    (once : (avtab.data key).countP test ≤ 1)
    (driver : slot.specified = .ioctlDriver → test = AvtabDatum.isDriver)
    (function : slot.specified = .ioctlFunction → test = AvtabDatum.isFunction slot.driver.toNat) :
    UniqueSlots ((avtab.editSlot key test slot edit).data key) := by
  rw [data_editSlot_self once]
  cases present : (avtab.data key).any test with
  | true => exact unique.map_mapPerms test edit
  | false =>
    apply unique.cons
    · intro isDriver
      have specified : slot.specified = .ioctlDriver := by
        simpa [AvtabDatum.isDriver] using isDriver
      rw [← driver specified]
      exact present
    · intro other isFunction
      simp only [AvtabDatum.isFunction, Option.any_some, Bool.and_eq_true, decide_eq_true_eq]
        at isFunction
      rw [← isFunction.2, ← function isFunction.1]
      exact present

theorem adds_driver (low high : Nat) :
    Adds AvtabDatum.isDriver Avtab.newDriverNode (setRange low high)
      (fun n => decide (low ≤ ioctlDriver n ∧ ioctlDriver n ≤ high)) := by
  constructor
  · intro datum isDriver n
    exact AvtabDatum.permits_mapPerms_setRange_of_isDriver isDriver low high n
  · intro data n
    have grown := AvtabDatum.permits_mapPerms_setRange_of_isDriver
      (show AvtabDatum.isDriver ⟨data, some Avtab.newDriverNode⟩ = true from rfl) low high n
    have empty : AvtabDatum.permits ⟨data, some Avtab.newDriverNode⟩ n = false :=
      BitVec.getLsbD_zero
    rw [empty] at grown
    exact grown

theorem toNat_newFuncNode (bound : driver < 256) :
    (Avtab.newFuncNode driver).driver.toNat = driver := by
  simp only [Avtab.newFuncNode, UInt8.toNat_ofNat']
  omega

theorem adds_function (bound : driver < 256) (low high : Nat) :
    Adds (AvtabDatum.isFunction driver) (Avtab.newFuncNode driver) (setRange low high)
      (fun n => decide (driver = ioctlDriver n) &&
        decide (low ≤ ioctlFunc n ∧ ioctlFunc n ≤ high)) := by
  constructor
  · intro datum isFunction n
    exact AvtabDatum.permits_mapPerms_setRange_of_isFunction isFunction low high n
  · intro data n
    have isFunction : AvtabDatum.isFunction driver ⟨data, some (Avtab.newFuncNode driver)⟩ = true := by
      simp only [AvtabDatum.isFunction, Option.any_some, toNat_newFuncNode bound]
      rfl
    have grown := AvtabDatum.permits_mapPerms_setRange_of_isFunction isFunction low high n
    have empty : AvtabDatum.permits ⟨data, some (Avtab.newFuncNode driver)⟩ n = false := by
      simp [AvtabDatum.permits, ExtendedPerms.permits, Avtab.newFuncNode]
    rw [empty] at grown
    exact grown

/-- A rule without reset adds its numbers to the set of a key. -/
theorem Avtab.permits_extendXperm (avtab : Avtab) (key : AvtabKey) (p : Xperm) (n : UInt16) :
    permits ((avtab.extendXperm key p).data key) n =
      (permits (avtab.data key) n || p.covers n) := by
  unfold extendXperm Xperm.covers
  split
  · exact permits_editSlot (adds_driver _ _) n
  · exact permits_editSlot (adds_function (ioctlDriver_lt p.low) _ _) n

theorem Avtab.extendXperm_spec (p : Xperm) (unique : UniqueSlots (avtab.data key)) :
    UniqueSlots ((avtab.extendXperm key p).data key) ∧
      ∀ n, permits ((avtab.extendXperm key p).data key) n =
        (permits (avtab.data key) n || p.covers n) := by
  refine ⟨?_, permits_extendXperm avtab key p⟩
  unfold extendXperm
  split
  · refine uniqueSlots_editSlot unique unique.driver (fun _ => rfl) ?_
    intro isFunction
    cases isFunction
  · refine uniqueSlots_editSlot unique (unique.function _) ?_ ?_
    · intro isDriver
      cases isDriver
    · intro _
      rw [toNat_newFuncNode (ioctlDriver_lt p.low)]

/-- A run of rules without reset adds the numbers of all of them. -/
theorem Avtab.foldl_editXperm_extend {items : List Xperm} (unique : UniqueSlots (avtab.data key))
    (extend : ∀ p ∈ items, p.reset = false) (n : UInt16) :
    permits ((items.foldl (fun avtab p => avtab.editXperm key p) avtab).data key) n =
      (permits (avtab.data key) n || items.any fun p => p.covers n) := by
  induction items generalizing avtab with
  | nil => rw [foldl_nil, any_nil, Bool.or_false]
  | cons p rest ih =>
    have step : avtab.editXperm key p = avtab.extendXperm key p := by
      rw [editXperm, extend p mem_cons_self, if_neg (by decide)]
    have spec := extendXperm_spec p unique
    rw [foldl_cons, step, ih spec.1 fun other mem => extend other (mem_cons_of_mem p mem),
      spec.2, any_cons, Bool.or_assoc]

end Magisk.SePolicy
