import Magisk.SePolicy.RoundTrip

/-!
# Printed extended permissions that are loaded again

The ranges of a node are printed as hexadecimal numbers and read back as decimal
ones.  The set of numbers comes back exactly when it is empty or when it lists
functions of the first driver that have one decimal digit.
-/

namespace Magisk.SePolicy

open List Bytes Text

/-! ## Numbers read back -/

namespace ExtendedPerms

variable (xperms : ExtendedPerms)

/-- The rules that the printed ranges are read as. -/
def reread : List Xperm :=
  (ranges xperms.perms).map fun range =>
    ⟨misread (xperms.toValue range.1), misread (xperms.toValue range.2), false⟩

/-- The node lists functions of the first driver that are the same in decimal. -/
structure Decimal : Prop where
  function : xperms.specified = .ioctlFunction
  driver : xperms.driver = 0
  small : ∀ i, 10 ≤ i → xperms.perms.getLsbD i = false

variable {xperms}

theorem toNat_toValue_of_function (function : xperms.specified = .ioctlFunction) {value : Nat}
    (small : value < 256) : (xperms.toValue value).toNat = xperms.driver.toNat * 256 + value := by
  have bound := xperms.driver.toNat_lt
  have sum : xperms.driver.toNat <<< 8 ||| value = xperms.driver.toNat * 256 + value := by
    rw [← Nat.shiftLeft_add_eq_or_of_lt small, Nat.shiftLeft_eq]
  rw [toValue, if_pos function, sum, UInt16.toNat_ofNat_of_lt' (by change _ < 65536; omega)]

theorem toNat_toValue_of_driver (driver : xperms.specified = .ioctlDriver) {value : Nat}
    (small : value < 256) : (xperms.toValue value).toNat = value * 256 := by
  have notFunction : xperms.specified ≠ .ioctlFunction := by
    rw [driver]
    decide
  rw [toValue, if_neg notFunction, Nat.shiftLeft_eq,
    UInt16.toNat_ofNat_of_lt' (by change _ < 65536; omega)]

/-- A rule that is read from a printed range covers a number. -/
theorem any_reread_iff {n : UInt16} : (xperms.reread.any fun p => p.covers n) = true ↔
      ∃ range ∈ ranges xperms.perms,
        Xperm.covers ⟨misread (xperms.toValue range.1), misread (xperms.toValue range.2), false⟩ n =
          true := by
  rw [reread, any_map, any_eq_true]
  rfl

theorem covers_iff {low high n : UInt16} {reset : Bool} : Xperm.covers ⟨low, high, reset⟩ n = true ↔
      low.toNat / 256 ≠ high.toNat / 256 ∧ low.toNat / 256 ≤ n.toNat / 256 ∧
          n.toNat / 256 ≤ high.toNat / 256 ∨
        low.toNat / 256 = high.toNat / 256 ∧ low.toNat / 256 = n.toNat / 256 ∧
          low.toNat % 256 ≤ n.toNat % 256 ∧ n.toNat % 256 ≤ high.toNat % 256 := by
  unfold Xperm.covers
  simp only [ioctlDriver_eq, ioctlFunc_eq]
  split
  · rename_i differ
    rw [decide_eq_true_iff]
    constructor
    · exact fun inside => Or.inl ⟨differ, inside⟩
    · rintro (⟨_, inside⟩ | ⟨same, _⟩)
      · exact inside
      · exact absurd same differ
  · rename_i same
    rw [Bool.and_eq_true, decide_eq_true_iff, decide_eq_true_iff]
    rw [not_not] at same
    constructor
    · exact fun inside => Or.inr ⟨same, inside⟩
    · rintro (⟨differ, _⟩ | ⟨_, inside⟩)
      · exact absurd same differ
      · exact inside

/-- What is known of a number that is printed. -/
theorem misread_facts (value : UInt16) :
    (misread value).toNat ≤ value.toNat ∧ (10 ≤ value.toNat → (misread value).toNat < value.toNat) ∧
      (256 ≤ value.toNat → (misread value).toNat / 256 < value.toNat / 256) := by
  refine ⟨misread_le value, misread_lt, fun large => ?_⟩
  have earlier := ioctlDriver_misread_lt large
  rwa [ioctlDriver_eq, ioctlDriver_eq] at earlier

/-- A bitmap that is not empty has a highest bit. -/
theorem exists_highest {perms : BitVec 256} (nonempty : perms ≠ 0#256) :
    ∃ top < 256, perms.getLsbD top = true ∧ ∀ j, perms.getLsbD j = true → j ≤ top := by
  have some : ∃ j, perms.getLsbD j = true := by
    by_contra none
    apply nonempty
    apply BitVec.eq_of_getLsbD_eq
    intro j _
    rw [BitVec.getLsbD_zero, Bool.eq_false_iff]
    exact fun isSet => none ⟨j, isSet⟩
  have inside : ∀ {j}, perms.getLsbD j = true → j < 256 := by
    intro j isSet
    by_contra outside
    rw [BitVec.getLsbD_of_ge perms j (by omega)] at isSet
    cases isSet
  rcases some with ⟨j, isSet⟩
  have highest := Nat.findGreatest_spec (P := fun j => perms.getLsbD j = true)
    (show j ≤ 255 by have := inside isSet; omega) isSet
  refine ⟨_, inside highest, highest, fun other otherSet => ?_⟩
  exact Nat.le_findGreatest (by have := inside otherSet; omega) otherSet

/-- The ends of a printed range do not exceed the highest bit. -/
theorem ends_le {top : Nat} (highest : ∀ j, xperms.perms.getLsbD j = true → j ≤ top)
    {range : Nat × Nat} (mem : range ∈ ranges xperms.perms) : range.1 ≤ top ∧ range.2 ≤ top := by
  have bits := (ends_of_mem_ranges mem).2.2
  exact ⟨highest _ bits.1, highest _ bits.2⟩

section Lost

variable {top : Nat} (inside : top < 256) (isSet : xperms.perms.getLsbD top = true)
  (highest : ∀ j, xperms.perms.getLsbD j = true → j ≤ top)
  (same : ∀ n, (xperms.reread.any fun p => p.covers n) = xperms.permits n)

include inside isSet highest same

/-- The highest function is lost unless it has one decimal digit. -/
theorem decimal_of_same (function : xperms.specified = .ioctlFunction) : xperms.Decimal := by
  have value := toNat_toValue_of_function function inside
  have permitted : xperms.permits (xperms.toValue top) = true := by
    simp only [permits, function, ioctlDriver_eq, ioctlFunc_eq, value, Bool.and_eq_true,
      decide_eq_true_eq]
    constructor
    · omega
    · rwa [show (xperms.driver.toNat * 256 + top) % 256 = top by omega]
  rw [← same, any_reread_iff] at permitted
  rcases permitted with ⟨range, mem, covered⟩
  have upTo := ends_le highest mem
  have low := toNat_toValue_of_function function (Nat.lt_of_le_of_lt upTo.1 inside)
  have high := toNat_toValue_of_function function (Nat.lt_of_le_of_lt upTo.2 inside)
  have lowFacts := misread_facts (xperms.toValue range.1)
  have highFacts := misread_facts (xperms.toValue range.2)
  rw [covers_iff] at covered
  refine ⟨function, UInt8.toNat_inj.mp (by change _ = 0; omega), fun i large => ?_⟩
  rw [Bool.eq_false_iff]
  intro other
  have atMost := highest i other
  omega

/-- The last number of the highest driver is lost. -/
theorem false_of_same (driver : xperms.specified = .ioctlDriver) : False := by
  have last : (UInt16.ofNat (top * 256 + 255)).toNat = top * 256 + 255 :=
    UInt16.toNat_ofNat_of_lt' (by change _ < 65536; omega)
  have permitted : xperms.permits (UInt16.ofNat (top * 256 + 255)) = true := by
    simp only [permits, driver, ioctlDriver_eq, last]
    rwa [show (top * 256 + 255) / 256 = top by omega]
  rw [← same, any_reread_iff] at permitted
  rcases permitted with ⟨range, mem, covered⟩
  have upTo := ends_le highest mem
  have low := toNat_toValue_of_driver driver (Nat.lt_of_le_of_lt upTo.1 inside)
  have high := toNat_toValue_of_driver driver (Nat.lt_of_le_of_lt upTo.2 inside)
  have lowFacts := misread_facts (xperms.toValue range.1)
  have highFacts := misread_facts (xperms.toValue range.2)
  rw [covers_iff] at covered
  omega

end Lost

/-- Functions with one decimal digit are read as they are. -/
theorem same_of_decimal (decimal : xperms.Decimal) (n : UInt16) :
    (xperms.reread.any fun p => p.covers n) = xperms.permits n := by
  have noDriver : xperms.driver.toNat = 0 := by
    rw [decimal.driver]
    rfl
  have read : ∀ {value : Nat}, xperms.perms.getLsbD value = true →
      (misread (xperms.toValue value)).toNat = value ∧ value < 10 := by
    intro value isSet
    have small : value < 10 := by
      by_contra large
      have clear := decimal.small value (by omega)
      rw [isSet] at clear
      cases clear
    have number := toNat_toValue_of_function decimal.function (show value < 256 by omega)
    rw [misread_of_lt_ten (by omega)]
    exact ⟨by omega, small⟩
  rw [Bool.eq_iff_iff, any_reread_iff]
  simp only [permits, decimal.function, Bool.and_eq_true, decide_eq_true_eq,
    mem_ranges_iff, ioctlDriver_eq, ioctlFunc_eq]
  constructor
  · rintro ⟨range, mem, covered⟩
    have bits := (ends_of_mem_ranges mem).2.2
    have low := read bits.1
    have high := read bits.2
    rw [covers_iff] at covered
    refine ⟨by omega, range, mem, by omega, by omega⟩
  · rintro ⟨first, range, mem, above, upTo⟩
    have bits := (ends_of_mem_ranges mem).2.2
    have low := read bits.1
    have high := read bits.2
    refine ⟨range, mem, ?_⟩
    rw [covers_iff]
    omega

/-- A node allows no number exactly when it is empty. -/
theorem permits_eq_false_iff (isIoctl : xperms.specified ≠ .other) :
    (∀ n, false = xperms.permits n) ↔ xperms.perms = 0#256 := by
  constructor
  · intro none
    by_contra nonempty
    rcases exists_highest nonempty with ⟨top, inside, isSet, _⟩
    cases specified : xperms.specified with
    | other => exact isIoctl specified
    | ioctlFunction =>
      have value := toNat_toValue_of_function specified inside
      have permitted := none (xperms.toValue top)
      simp only [permits, specified, ioctlDriver_eq, ioctlFunc_eq, value] at permitted
      rw [show (xperms.driver.toNat * 256 + top) % 256 = top by omega, isSet,
        decide_eq_true (show xperms.driver.toNat = (xperms.driver.toNat * 256 + top) / 256 by
          omega)] at permitted
      cases permitted
    | ioctlDriver =>
      have value := toNat_toValue_of_driver specified inside
      have permitted := none (xperms.toValue top)
      simp only [permits, specified, ioctlDriver_eq, value] at permitted
      rw [show top * 256 / 256 = top by omega, isSet] at permitted
      cases permitted
  · intro empty n
    simp only [permits, empty]
    cases xperms.specified <;> simp

/-- The numbers read from printed ranges are those of the node exactly when it is
empty or reads the same in decimal. -/
theorem any_reread_eq_iff (isIoctl : xperms.specified ≠ .other) :
    (∀ n, (xperms.reread.any fun p => p.covers n) = xperms.permits n) ↔
      xperms.perms = 0#256 ∨ xperms.Decimal := by
  constructor
  · intro same
    by_cases empty : xperms.perms = 0#256
    · exact Or.inl empty
    · rcases exists_highest empty with ⟨top, inside, isSet, highest⟩
      cases specified : xperms.specified with
      | other => exact absurd specified isIoctl
      | ioctlFunction => exact Or.inr (decimal_of_same inside isSet highest same specified)
      | ioctlDriver => exact absurd (false_of_same inside isSet highest same specified) id
  · rintro (empty | decimal) n
    · have none : ranges xperms.perms = [] := (ranges_eq_nil_iff _).mpr empty
      rw [reread, none]
      exact (permits_eq_false_iff isIoctl).mpr empty n
    · exact same_of_decimal decimal n

end ExtendedPerms

/-! ## Loading -/

/-- The action that makes an extended permission. -/
theorem exists_xpermAction {specified : Specified} (isXperms : specified.kind = .xperms) :
    ∃ action : XpermAction, action.token = specified.token ∧
      ∀ (frame : KeyFrame) (others : PolicyDb → Call → Except Stop PolicyDb) (db : PolicyDb)
        (s t c : List String) (p : List Xperm),
        db.perform frame others (action.call s t c p) =
          .ok (PolicyDb.addXpermRules specified db s t c p) := by
  cases specified with
  | xpermsAllowed => exact ⟨.allowxperm, rfl, fun _ _ _ _ _ _ _ => rfl⟩
  | xpermsAuditallow => exact ⟨.auditallowxperm, rfl, fun _ _ _ _ _ _ _ => rfl⟩
  | xpermsDontaudit => exact ⟨.dontauditxperm, rfl, fun _ _ _ _ _ _ _ => rfl⟩
  | _ => cases isXperms

theorem addXpermRules_names (effect : Specified) (db : PolicyDb) (s t c : String)
    (xperms : List Xperm) :
    PolicyDb.addXpermRules effect db [s] [t] [c] xperms =
      xperms.foldl (fun db p => (db.addXpermRule s t c p effect).toOption.getD db) db :=
  rfl

/-- The words of the printed ranges. -/
def rangeWords (xperms : ExtendedPerms) : List String :=
  (ranges xperms.perms).map fun range =>
    rangeWord (xperms.toValue range.1) (xperms.toValue range.2)

/-- The items that the printed ranges are read as. -/
def rangeItems (xperms : ExtendedPerms) : List IoctlItem :=
  (ranges xperms.perms).map fun range =>
    if xperms.toValue range.1 = xperms.toValue range.2 then
      .value (misread (xperms.toValue range.1))
    else .range (misread (xperms.toValue range.1)) (misread (xperms.toValue range.2))

theorem lineTokens_rangeWords (xperms : ExtendedPerms) :
    lineTokens (rangeWords xperms) = (rangeItems xperms).flatMap IoctlItem.tokens := by
  rw [lineTokens, rangeWords, rangeItems, flatMap_map, flatMap_map]
  congr 1
  funext range
  exact extractToken_rangeWord _ _

theorem rangeItems_rules (xperms : ExtendedPerms) :
    ((rangeItems xperms).map fun item => (⟨item.low, item.high, false⟩ : Xperm)) =
      xperms.reread := by
  rw [rangeItems, map_map]
  apply map_congr_left
  intro range _
  rw [Function.comp_apply]
  split
  · rename_i same
    rw [← same]
    rfl
  · rfl

/-- The words of a printed extended permission. -/
def xpermWords (specified : Specified) (s t c : String) (words : List String) : List String :=
  specified.statement :: s :: t :: c :: "ioctl" :: "\x7b" :: (words ++ ["\x7d"])

theorem isName_ioctl : IsName "ioctl" :=
  ⟨by decide, by decide, (isWord_of_all (by decide) (by decide)).2, by decide, by decide, by decide⟩

theorem isLine_xpermWords (specified : Specified) {s t c : String} (sName : IsName s)
    (tName : IsName t) (cName : IsName c) (xperms : ExtendedPerms) :
    IsLine (xpermWords specified s t c (rangeWords xperms)) := by
  apply isLine_statement
  intro word mem
  simp only [mem_cons, mem_append, not_mem_nil, or_false] at mem
  rcases mem with rfl | rfl | rfl | rfl | rfl | mem | rfl
  · exact sName.isWord
  · exact tName.isWord
  · exact cName.isWord
  · exact isName_ioctl.isWord
  · exact isWord_brace.1
  · rcases mem_map.mp mem with ⟨range, _, rfl⟩
    exact isWord_rangeWord _ _
  · exact isWord_brace.2

theorem execStatement_xpermWords {specified : Specified} {action : XpermAction}
    (token : action.token = specified.token) {s t c : String} (sName : IsName s)
    (tName : IsName t) (cName : IsName c) {xperms : ExtendedPerms}
    (nonempty : ranges xperms.perms ≠ []) :
    execStatement (lineTokens (xpermWords specified s t c (rangeWords xperms))) =
      .ok (action.call [s] [t] [c] xperms.reread) := by
  have braces : extractToken "\x7b".toList = [.LB] ∧ extractToken "\x7d".toList = [.RB] :=
    ⟨extractToken_openBrace, extractToken_closeBrace⟩
  have items : ∃ first rest, rangeItems xperms = first :: rest := by
    apply exists_cons_of_ne_nil
    simpa [rangeItems] using nonempty
  rcases items with ⟨first, rest, items⟩
  rw [execStatement_eq_ok_iff]
  refine ⟨.xperm action (.id s) (.id t) (.id c) (.list false first rest), ?_, ?_⟩
  · rw [xpermWords, lineTokens_cons, lineTokens_cons, lineTokens_cons, lineTokens_cons,
      lineTokens_cons, lineTokens_cons, lineTokens_append, lineTokens_cons,
      specified.extractToken_statement, sName.extractToken_eq, tName.extractToken_eq,
      cName.extractToken_eq, isName_ioctl.extractToken_eq, braces.1, braces.2,
      lineTokens_rangeWords, items, ← token]
    rfl
  · rw [← rangeItems_rules, items]
    rfl

section Load

variable {index : SymbolIndex} {fresh : PolicyDb} {key : AvtabKey} {xperms : ExtendedPerms}
  {s t c : String} {src tgt : TypeDatum} {cls : ClassDatum}

/-- What is printed for an extended permission is one edit for each printed range. -/
theorem loadRules_printXperms (frame : KeyFrame)
    (others : PolicyDb → Call → Except Stop PolicyDb) (isXperms : key.specified.kind = .xperms)
    (sPlain : PlainName s) (tPlain : PlainName t) (cPlain : PlainName c)
    (xperms : ExtendedPerms) (fresh : PolicyDb) :
    fresh.loadRules frame others (printXperms key (some xperms) (utf8 s) (utf8 t) (utf8 c)) =
      .ok (xperms.reread.foldl
        (fun db p => (db.addXpermRule s t c p key.specified).toOption.getD db) fresh) := by
  rcases exists_xpermAction isXperms with ⟨action, token, performed⟩
  have encoded : ((ranges xperms.perms).map fun range =>
      utf8 (rangeWord (xperms.toValue range.1) (xperms.toValue range.2))) =
        (rangeWords xperms).map utf8 := by
    rw [rangeWords, map_map]
    rfl
  simp only [printXperms, encoded]
  by_cases empty : ranges xperms.perms = []
  · rw [ExtendedPerms.reread, rangeWords, empty]
    rfl
  · have words : [utf8 key.specified.statement, utf8 s, utf8 t, utf8 c, utf8 "ioctl",
        utf8 "\x7b"] ++ (rangeWords xperms).map utf8 ++ [utf8 "\x7d"] =
          (xpermWords key.specified s t c (rangeWords xperms)).map utf8 := by
      simp [xpermWords]
    rw [if_neg (by simpa [rangeWords] using empty), words, loadRules_line frame others
      (isLine_xpermWords key.specified sPlain.isName tPlain.isName cPlain.isName xperms)
      (execStatement_xpermWords token sPlain.isName tPlain.isName cPlain.isName empty),
      performed, addXpermRules_names]

section

variable (frame : KeyFrame) (others : PolicyDb → Call → Except Stop PolicyDb)
  (describes : index.Describes fresh) (names : KeyNames index key s t c)
  (isXperms : key.specified.kind = .xperms)
include describes names isXperms

/-- The numbers of a key that had no nodes, after a printed node was loaded. -/
theorem loaded_xperms (absent : fresh.teAvtab.data key = []) (xperms : ExtendedPerms) :
    ∃ after, fresh.loadRules frame others
        (printXperms key (some xperms) (utf8 s) (utf8 t) (utf8 c)) = .ok after ∧
      (∀ n, permits (after.teAvtab.data key) n =
        (decide (xpermsIoctlVersion ≤ fresh.policyvers) && xperms.reread.any fun p => p.covers n)) ∧
      OnlyKey key fresh after := by
  rcases names.named describes with ⟨src, tgt, cls, named, sameKey, _⟩
  have loaded := loadRules_printXperms frame others isXperms names.sourcePlain
    names.targetPlain names.classPlain xperms fresh
  by_cases supported : xpermsIoctlVersion ≤ fresh.policyvers
  · rw [named.foldl_addXpermRule _ supported, sameKey] at loaded
    refine ⟨_, loaded, fun n => ?_, rfl, fun other ne => ?_⟩
    · have unique : UniqueSlots (fresh.teAvtab.data key) := by
        rw [absent]
        exact ⟨Nat.zero_le 1, fun _ => Nat.zero_le 1⟩
      have extend : ∀ p ∈ xperms.reread, p.reset = false := by
        intro p mem
        rcases mem_map.mp mem with ⟨range, _, rfl⟩
        rfl
      rw [Avtab.foldl_editXperm_extend unique extend, absent, decide_eq_true supported]
      rfl
    · exact Avtab.data_foldl_editXperm_of_ne ne _ _
  · rw [named.foldl_addXpermRule_of_unsupported _ (UInt32.not_le.mp supported)] at loaded
    refine ⟨_, loaded, fun n => ?_, rfl, fun _ _ => rfl⟩
    rw [absent, decide_eq_false supported]
    rfl

/-- An extended permission comes back exactly when it is empty, or the policy knows
extended permissions and the node reads the same in decimal. -/
theorem recreated_xperms_iff (isIoctl : xperms.specified ≠ .other)
    (absent : fresh.teAvtab.data key = []) :
    (∃ after, fresh.loadRules frame others
        (printXperms key (some xperms) (utf8 s) (utf8 t) (utf8 c)) = .ok after ∧
      (∀ n, permits (after.teAvtab.data key) n = xperms.permits n) ∧ OnlyKey key fresh after) ↔
      xperms.perms = 0#256 ∨ xpermsIoctlVersion ≤ fresh.policyvers ∧ xperms.Decimal := by
  rcases loaded_xperms frame others describes names isXperms absent xperms with
    ⟨after, loaded, permitted, only⟩
  have outcome : (∃ after, fresh.loadRules frame others
        (printXperms key (some xperms) (utf8 s) (utf8 t) (utf8 c)) = .ok after ∧
      (∀ n, permits (after.teAvtab.data key) n = xperms.permits n) ∧ OnlyKey key fresh after) ↔
      ∀ n, (decide (xpermsIoctlVersion ≤ fresh.policyvers) &&
        xperms.reread.any fun p => p.covers n) = xperms.permits n := by
    constructor
    · rintro ⟨other, ran, same, _⟩ n
      rw [loaded] at ran
      cases ran
      rw [← permitted, same]
    · intro same
      exact ⟨after, loaded, fun n => (permitted n).trans (same n), only⟩
  rw [outcome]
  by_cases supported : xpermsIoctlVersion ≤ fresh.policyvers
  · simp only [supported, true_and]
    exact ExtendedPerms.any_reread_eq_iff isIoctl
  · simp only [supported, false_and, or_false]
    exact ExtendedPerms.permits_eq_false_iff isIoctl

end

end Load

end Magisk.SePolicy
