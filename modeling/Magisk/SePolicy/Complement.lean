import Magisk.SePolicy.Statement
import Magisk.SePolicy.XpermSet

/-!
# Complemented lists of extended permissions

`allowxperm s t c ioctl ~{ .. }` is parsed into one resetting rule per listed
item, and each of these rules starts from scratch.  After the statement the key
therefore allows the complement of the last item alone.  That is the complement
of the whole list exactly when every item lies inside the last one.
-/

namespace Magisk.SePolicy

open List

/-- A listed value or range. -/
inductive IoctlItem where
  | value (x : UInt16)
  | range (low high : UInt16)
  deriving DecidableEq, Repr

namespace IoctlItem

/-- The tokens of an item. -/
def tokens : IoctlItem → List Token
  | .value x => [.HX x]
  | .range low high => [.HX low, .HP, .HX high]

/-- The lowest number of an item. -/
def low : IoctlItem → UInt16
  | .value x => x
  | .range low _ => low

/-- The highest number of an item. -/
def high : IoctlItem → UInt16
  | .value x => x
  | .range _ high => high

/-- The rule a complemented item becomes. -/
def resetting (item : IoctlItem) : Xperm :=
  ⟨item.low, item.high, true⟩

/-- The item is a number or a range inside one driver. -/
def InsideDriver (item : IoctlItem) : Prop :=
  item.low ≤ item.high ∧ ioctlDriver item.low = ioctlDriver item.high

/-- The numbers of an item. -/
def contains (item : IoctlItem) (n : UInt16) : Bool :=
  inRange item.low item.high n

end IoctlItem

/-! ## Parsing -/

/-- The tokens of `allowxperm s t c ioctl ~{ items }`. -/
def complementStatement (s t c : String) (items : List IoctlItem) : List Token :=
  .AX :: .ID s :: .ID t :: .ID c :: .ID "ioctl" :: .TL :: .LB ::
    (items.flatMap IoctlItem.tokens ++ [.RB])

theorem parseXperm_item (item : IoctlItem) {rest : List Token} (notHyphen : rest.head? ≠ some .HP) :
    parseXperm (item.tokens ++ rest) = .ok (⟨item.low, item.high, false⟩, rest) := by
  cases item with
  | value x =>
    cases rest with
    | nil => rfl
    | cons token rest =>
      cases token <;> simp_all [IoctlItem.tokens, IoctlItem.low, IoctlItem.high, parseXperm]
  | range low high => rfl

theorem head?_tokens_append (item : IoctlItem) (rest : List Token) :
    (item.tokens ++ rest).head? = some (.HX item.low) := by
  cases item <;> rfl

variable {items : List IoctlItem}

theorem parseXpermList_items (reset : Bool) (xperms : List Xperm) (nonempty : items ≠ [])
    (after : List Token) :
    parseXpermList reset xperms (items.flatMap IoctlItem.tokens ++ .RB :: after) =
      .ok (xperms ++ items.map fun item => ⟨item.low, item.high, reset⟩, after) := by
  induction items generalizing xperms with
  | nil => exact absurd rfl nonempty
  | cons item rest ih =>
    rw [flatMap_cons, append_assoc]
    cases rest with
    | nil => exact parseXpermList_of_close (parseXperm_item item (by simp))
    | cons next more =>
      have head := head?_tokens_append next (more.flatMap IoctlItem.tokens ++ .RB :: after)
      rw [← append_assoc, ← flatMap_cons] at head
      have notHyphen : ((next :: more).flatMap IoctlItem.tokens ++ .RB :: after).head? ≠
          some .HP := by
        rw [head]
        simp
      have notClosed : ((next :: more).flatMap IoctlItem.tokens ++ .RB :: after).head? ≠
          some .RB := by
        rw [head]
        simp
      rw [parseXpermList_of_more (parseXperm_item item notHyphen) notClosed,
        ih _ (cons_ne_nil next more), append_assoc]
      rfl

/-- The statement parses into one resetting rule per item. -/
theorem execStatement_complement (s t c : String) (nonempty : items ≠ []) :
    execStatement (complementStatement s t c items) =
      .ok (.allowxperm [s] [t] [c] (items.map IoctlItem.resetting)) := by
  have parsed := parseXpermList_items true [] nonempty []
  simp only [execStatement, complementStatement, parseXpermArgs, parseSterm, matchString,
    parseXperms, parseXpermsBody, parsed, bind, Except.bind, if_true]
  rfl

/-! ## Executing -/

/-- Perform a call that edits the access vector table; other calls are not
covered. -/
def PolicyDb.editAvtab (db : PolicyDb) : Call → Option PolicyDb
  | .allow s t c p => some (db.allow s t c p)
  | .deny s t c p => some (db.deny s t c p)
  | .auditallow s t c p => some (db.auditallow s t c p)
  | .dontaudit s t c p => some (db.dontaudit s t c p)
  | .allowxperm s t c p => some (db.allowxperm s t c p)
  | .auditallowxperm s t c p => some (db.auditallowxperm s t c p)
  | .dontauditxperm s t c p => some (db.dontauditxperm s t c p)
  | _ => none

/-- Parse a statement and perform its call. -/
def PolicyDb.execTokens (db : PolicyDb) (tokens : List Token) : Option PolicyDb :=
  (execStatement tokens).toOption.bind db.editAvtab

/-- Names of a source, a target and a class that exist. -/
structure Named (db : PolicyDb) (s t c : String) (src tgt : TypeDatum) (cls : ClassDatum) :
    Prop where
  sourceNamed : s ≠ ""
  targetNamed : t ≠ ""
  classNamed : c ≠ ""
  source : hashtabFind db.types s = some src
  target : hashtabFind db.types t = some tgt
  found : hashtabFind db.classes c = some cls

section Complement

variable {db : PolicyDb} {s t c : String} {src tgt : TypeDatum} {cls : ClassDatum}

theorem Named.addXpermRule_eq (named : Named db s t c src tgt cls) (p : Xperm)
    (effect : Specified) :
    db.addXpermRule s t c p effect = .ok (db.addXpermRuleAt p effect src tgt cls) := by
  simp only [PolicyDb.addXpermRule, PolicyDb.resolve, if_neg named.sourceNamed,
    if_neg named.targetNamed, if_neg named.classNamed, named.source, named.target, named.found]
  rfl

theorem Named.foldl_addXpermRule (named : Named db s t c src tgt cls) (effect : Specified)
    (supported : xpermsIoctlVersion ≤ db.policyvers) (xperms : List Xperm) :
    xperms.foldl (fun db p => (db.addXpermRule s t c p effect).toOption.getD db) db =
      { db with
        teAvtab := xperms.foldl (fun avtab p => avtab.editXperm (avtabKey src tgt cls effect) p)
          db.teAvtab } := by
  induction xperms generalizing db with
  | nil => rfl
  | cons p rest ih =>
    have step : db.addXpermRuleAt p effect src tgt cls =
        { db with teAvtab := db.teAvtab.editXperm (avtabKey src tgt cls effect) p } := by
      rw [PolicyDb.addXpermRuleAt, if_neg (UInt32.not_lt.mpr supported)]
    rw [foldl_cons, named.addXpermRule_eq, step]
    exact ih ⟨named.sourceNamed, named.targetNamed, named.classNamed, named.source, named.target,
      named.found⟩ supported

theorem Named.foldl_addXpermRule_of_unsupported (named : Named db s t c src tgt cls)
    (effect : Specified) (unsupported : db.policyvers < xpermsIoctlVersion)
    (xperms : List Xperm) :
    xperms.foldl (fun db p => (db.addXpermRule s t c p effect).toOption.getD db) db = db := by
  induction xperms with
  | nil => rfl
  | cons p rest ih =>
    rw [foldl_cons, named.addXpermRule_eq, PolicyDb.addXpermRuleAt, if_pos unsupported]
    exact ih

theorem allowxperm_names (db : PolicyDb) (s t c : String) (xperms : List Xperm) :
    db.allowxperm [s] [t] [c] xperms =
      xperms.foldl (fun db p => (db.addXpermRule s t c p .xpermsAllowed).toOption.getD db) db :=
  rfl

theorem execTokens_complement (db : PolicyDb) (s t c : String) (nonempty : items ≠ []) :
    db.execTokens (complementStatement s t c items) =
      some (db.allowxperm [s] [t] [c] (items.map IoctlItem.resetting)) := by
  rw [PolicyDb.execTokens, execStatement_complement s t c nonempty]
  rfl

variable {last : IoctlItem}

/-- After the statement the key allows the complement of the last item. -/
theorem Named.permits_allowxperm (named : Named db s t c src tgt cls)
    (supported : xpermsIoctlVersion ≤ db.policyvers) (lastItem : items.getLast? = some last)
    (inside : ∀ item ∈ items, item.InsideDriver)
    (unique : UniqueSlots (db.teAvtab.data (avtabKey src tgt cls .xpermsAllowed))) (n : UInt16) :
    permits ((db.allowxperm [s] [t] [c] (items.map IoctlItem.resetting)).teAvtab.data
      (avtabKey src tgt cls .xpermsAllowed)) n = !last.contains n := by
  obtain ⟨init, rfl⟩ := getLast?_eq_some_iff.mp lastItem
  rw [allowxperm_names, named.foldl_addXpermRule _ supported, map_append]
  apply (Avtab.foldl_editXperm_reset unique _).2
  intro p mem
  rw [← map_singleton, ← map_append] at mem
  obtain ⟨item, itemMem, rfl⟩ := mem_map.mp mem
  exact ⟨rfl, (inside item itemMem).2⟩

theorem Named.data_allowxperm_of_ne (named : Named db s t c src tgt cls) (xperms : List Xperm)
    {key : AvtabKey} (ne : key ≠ avtabKey src tgt cls .xpermsAllowed) :
    (db.allowxperm [s] [t] [c] xperms).teAvtab.data key = db.teAvtab.data key := by
  rw [allowxperm_names]
  by_cases supported : xpermsIoctlVersion ≤ db.policyvers
  · rw [named.foldl_addXpermRule _ supported]
    exact Avtab.data_foldl_editXperm_of_ne ne db.teAvtab xperms
  · rw [named.foldl_addXpermRule_of_unsupported _ (UInt32.not_le.mp supported)]

/-- The complement of the last item is the complement of all items exactly when
they lie inside it. -/
theorem complement_last_iff (lastMem : last ∈ items) (inside : ∀ item ∈ items, item.InsideDriver) :
    (∀ n, last.contains n = false ↔ ∀ item ∈ items, item.contains n = false) ↔
      ∀ item ∈ items, last.low ≤ item.low ∧ item.high ≤ last.high := by
  simp only [IoctlItem.contains, inRange, ← Bool.not_eq_true, Bool.and_eq_true, decide_eq_true_eq]
  constructor
  · intro same item mem
    have ordered := (inside item mem).1
    have within : ∀ n, item.low ≤ n → n ≤ item.high → last.low ≤ n ∧ n ≤ last.high := by
      intro n above below
      by_contra outside
      exact (same n).mp outside item mem ⟨above, below⟩
    exact ⟨(within item.low (UInt16.le_refl _) ordered).1,
      (within item.high ordered (UInt16.le_refl _)).2⟩
  · intro nested n
    constructor
    · intro outside item mem contained
      obtain ⟨lowNested, highNested⟩ := nested item mem
      exact outside ⟨UInt16.le_trans lowNested contained.1, UInt16.le_trans contained.2 highNested⟩
    · intro outside
      exact outside last lastMem

/-- The announced outcome of a complement statement on `key`. -/
structure AllowsComplement (before after : PolicyDb) (key : AvtabKey) (items : List IoctlItem) :
    Prop where
  permits : ∀ n, permits (after.teAvtab.data key) n = true ↔
    ∀ item ∈ items, item.contains n = false
  unchanged : ∀ other, other ≠ key → after.teAvtab.data other = before.teAvtab.data other

/-- A complement statement has its announced outcome exactly when the policy
version knows extended permissions and every item lies inside the last one.
An older version ignores the statement. -/
theorem execTokens_complement_iff (db : PolicyDb) (s t c : String) (src tgt : TypeDatum)
    (cls : ClassDatum) (named : Named db s t c src tgt cls) (items : List IoctlItem)
    (last : IoctlItem) (lastItem : items.getLast? = some last)
    (inside : ∀ item ∈ items, item.InsideDriver)
    (unique : UniqueSlots (db.teAvtab.data (avtabKey src tgt cls .xpermsAllowed))) :
    ∃ after, db.execTokens (complementStatement s t c items) = some after ∧
      (AllowsComplement db after (avtabKey src tgt cls .xpermsAllowed) items ↔
        (xpermsIoctlVersion ≤ db.policyvers ∧
          ∀ item ∈ items, last.low ≤ item.low ∧ item.high ≤ last.high) ∨
        (db.policyvers < xpermsIoctlVersion ∧
          ∀ n, permits (db.teAvtab.data (avtabKey src tgt cls .xpermsAllowed)) n = true ↔
            ∀ item ∈ items, item.contains n = false)) := by
  have lastMem := mem_of_getLast? lastItem
  refine ⟨_, execTokens_complement db s t c (ne_nil_of_mem lastMem), ?_⟩
  by_cases supported : xpermsIoctlVersion ≤ db.policyvers
  · have permitted := named.permits_allowxperm supported lastItem inside unique
    rw [or_iff_left fun old => UInt32.not_lt.mpr supported old.1, and_iff_right supported,
      ← complement_last_iff lastMem inside]
    constructor
    · rintro ⟨allowed, _⟩ n
      rw [← allowed n, permitted n, Bool.not_eq_true']
    · intro same
      refine ⟨fun n => ?_, fun other ne => named.data_allowxperm_of_ne _ ne⟩
      rw [permitted n, Bool.not_eq_true', same n]
  · have unsupported := UInt32.not_le.mp supported
    rw [or_iff_right fun new => supported new.1, and_iff_right unsupported, allowxperm_names,
      named.foldl_addXpermRule_of_unsupported _ unsupported]
    exact ⟨fun outcome => outcome.permits, fun allowed => ⟨allowed, fun _ _ => rfl⟩⟩

end Complement

/-- A policy with one source, one target and one class, and no rules. -/
def ioctlPolicy : PolicyDb :=
  { policyvers := 30
    types := [(symbolKey "source", ⟨1, .type⟩), (symbolKey "target", ⟨2, .type⟩)]
    classes := [(symbolKey "class", ⟨1, [], none⟩)]
    teAvtab := ⟨[], 0⟩ }

theorem ioctlPolicy_named :
    Named ioctlPolicy "source" "target" "class" ⟨1, .type⟩ ⟨2, .type⟩ ⟨1, [], none⟩ := by
  constructor <;> decide

theorem execTokens_complement_iff_nested :
    ∃ after, ioctlPolicy.execTokens (complementStatement "source" "target" "class"
        [.value 0x8910, .range 0x8910 0x8926]) = some after ∧
      AllowsComplement ioctlPolicy after ⟨1, 2, 1, .xpermsAllowed⟩
        [.value 0x8910, .range 0x8910 0x8926] := by
  have inside : ∀ item ∈ [IoctlItem.value 0x8910, .range 0x8910 0x8926], item.InsideDriver := by
    intro item mem
    fin_cases mem <;> exact ⟨by decide, by decide⟩
  obtain ⟨after, executed, outcome⟩ := execTokens_complement_iff ioctlPolicy _ _ _ _ _ _
    ioctlPolicy_named [.value 0x8910, .range 0x8910 0x8926] _ rfl inside
    ⟨by decide, fun driver => Nat.zero_le 1⟩
  exact ⟨after, executed, outcome.mpr (Or.inl ⟨by decide, by decide⟩)⟩

/-- The list of the help text: its first item stays allowed. -/
theorem execTokens_complement_allows_listed :
    ∃ after, ioctlPolicy.execTokens (complementStatement "source" "target" "class"
        [.value 0x8910, .value 0x892A]) = some after ∧
      permits (after.teAvtab.data ⟨1, 2, 1, .xpermsAllowed⟩) 0x8910 = true ∧
      ¬ AllowsComplement ioctlPolicy after ⟨1, 2, 1, .xpermsAllowed⟩
        [.value 0x8910, .value 0x892A] := by
  have inside : ∀ item ∈ [IoctlItem.value 0x8910, .value 0x892A], item.InsideDriver := by
    intro item mem
    fin_cases mem <;> exact ⟨by decide, by decide⟩
  have lastItem : [IoctlItem.value 0x8910, .value 0x892A].getLast? = some (.value 0x892A) := rfl
  have allowed := ioctlPolicy_named.permits_allowxperm (by decide) lastItem inside
    ⟨by decide, fun driver => Nat.zero_le 1⟩ 0x8910
  have outside : (!(IoctlItem.value 0x892A).contains 0x8910) = true := by decide
  refine ⟨_, execTokens_complement ioctlPolicy "source" "target" "class"
    (cons_ne_nil _ _), allowed, fun outcome => ?_⟩
  have excluded := (outcome.permits 0x8910).mp allowed (.value 0x8910) mem_cons_self
  exact absurd excluded (by decide)

end Magisk.SePolicy
