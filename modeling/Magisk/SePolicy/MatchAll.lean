import Magisk.SePolicy.Complement
import Magisk.SePolicy.RuleEdits
import Magisk.SePolicy.TypeAttr

/-!
# Match-all grants

In a grant, the match-all operator stands for all attributes instead of all types.
A type is allowed what its attributes are, so this reaches every type that has one.
A type without attributes, as `type` declares it without arguments, is not reached.
-/

namespace Magisk.SePolicy

open PolicyDb List Magisk.Relation

/-! ## Grants in the table -/

namespace Avtab

/-- Some node of a key grants a permission. -/
def Grants (avtab : Avtab) (key : AvtabKey) (perm : PermDatum) : Prop :=
  ∃ datum ∈ avtab.data key, datum.data &&& perm.bit ≠ 0

instance (avtab : Avtab) (key : AvtabKey) (perm : PermDatum) : Decidable (avtab.Grants key perm) :=
  inferInstanceAs (Decidable (∃ datum ∈ avtab.data key, datum.data &&& perm.bit ≠ 0))

/-- A grant is found under its key, and nothing else is granted by it. -/
theorem grants_editRule_iff (avtab : Avtab) {key : AvtabKey} (isAllowed : key.specified = .allowed)
    (perm : PermDatum) (other : AvtabKey) :
    (avtab.editRule key (some perm) false).Grants other perm ↔
      other = key ∨ avtab.Grants other perm := by
  by_cases same : other = key
  · subst same
    obtain ⟨datum, rest, -, edited⟩ := data_editRule_cons avtab (some perm) false other
    have granted : (datum.data ||| perm.bit) &&& perm.bit ≠ 0 := by
      rw [or_and_self]
      exact perm.bit_ne_zero
    have kept : isRedundant other { datum with data := datum.data ||| perm.bit } = false := by
      rw [Bool.eq_false_iff]
      intro redundant
      rw [isRedundant_iff, isAllowed] at redundant
      have cleared : datum.data ||| perm.bit = 0 := redundant
      rw [cleared] at granted
      exact granted UInt32.zero_and
    refine ⟨fun _ => .inl rfl, fun _ => ⟨{ datum with data := datum.data ||| perm.bit }, ?_, granted⟩⟩
    rw [edited]
    change _ ∈ if isRedundant other { datum with data := datum.data ||| perm.bit } then rest
      else { datum with data := datum.data ||| perm.bit } :: rest
    rw [kept]
    exact mem_cons_self
  · rw [Grants, data_editRule_of_ne avtab (some perm) false same, or_iff_right same]
    rfl

/-- Several grants of one permission. -/
theorem grants_applyEdits_iff (avtab : Avtab) (perm : PermDatum) {edits : List RuleEdit}
    (isAllowed : ∀ edit ∈ edits, edit.1.specified = .allowed ∧ edit.2 = some perm)
    (other : AvtabKey) :
    (avtab.applyEdits false edits).Grants other perm ↔
      (∃ edit ∈ edits, other = edit.1) ∨ avtab.Grants other perm := by
  induction edits generalizing avtab with
  | nil => simp
  | cons edit edits ih =>
    obtain ⟨allowed, isPerm⟩ := isAllowed edit mem_cons_self
    have later := ih (avtab.editRule edit.1 edit.2 false)
      fun edit mem => isAllowed edit (mem_cons_of_mem _ mem)
    rw [applyEdits_cons, later, isPerm, grants_editRule_iff avtab allowed,
      exists_mem_cons_iff, or_assoc, or_left_comm]

end Avtab

/-! ## What a type is allowed -/

namespace TypeDb

variable (db : TypeDb)

/-- The attributes of a type. -/
def attributesOf (type : TypeDatum) : List TypeDatum :=
  db.attrs.filter fun attr => Has db.typeAttrMap type.index attr.index

/-- The symbols a type acts as: itself and its attributes. -/
def actsAs (type : TypeDatum) : List TypeDatum :=
  type :: db.attributesOf type

/-- A source is effectively allowed a permission. -/
def AllowedFrom (type tgt : TypeDatum) (cls : ClassDatum) (perm : PermDatum) : Prop :=
  ∃ symbol ∈ db.actsAs type, db.teAvtab.Grants (avtabKey symbol tgt cls .allowed) perm

/-- A permission is effectively allowed on a target. -/
def AllowedOn (src type : TypeDatum) (cls : ClassDatum) (perm : PermDatum) : Prop :=
  ∃ symbol ∈ db.actsAs type, db.teAvtab.Grants (avtabKey src symbol cls .allowed) perm

/-- The policy with the rules of another one. -/
def withPolicy (policy : PolicyDb) : TypeDb :=
  { db with toPolicyDb := policy }

/-- The concrete types of a policy. -/
def concreteTypes : List TypeDatum :=
  (db.types.map Prod.snd).filter fun type => type.flavor = .type

/-- The type shares the number of its keys with an attribute.  Types that have an
attribute do. -/
def Covered (type : TypeDatum) : Prop :=
  ∃ symbol ∈ db.actsAs type, ∃ attr ∈ db.attrs, symbol.value.toUInt16 = attr.value.toUInt16

theorem covered_of_attribute {type : TypeDatum} (has : db.attributesOf type ≠ []) :
    db.Covered type := by
  obtain ⟨attr, mem⟩ := exists_mem_of_ne_nil _ has
  exact ⟨attr, mem_cons_of_mem type mem, attr, (mem_filter.mp mem).1, rfl⟩

/-- Every concrete type is effectively allowed a permission on a target. -/
def EverySource (tgt : TypeDatum) (cls : ClassDatum) (perm : PermDatum) : Prop :=
  ∀ type ∈ db.concreteTypes, db.AllowedFrom type tgt cls perm

/-- A source is effectively allowed a permission on every concrete type. -/
def EveryTarget (src : TypeDatum) (cls : ClassDatum) (perm : PermDatum) : Prop :=
  ∀ type ∈ db.concreteTypes, db.AllowedOn src type cls perm

end TypeDb

/-! ## The statements -/

/-- The name of a type or an attribute that exists. -/
structure NamesType (db : PolicyDb) (name : String) (type : TypeDatum) : Prop where
  named : name ≠ ""
  found : hashtabFind db.types name = some type

/-- The names of a class and of one of its permissions. -/
structure NamesPerm (db : PolicyDb) (c p : String) (cls : ClassDatum) (perm : PermDatum) :
    Prop where
  classNamed : c ≠ ""
  permNamed : p ≠ ""
  found : hashtabFind db.classes c = some cls
  permFound : PolicyDb.findPerm cls p = some perm

/-- `allow * t c p`. -/
def allowFromAll (t c p : String) : List Token :=
  [.AL, .ST, .ID t, .ID c, .ID p]

/-- `allow s * c p`. -/
def allowOnAll (s c p : String) : List Token :=
  [.AL, .ID s, .ST, .ID c, .ID p]

section Resolve

variable {db : PolicyDb} {s t c p : String} {src tgt : TypeDatum} {cls : ClassDatum}
  {perm : PermDatum}

theorem NamesType.resolve_eq (names : NamesType db t tgt) (warning : String) :
    resolve db.types t warning = .ok (some tgt) := by
  rw [resolve, if_neg names.named, names.found]

theorem NamesPerm.resolve_eq (names : NamesPerm db c p cls perm) (warning : String) :
    resolve db.classes c warning = .ok (some cls) := by
  rw [resolve, if_neg names.classNamed, names.found]

theorem NamesPerm.resolvePerm_eq (names : NamesPerm db c p cls perm) :
    resolvePerm (some cls) c p = .ok (some perm) := by
  rw [resolvePerm, if_neg names.permNamed, names.permFound]

/-- A grant from all sources is made for every attribute. -/
theorem execTokens_allowFromAll (target : NamesType db t tgt) (names : NamesPerm db c p cls perm) :
    db.execTokens (allowFromAll t c p) = some (db.withAvtab (db.teAvtab.applyEdits false
        (db.attrs.map fun attr => (avtabKey attr tgt cls .allowed, some perm)))) := by
  have executed : db.execTokens (allowFromAll t c p) =
      some (db.addRules .allowed false [] [t] [c] [p]) := rfl
  have edits : db.ruleEdits .allowed false [] [t] [c] [p] =
      db.attrs.map fun attr => (avtabKey attr tgt cls .allowed, some perm) := by
    have single : combinations [] [t] [c] [p] = [("", t, c, p)] := rfl
    rw [ruleEdits, single, flatMap_singleton, nameEdits,
      resolveNames, target.resolve_eq, names.resolve_eq, map_eq_flatMap]
    simp only [if_true, bind, Except.bind, names.resolvePerm_eq]
    rfl
  rw [executed, addRules_eq, edits]

/-- A grant on all targets is made for every attribute. -/
theorem execTokens_allowOnAll (source : NamesType db s src) (names : NamesPerm db c p cls perm) :
    db.execTokens (allowOnAll s c p) = some (db.withAvtab (db.teAvtab.applyEdits false
        (db.attrs.map fun attr => (avtabKey src attr cls .allowed, some perm)))) := by
  have executed : db.execTokens (allowOnAll s c p) =
      some (db.addRules .allowed false [s] [] [c] [p]) := rfl
  have edits : db.ruleEdits .allowed false [s] [] [c] [p] =
      db.attrs.map fun attr => (avtabKey src attr cls .allowed, some perm) := by
    have single : combinations [s] [] [c] [p] = [(s, "", c, p)] := rfl
    rw [ruleEdits, single, flatMap_singleton, nameEdits,
      resolveNames, source.resolve_eq, names.resolve_eq, map_eq_flatMap]
    simp only [if_true, bind, Except.bind, names.resolvePerm_eq]
    exact flatMap_singleton _ _
  rw [executed, addRules_eq, edits]

end Resolve

namespace TypeDb

section Allowed

variable (db : TypeDb) {perm : PermDatum}

/-- A grant to every attribute reaches the types that have the number of one. -/
theorem granted_actsAs_iff (key : TypeDatum → AvtabKey)
    (isAllowed : ∀ type, (key type).specified = .allowed)
    (sameKey : ∀ first second, key first = key second ↔
      first.value.toUInt16 = second.value.toUInt16) (type : TypeDatum) :
    (∃ symbol ∈ db.actsAs type, (db.teAvtab.applyEdits false
        (db.attrs.map fun attr => (key attr, some perm))).Grants (key symbol) perm) ↔
      db.Covered type ∨ ∃ symbol ∈ db.actsAs type, db.teAvtab.Grants (key symbol) perm := by
  have grants : ∀ symbol, (db.teAvtab.applyEdits false
      (db.attrs.map fun attr => (key attr, some perm))).Grants (key symbol) perm ↔
        (∃ attr ∈ db.attrs, symbol.value.toUInt16 = attr.value.toUInt16) ∨
          db.teAvtab.Grants (key symbol) perm := by
    intro symbol
    rw [Avtab.grants_applyEdits_iff _ perm (by simp [isAllowed])]
    simp only [mem_map, exists_exists_and_eq_and, sameKey]
  simp only [grants, and_or_left, exists_or, Covered]

end Allowed

/-- A match-all grant reaches every concrete type just if each of them has an attribute,
up to the number of its keys, or was allowed before. -/
theorem everySource_iff_and_everyTarget_iff (db : TypeDb) (s t c p : String)
    (src tgt : TypeDatum) (cls : ClassDatum) (perm : PermDatum)
    (source : NamesType db.toPolicyDb s src) (target : NamesType db.toPolicyDb t tgt)
    (names : NamesPerm db.toPolicyDb c p cls perm) :
    (∃ after, db.execTokens (allowFromAll t c p) = some after ∧
      ((db.withPolicy after).EverySource tgt cls perm ↔
        ∀ type ∈ db.concreteTypes, db.Covered type ∨ db.AllowedFrom type tgt cls perm)) ∧
    ∃ after, db.execTokens (allowOnAll s c p) = some after ∧
      ((db.withPolicy after).EveryTarget src cls perm ↔
        ∀ type ∈ db.concreteTypes, db.Covered type ∨ db.AllowedOn src type cls perm) := by
  refine ⟨⟨_, execTokens_allowFromAll target names, ?_⟩,
    ⟨_, execTokens_allowOnAll source names, ?_⟩⟩
  · refine forall₂_congr fun type _ => ?_
    exact db.granted_actsAs_iff (fun symbol => avtabKey symbol tgt cls .allowed) (fun _ => rfl)
      (fun first second => by simp [avtabKey]) type
  · refine forall₂_congr fun type _ => ?_
    exact db.granted_actsAs_iff (fun symbol => avtabKey src symbol cls .allowed) (fun _ => rfl)
      (fun first second => by simp [avtabKey]) type

/-- A policy in which the type `app` has the attribute `domain`. -/
def domainPolicy : TypeDb :=
  { policyvers := 30
    types := [(symbolKey "app", ⟨2, .type⟩), (symbolKey "domain", ⟨1, .attrib⟩)]
    classes := [(symbolKey "file", ⟨1, [(symbolKey "read", ⟨1⟩)], none⟩)]
    teAvtab := ⟨[], 0⟩
    nprim := 2
    typeAttrMap := [{0}, {0, 1}]
    attrTypeMap := [{1}, ∅] }

theorem everySource_iff_and_everyTarget_iff_domainPolicy :
    (∃ after, domainPolicy.execTokens (allowFromAll "app" "file" "read") = some after ∧
      (domainPolicy.withPolicy after).EverySource ⟨2, .type⟩
        ⟨1, [(symbolKey "read", ⟨1⟩)], none⟩ ⟨1⟩) ∧
    ∃ after, domainPolicy.execTokens (allowOnAll "app" "file" "read") = some after ∧
      (domainPolicy.withPolicy after).EveryTarget ⟨2, .type⟩
        ⟨1, [(symbolKey "read", ⟨1⟩)], none⟩ ⟨1⟩ := by
  have app : NamesType domainPolicy.toPolicyDb "app" ⟨2, .type⟩ := by
    constructor <;> decide
  have names : NamesPerm domainPolicy.toPolicyDb "file" "read"
      ⟨1, [(symbolKey "read", ⟨1⟩)], none⟩ ⟨1⟩ := by
    constructor <;> decide
  have covered : ∀ type ∈ domainPolicy.concreteTypes, domainPolicy.Covered type := by
    intro type mem
    exact domainPolicy.covered_of_attribute (by fin_cases mem; decide)
  obtain ⟨⟨fromAll, executedFrom, reachedFrom⟩, onAll, executedOn, reachedOn⟩ :=
    everySource_iff_and_everyTarget_iff domainPolicy "app" "app" "file" "read" ⟨2, .type⟩
      ⟨2, .type⟩ _ _ app app names
  exact ⟨⟨fromAll, executedFrom, reachedFrom.mpr fun type mem => .inl (covered type mem)⟩,
    onAll, executedOn, reachedOn.mpr fun type mem => .inl (covered type mem)⟩

/-- The policy after `type loner`. -/
def lonerPolicy : TypeDb :=
  (Declaration.type "loner" []).exec domainPolicy

/-- The new type is not reached, neither as a source nor as a target. -/
theorem not_everySource_lonerPolicy :
    (∃ after, lonerPolicy.execTokens (allowFromAll "app" "file" "read") = some after ∧
      ¬ (lonerPolicy.withPolicy after).EverySource ⟨2, .type⟩
        ⟨1, [(symbolKey "read", ⟨1⟩)], none⟩ ⟨1⟩) ∧
    ∃ after, lonerPolicy.execTokens (allowOnAll "app" "file" "read") = some after ∧
      ¬ (lonerPolicy.withPolicy after).EveryTarget ⟨2, .type⟩
        ⟨1, [(symbolKey "read", ⟨1⟩)], none⟩ ⟨1⟩ := by
  have app : NamesType lonerPolicy.toPolicyDb "app" ⟨2, .type⟩ := by
    constructor <;> decide
  have names : NamesPerm lonerPolicy.toPolicyDb "file" "read"
      ⟨1, [(symbolKey "read", ⟨1⟩)], none⟩ ⟨1⟩ := by
    constructor <;> decide
  have loner : (⟨3, .type⟩ : TypeDatum) ∈ lonerPolicy.concreteTypes := by decide
  have alone : lonerPolicy.actsAs ⟨3, .type⟩ = [⟨3, .type⟩] := by decide
  refine ⟨⟨_, execTokens_allowFromAll app names, fun every => ?_⟩,
    ⟨_, execTokens_allowOnAll app names, fun every => ?_⟩⟩
  · obtain ⟨symbol, mem, grants⟩ := every ⟨3, .type⟩ loner
    obtain rfl : symbol = ⟨3, .type⟩ := mem_singleton.mp (alone ▸ mem)
    exact absurd grants (by decide)
  · obtain ⟨symbol, mem, grants⟩ := every ⟨3, .type⟩ loner
    obtain rfl : symbol = ⟨3, .type⟩ := mem_singleton.mp (alone ▸ mem)
    exact absurd grants (by decide)

end TypeDb

end Magisk.SePolicy
