import Magisk.SePolicy.AccessVector

/-!
# Statements as lists of edits

An access vector statement reads the symbol tables and edits the table of rules.
Since an edit leaves the symbol tables alone, the edits of a statement are known before
the first of them is made: one for each key that its names and wildcards stand for.
-/

namespace Magisk.SePolicy

open List

/-! ## Bits -/

/-- The bit of a permission. -/
def PermDatum.bit (perm : PermDatum) : UInt32 :=
  1 <<< (perm.value - 1)

theorem PermDatum.bit_ne_zero (perm : PermDatum) : perm.bit ≠ 0 := by
  intro isZero
  have value := congrArg UInt32.toNat isZero
  rw [bit, UInt32.toNat_shiftLeft] at value
  have small : (perm.value - 1).toNat % 32 < 32 := Nat.mod_lt _ (by decide)
  have power : 2 ^ ((perm.value - 1).toNat % 32) < 2 ^ 32 := Nat.pow_lt_pow_right (by decide) small
  have positive : 0 < 2 ^ ((perm.value - 1).toNat % 32) := Nat.two_pow_pos _
  rw [UInt32.toNat_one, Nat.one_shiftLeft, Nat.mod_eq_of_lt power] at value
  exact absurd value positive.ne'

theorem or_and_self (word bit : UInt32) : (word ||| bit) &&& bit = bit := by
  apply UInt32.toBitVec_inj.mp
  ext i inside
  simp only [UInt32.toBitVec_and, UInt32.toBitVec_or, BitVec.getElem_and, BitVec.getElem_or]
  cases bit.toBitVec[i] with
  | true => rw [Bool.or_true, Bool.and_true]
  | false => rw [Bool.and_false]

/-! ## Edits -/

/-- One edit: a key, and the permission that is set or cleared. -/
abbrev RuleEdit := AvtabKey × Option PermDatum

namespace Avtab

/-- Make edits one after the other. -/
def applyEdits (avtab : Avtab) (invert : Bool) (edits : List RuleEdit) : Avtab :=
  edits.foldl (fun avtab edit => avtab.editRule edit.1 edit.2 invert) avtab

@[simp]
theorem applyEdits_nil (avtab : Avtab) (invert : Bool) : avtab.applyEdits invert [] = avtab :=
  rfl

theorem applyEdits_cons (avtab : Avtab) (invert : Bool) (edit : RuleEdit) (edits : List RuleEdit) :
    avtab.applyEdits invert (edit :: edits) =
      (avtab.editRule edit.1 edit.2 invert).applyEdits invert edits :=
  rfl

theorem applyEdits_append (avtab : Avtab) (invert : Bool) (first second : List RuleEdit) :
    avtab.applyEdits invert (first ++ second) =
      (avtab.applyEdits invert first).applyEdits invert second :=
  foldl_append

end Avtab

/-- What a symbol stands for: itself, or everything. -/
def wildcard {α : Type} (all : List α) : Option α → List α
  | none => all
  | some symbol => [symbol]

namespace PolicyDb

/-- The policy with another table of rules. -/
def withAvtab (db : PolicyDb) (avtab : Avtab) : PolicyDb :=
  { db with teAvtab := avtab }

/-- Steps that each make some edits together make all of them. -/
theorem foldl_withAvtab {α : Type} (db : PolicyDb) (invert : Bool)
    (step : PolicyDb → α → PolicyDb) (edits : α → List RuleEdit)
    (steps : ∀ avtab item, step (db.withAvtab avtab) item =
      db.withAvtab (avtab.applyEdits invert (edits item)))
    (items : List α) (avtab : Avtab) :
    items.foldl step (db.withAvtab avtab) =
      db.withAvtab (avtab.applyEdits invert (items.flatMap edits)) := by
  induction items generalizing avtab with
  | nil => rfl
  | cons item items ih =>
    rw [foldl_cons, steps, ih, flatMap_cons, Avtab.applyEdits_append]

section Datum

variable (db : PolicyDb) (perm : Option PermDatum) (effect : Specified) (invert : Bool)

/-- The edits for a source and a target. -/
def classEdits (src tgt : TypeDatum) (cls : Option ClassDatum) : List RuleEdit :=
  (wildcard (db.classes.map Prod.snd) cls).map fun cls => (avtabKey src tgt cls effect, perm)

/-- The edits for a source. -/
def targetEdits (src : TypeDatum) (tgt : Option TypeDatum) (cls : Option ClassDatum) :
    List RuleEdit :=
  (wildcard (db.wildcardTypes effect invert) tgt).flatMap fun tgt =>
    db.classEdits perm effect src tgt cls

/-- The edits of `add_rule` on resolved symbols. -/
def datumEdits (src tgt : Option TypeDatum) (cls : Option ClassDatum) : List RuleEdit :=
  (wildcard (db.wildcardTypes effect invert) src).flatMap fun src =>
    db.targetEdits perm effect invert src tgt cls

theorem addRuleClass_eq (src tgt : TypeDatum) (cls : Option ClassDatum) (avtab : Avtab) :
    (db.withAvtab avtab).addRuleClass perm effect invert src tgt cls =
      db.withAvtab (avtab.applyEdits invert (db.classEdits perm effect src tgt cls)) := by
  cases cls with
  | some cls => rfl
  | none =>
    rw [classEdits, map_eq_flatMap]
    exact db.foldl_withAvtab invert (fun db cls => db.addRuleAt perm effect invert src tgt cls) _
      (fun _ _ => rfl) _ avtab

theorem addRuleTarget_eq (src : TypeDatum) (tgt : Option TypeDatum) (cls : Option ClassDatum)
    (avtab : Avtab) :
    (db.withAvtab avtab).addRuleTarget perm effect invert src tgt cls =
      db.withAvtab (avtab.applyEdits invert (db.targetEdits perm effect invert src tgt cls)) := by
  cases tgt with
  | some tgt =>
    rw [targetEdits, wildcard, flatMap_singleton]
    exact db.addRuleClass_eq perm effect invert src tgt cls avtab
  | none =>
    exact db.foldl_withAvtab invert (fun db tgt => db.addRuleClass perm effect invert src tgt cls) _
      (fun avtab tgt => db.addRuleClass_eq perm effect invert src tgt cls avtab) _ avtab

/-- `add_rule` makes the edits of its symbols. -/
theorem addRuleDatum_eq (src tgt : Option TypeDatum) (cls : Option ClassDatum) (avtab : Avtab) :
    (db.withAvtab avtab).addRuleDatum perm effect invert src tgt cls =
      db.withAvtab (avtab.applyEdits invert (db.datumEdits perm effect invert src tgt cls)) := by
  cases src with
  | some src =>
    rw [datumEdits, wildcard, flatMap_singleton]
    exact db.addRuleTarget_eq perm effect invert src tgt cls avtab
  | none =>
    exact db.foldl_withAvtab invert
      (fun db src => db.addRuleTarget perm effect invert src tgt cls) _
      (fun avtab src => db.addRuleTarget_eq perm effect invert src tgt cls avtab) _ avtab

end Datum

/-! ## Names -/

section Names

variable (db : PolicyDb) (effect : Specified) (invert : Bool)

/-- The symbols and the permission of a combination of names. -/
def resolveNames (s t c p : String) :
    Except String (Option TypeDatum × Option TypeDatum × Option ClassDatum × Option PermDatum) := do
  let src ← resolve db.types s ("source type " ++ s ++ " does not exist")
  let tgt ← resolve db.types t ("target type " ++ t ++ " does not exist")
  let cls ← resolve db.classes c ("class " ++ c ++ " does not exist")
  let perm ← resolvePerm cls c p
  return (src, tgt, cls, perm)

/-- The edits of a combination of names, none if one of them does not exist. -/
def nameEdits (s t c p : String) : List RuleEdit :=
  match db.resolveNames s t c p with
  | .ok (src, tgt, cls, perm) => db.datumEdits perm effect invert src tgt cls
  | .error _ => []

/-- `add_rule` on names, with a failure that is logged and skipped. -/
theorem addRule_getD (s t c p : String) (avtab : Avtab) :
    ((db.withAvtab avtab).addRule s t c p effect invert).toOption.getD (db.withAvtab avtab) =
      db.withAvtab (avtab.applyEdits invert (db.nameEdits effect invert s t c p)) := by
  have split : (db.withAvtab avtab).addRule s t c p effect invert =
      (db.resolveNames s t c p).map fun found =>
        (db.withAvtab avtab).addRuleDatum found.2.2.2 effect invert found.1 found.2.1
          found.2.2.1 := by
    unfold addRule resolveNames
    simp only [withAvtab, bind, Except.bind]
    cases resolve db.types s ("source type " ++ s ++ " does not exist") with
    | error => rfl
    | ok src =>
      cases resolve db.types t ("target type " ++ t ++ " does not exist") with
      | error => rfl
      | ok tgt =>
        cases resolve db.classes c ("class " ++ c ++ " does not exist") with
        | error => rfl
        | ok cls =>
          dsimp only
          cases resolvePerm cls c p with
          | error => rfl
          | ok perm => rfl
  rw [split, nameEdits]
  cases db.resolveNames s t c p with
  | error => rfl
  | ok found => exact db.addRuleDatum_eq found.2.2.2 effect invert found.1 found.2.1 found.2.2.1 avtab

/-- The combinations of four lists, in the order of `expand`. -/
def combinations (src tgt cls perm : List String) : List (String × String × String × String) :=
  (expand src).flatMap fun s => (expand tgt).flatMap fun t => (expand cls).flatMap fun c =>
    (expand perm).map fun p => (s, t, c, p)

/-- The edits of a statement. -/
def ruleEdits (src tgt cls perm : List String) : List RuleEdit :=
  (combinations src tgt cls perm).flatMap fun names =>
    db.nameEdits effect invert names.1 names.2.1 names.2.2.1 names.2.2.2

/-- A statement makes the edits of its combinations of names. -/
theorem addRules_eq (src tgt cls perm : List String) : db.addRules effect invert src tgt cls perm =
      db.withAvtab (db.teAvtab.applyEdits invert
        (db.ruleEdits effect invert src tgt cls perm)) := by
  have all := db.foldl_withAvtab invert
    (fun db names => (db.addRule names.1 names.2.1 names.2.2.1 names.2.2.2 effect invert).toOption.getD
      db) _ (fun avtab names => db.addRule_getD effect invert names.1 names.2.1 names.2.2.1
        names.2.2.2 avtab) (combinations src tgt cls perm) db.teAvtab
  rw [ruleEdits, ← all]
  simp only [combinations, foldl_flatMap, foldl_map]
  rfl

end Names

end PolicyDb

end Magisk.SePolicy
