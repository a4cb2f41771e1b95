import Magisk.SePolicy.PolicyDb

/-!
# Access vector rules

`addRule` edits one 32-bit word of the access vector table, or one word for
every type, attribute or class a wildcard stands for.  The policy statements
`allow`, `deny`, `auditallow` and `dontaudit` differ in the rule kind and in
whether bits are set or cleared.
-/

namespace Magisk.SePolicy

/-- `strip_av`: the rule takes permissions away. -/
def stripAv (effect : Specified) (invert : Bool) : Bool :=
  (effect == .auditdeny) == !invert

/-- The new word of a rule; no permission stands for all of them. -/
def editWord (perm : Option PermDatum) (invert : Bool) (data : UInt32) : UInt32 :=
  if invert then
    match perm with
    | some perm => data &&& ~~~(1 <<< (perm.value - 1))
    | none => 0
  else
    match perm with
    | some perm => data ||| 1 <<< (perm.value - 1)
    | none => ~~~0

namespace Avtab

/-- Remove the node a search for `key` returns if it says nothing. -/
def dropRedundant (avtab : Avtab) (key : AvtabKey) : Avtab :=
  match avtab.data key with
  | [] => avtab
  | datum :: _ => if isRedundant key datum then avtab.removeNode key else avtab

/-- Edit the word of one key: create its node on demand and unlink it once it
is redundant. -/
def editRule (avtab : Avtab) (key : AvtabKey) (perm : Option PermDatum) (invert : Bool) : Avtab :=
  let avtab := avtab.getNode key
  let avtab := avtab.modifyNode key fun datum =>
    { datum with data := editWord perm invert datum.data }
  avtab.dropRedundant key

end Avtab

namespace PolicyDb

/-- The attributes among the types, as `for_each_attr` visits them. -/
def attrs (db : PolicyDb) : List TypeDatum :=
  (db.types.map Prod.snd).filter fun type => type.flavor = .attrib

/-- The types a wildcard stands for. -/
def wildcardTypes (db : PolicyDb) (effect : Specified) (invert : Bool) : List TypeDatum :=
  if stripAv effect invert then db.types.map Prod.snd else db.attrs

section AddRule

variable (perm : Option PermDatum) (effect : Specified) (invert : Bool)

/-- `add_rule` with source, target and class given. -/
def addRuleAt (db : PolicyDb) (src tgt : TypeDatum) (cls : ClassDatum) : PolicyDb :=
  { db with teAvtab := db.teAvtab.editRule (avtabKey src tgt cls effect) perm invert }

/-- `add_rule` with source and target given. -/
def addRuleClass (db : PolicyDb) (src tgt : TypeDatum) : Option ClassDatum → PolicyDb
  | none => (db.classes.map Prod.snd).foldl (fun db cls => db.addRuleAt perm effect invert src tgt cls) db
  | some cls => db.addRuleAt perm effect invert src tgt cls

/-- `add_rule` with the source given. -/
def addRuleTarget (db : PolicyDb) (src : TypeDatum) (tgt : Option TypeDatum)
    (cls : Option ClassDatum) : PolicyDb :=
  match tgt with
  | none => (db.wildcardTypes effect invert).foldl
      (fun db tgt => db.addRuleClass perm effect invert src tgt cls) db
  | some tgt => db.addRuleClass perm effect invert src tgt cls

/-- `add_rule` on resolved symbols, `none` being a wildcard. -/
def addRuleDatum (db : PolicyDb) (src tgt : Option TypeDatum) (cls : Option ClassDatum) :
    PolicyDb :=
  match src with
  | none => (db.wildcardTypes effect invert).foldl
      (fun db src => db.addRuleTarget perm effect invert src tgt cls) db
  | some src => db.addRuleTarget perm effect invert src tgt cls

end AddRule

/-- Resolve a name, the empty one being a wildcard. -/
def resolve {α : Type} (table : Symtab α) (name warning : String) : Except String (Option α) :=
  if name = "" then
    .ok none
  else
    match hashtabFind table name with
    | some datum => .ok (some datum)
    | none => .error warning

/-- A permission of a class or of its common class. -/
def findPerm (cls : ClassDatum) (p : String) : Option PermDatum :=
  match hashtabFind cls.permissions p with
  | some perm => some perm
  | none => cls.comdatum.bind fun permissions => hashtabFind permissions p

/-- Resolve a permission of an already resolved class. -/
def resolvePerm (cls : Option ClassDatum) (c p : String) : Except String (Option PermDatum) :=
  if p = "" then
    .ok none
  else
    match cls with
    | none => .error ("No class is specified, cannot add perm [" ++ p ++ "] ")
    | some cls =>
      match findPerm cls p with
      | some perm => .ok (some perm)
      | none => .error ("perm " ++ p ++ " does not exist in class " ++ c)

/-- `add_rule` on names; the error is the logged warning. -/
def addRule (db : PolicyDb) (s t c p : String) (effect : Specified) (invert : Bool) :
    Except String PolicyDb := do
  let src ← resolve db.types s ("source type " ++ s ++ " does not exist")
  let tgt ← resolve db.types t ("target type " ++ t ++ " does not exist")
  let cls ← resolve db.classes c ("class " ++ c ++ " does not exist")
  let perm ← resolvePerm cls c p
  return db.addRuleDatum perm effect invert src tgt cls

end PolicyDb

/-! ## Statements -/

/-- What `expand` makes of a list: an empty list is one empty name. -/
def expand (names : List String) : List String :=
  if names = [] then [""] else names

/-- Run `f` on every combination of four lists, the last one varying fastest. -/
def expandAll {σ : Type} (f : σ → String → String → String → String → σ) (state : σ)
    (src tgt cls perm : List String) : σ :=
  (expand src).foldl (fun state s =>
    (expand tgt).foldl (fun state t =>
      (expand cls).foldl (fun state c =>
        (expand perm).foldl (fun state p => f state s t c p) state) state) state) state

namespace PolicyDb

/-- One access vector statement; combinations that fail to resolve are logged
and skipped. -/
def addRules (effect : Specified) (invert : Bool) (db : PolicyDb) (src tgt cls perm : List String) :
    PolicyDb :=
  expandAll (fun db s t c p => (db.addRule s t c p effect invert).toOption.getD db) db src tgt cls
    perm

/-- `SePolicy::allow`. -/
def allow : PolicyDb → List String → List String → List String → List String → PolicyDb :=
  addRules .allowed false

/-- `SePolicy::deny`. -/
def deny : PolicyDb → List String → List String → List String → List String → PolicyDb :=
  addRules .allowed true

/-- `SePolicy::auditallow`. -/
def auditallow : PolicyDb → List String → List String → List String → List String → PolicyDb :=
  addRules .auditallow false

/-- `SePolicy::dontaudit`. -/
def dontaudit : PolicyDb → List String → List String → List String → List String → PolicyDb :=
  addRules .auditdeny true

end PolicyDb

end Magisk.SePolicy
