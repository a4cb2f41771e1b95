import Magisk.SePolicy.Rule

/-!
# Access vectors as a map of words

Statements on concrete names edit one key each.  Seen from outside, the table
is a map from keys to 32-bit words with a default per rule kind: nodes appear
when a word leaves its default and vanish when it returns to it, so that a
table with at most one node per key and no redundant node stays one.
-/

namespace Magisk.SePolicy

open List Multimap

variable {key : AvtabKey}

/-! ## The map of words -/

/-- The rule kinds whose datum is an access vector. -/
def Specified.isAv : Specified → Bool
  | .allowed => true
  | .auditallow => true
  | .auditdeny => true
  | _ => false

/-- A plain map from keys to words. -/
abbrev Words := AvtabKey → UInt32

/-- The four access vector statements. -/
inductive AvAction where
  | allow
  | deny
  | auditallow
  | dontaudit
  deriving DecidableEq, Repr

namespace AvAction

/-- The rule kind a statement edits. -/
def effect : AvAction → Specified
  | .allow => .allowed
  | .deny => .allowed
  | .auditallow => .auditallow
  | .dontaudit => .auditdeny

/-- Whether a statement clears bits. -/
def invert : AvAction → Bool
  | .allow => false
  | .deny => true
  | .auditallow => false
  | .dontaudit => true

/-- What a statement does to a word: grants set bits, denials clear them, and a
dontaudit clears the bits that are audited. -/
def apply (action : AvAction) (perm : Option PermDatum) (word : UInt32) : UInt32 :=
  match action, perm with
  | .allow, some perm => word ||| 1 <<< (perm.value - 1)
  | .allow, none => ~~~0
  | .deny, some perm => word &&& ~~~(1 <<< (perm.value - 1))
  | .deny, none => 0
  | .auditallow, some perm => word ||| 1 <<< (perm.value - 1)
  | .auditallow, none => ~~~0
  | .dontaudit, some perm => word &&& ~~~(1 <<< (perm.value - 1))
  | .dontaudit, none => 0

theorem isAv_effect (action : AvAction) : action.effect.isAv = true := by
  cases action <;> rfl

theorem editWord_eq (action : AvAction) (perm : Option PermDatum) (word : UInt32) :
    editWord perm action.invert word = action.apply perm word := by
  cases action <;> cases perm <;> rfl

end AvAction

/-- A statement on one source, target and class, and on one permission or all
of them. -/
structure AvStatement where
  action : AvAction
  source : String
  target : String
  cls : String
  perm : Option String
  deriving DecidableEq, Repr

namespace AvStatement

/-- Execute a statement. -/
def exec (db : PolicyDb) (st : AvStatement) : PolicyDb :=
  match st.action with
  | .allow => db.allow [st.source] [st.target] [st.cls] st.perm.toList
  | .deny => db.deny [st.source] [st.target] [st.cls] st.perm.toList
  | .auditallow => db.auditallow [st.source] [st.target] [st.cls] st.perm.toList
  | .dontaudit => db.dontaudit [st.source] [st.target] [st.cls] st.perm.toList

/-- The key and the permission a statement names, if all its names exist. -/
def resolve (db : PolicyDb) (st : AvStatement) : Option (AvtabKey × Option PermDatum) := do
  let src ← hashtabFind db.types st.source
  let tgt ← hashtabFind db.types st.target
  let cls ← hashtabFind db.classes st.cls
  let perm ← st.perm.mapM (PolicyDb.findPerm cls)
  return (avtabKey src tgt cls st.action.effect, perm)

/-- A statement without wildcards, all of whose names exist. -/
structure Concrete (db : PolicyDb) (st : AvStatement) : Prop where
  sourceNamed : st.source ≠ ""
  targetNamed : st.target ≠ ""
  classNamed : st.cls ≠ ""
  permNamed : st.perm ≠ some ""
  resolved : (st.resolve db).isSome

/-- What a statement means on the map of words. -/
def applyTo (db : PolicyDb) (words : Words) (st : AvStatement) : Words :=
  match st.resolve db with
  | some (key, perm) => Function.update words key (st.action.apply perm (words key))
  | none => words

end AvStatement

/-! ## One edit of the table -/

namespace Avtab

variable {other : AvtabKey}

/-- The word of a key, the default if it has no node. -/
def word (avtab : Avtab) (key : AvtabKey) : UInt32 :=
  match avtab.data key with
  | [] => initialWord key.specified
  | datum :: _ => datum.data

/-- At most one node per access vector key, and none that says nothing. -/
def Canonical (avtab : Avtab) : Prop :=
  ∀ key, key.specified.isAv = true →
    (avtab.data key).length ≤ 1 ∧ ∀ datum ∈ avtab.data key, isRedundant key datum = false

theorem isRedundant_iff {datum : AvtabDatum} :
    isRedundant key datum = true ↔ datum.data = initialWord key.specified := by
  unfold isRedundant initialWord
  split <;> simp_all

theorem data_dropRedundant_of_ne (ne : other ≠ key) (avtab : Avtab) :
    (avtab.dropRedundant key).data other = avtab.data other := by
  unfold dropRedundant
  split
  · rfl
  · split
    · exact data_removeNode_of_ne ne avtab
    · rfl

section EditRule

variable (avtab : Avtab) (perm : Option PermDatum) (invert : Bool)

theorem data_editRule_of_ne (ne : other ≠ key) :
    (avtab.editRule key perm invert).data other = avtab.data other := by
  unfold editRule
  rw [data_dropRedundant_of_ne ne, data_modifyNode_of_ne ne, data_getNode_of_ne ne]

/-- An edit changes the word of the node that a search finds or that is made for it,
and unlinks it once it says nothing. -/
theorem data_editRule_cons (key : AvtabKey) :
    ∃ datum rest, (avtab.getNode key).data key = datum :: rest ∧
      (avtab.editRule key perm invert).data key =
        if isRedundant key { datum with data := editWord perm invert datum.data } then rest
        else { datum with data := editWord perm invert datum.data } :: rest := by
  have found : ∃ datum rest, (avtab.getNode key).data key = datum :: rest := by
    rw [data_getNode_self]
    split
    · exact ⟨_, _, rfl⟩
    · rename_i present
      exact exists_cons_of_ne_nil present
  obtain ⟨datum, rest, found⟩ := found
  refine ⟨datum, rest, found, ?_⟩
  have modified : ((avtab.getNode key).modifyNode key fun datum =>
      { datum with data := editWord perm invert datum.data }).data key =
        { datum with data := editWord perm invert datum.data } :: rest := by
    rw [data_modifyNode_self, found]
    rfl
  rw [editRule, dropRedundant, modified]
  dsimp only
  split
  · rw [data_removeNode_self, modified]
    rfl
  · exact modified

/-- An edit leaves one node with the new word, or none if it is the default. -/
theorem data_editRule_self (single : (avtab.data key).length ≤ 1) :
    ∃ datum : AvtabDatum, datum.data = editWord perm invert (avtab.word key) ∧
      (avtab.editRule key perm invert).data key =
        if isRedundant key datum then [] else [datum] := by
  obtain ⟨datum, rest, found, edited⟩ := data_editRule_cons avtab perm invert key
  have only : rest = [] ∧ datum.data = avtab.word key := by
    rw [data_getNode_self] at found
    rw [word]
    match present : avtab.data key with
    | [] =>
      rw [present] at found
      cases found
      exact ⟨rfl, rfl⟩
    | [single] =>
      rw [present] at found
      cases found
      exact ⟨rfl, rfl⟩
    | first :: second :: rest =>
      rw [present, length_cons, length_cons] at single
      omega
  obtain ⟨rfl, wordEq⟩ := only
  exact ⟨{ datum with data := editWord perm invert datum.data }, by rw [wordEq], edited⟩

theorem word_editRule_self (single : (avtab.data key).length ≤ 1) :
    (avtab.editRule key perm invert).word key = editWord perm invert (avtab.word key) := by
  obtain ⟨datum, wordEq, edited⟩ := data_editRule_self avtab perm invert single
  rw [word, edited]
  by_cases redundant : isRedundant key datum = true
  · rw [if_pos redundant, ← wordEq, isRedundant_iff.mp redundant]
  · rw [if_neg redundant]
    exact wordEq

theorem word_editRule_of_ne (ne : other ≠ key) :
    (avtab.editRule key perm invert).word other = avtab.word other := by
  rw [word, data_editRule_of_ne avtab perm invert ne, word]

/-- Edits keep the table canonical. -/
theorem Canonical.editRule {avtab : Avtab} (canonical : avtab.Canonical)
    (isAv : key.specified.isAv = true) (perm : Option PermDatum) (invert : Bool) :
    (avtab.editRule key perm invert).Canonical := by
  intro other otherAv
  by_cases same : other = key
  · subst same
    obtain ⟨datum, _, edited⟩ := data_editRule_self avtab perm invert (canonical other isAv).1
    rw [edited]
    cases redundant : isRedundant other datum with
    | true => simp
    | false => simp [redundant]
  · rw [data_editRule_of_ne avtab perm invert same]
    exact canonical other otherAv

end EditRule

end Avtab

/-! ## Statements and runs of statements -/

namespace AvStatement

variable {db : PolicyDb} {st : AvStatement} {before after : PolicyDb} {done : List AvStatement}

theorem exec_eq_addRules (db : PolicyDb) (st : AvStatement) :
    st.exec db = db.addRules st.action.effect st.action.invert [st.source] [st.target] [st.cls]
      st.perm.toList := by
  unfold exec
  cases st.action <;> rfl

variable {perm : Option PermDatum}

theorem resolve_eq_some_iff : st.resolve db = some (key, perm) ↔
      ∃ src tgt cls, hashtabFind db.types st.source = some src ∧
        hashtabFind db.types st.target = some tgt ∧
        hashtabFind db.classes st.cls = some cls ∧
        st.perm.mapM (PolicyDb.findPerm cls) = some perm ∧
        avtabKey src tgt cls st.action.effect = key := by
  simp only [resolve, bind, Option.bind_eq_some_iff, pure, Option.some.injEq, Prod.mk.injEq]
  constructor
  · rintro ⟨src, source, tgt, target, cls, found, other, perms, rfl, rfl⟩
    exact ⟨src, tgt, cls, source, target, found, perms, rfl⟩
  · rintro ⟨src, tgt, cls, source, target, found, perms, rfl⟩
    exact ⟨src, source, tgt, target, cls, found, perm, perms, rfl, rfl⟩

/-- Adding a rule under names that all exist. -/
theorem addRule_eq (effect : Specified) (invert : Bool) {s t c p : String} {src tgt : TypeDatum}
    {cls : ClassDatum} (sNamed : s ≠ "") (tNamed : t ≠ "") (cNamed : c ≠ "")
    (source : hashtabFind db.types s = some src) (target : hashtabFind db.types t = some tgt)
    (found : hashtabFind db.classes c = some cls)
    (perms : PolicyDb.resolvePerm (some cls) c p = .ok perm) :
    db.addRule s t c p effect invert =
      .ok { db with
        teAvtab := db.teAvtab.editRule (avtabKey src tgt cls effect) perm invert } := by
  simp only [PolicyDb.addRule, PolicyDb.resolve, if_neg sNamed, if_neg tNamed, if_neg cNamed,
    source, target, found, perms, bind, Except.bind]
  rfl

/-- A concrete statement edits the one key it names. -/
theorem Concrete.exec_eq (concrete : st.Concrete db) (resolved : st.resolve db = some (key, perm)) :
    st.exec db = { db with teAvtab := db.teAvtab.editRule key perm st.action.invert } := by
  obtain ⟨src, tgt, cls, source, target, found, perms, rfl⟩ := resolve_eq_some_iff.mp resolved
  have added := fun p (resolvedPerm : PolicyDb.resolvePerm (some cls) st.cls p = .ok perm) =>
    addRule_eq st.action.effect st.action.invert concrete.sourceNamed concrete.targetNamed
      concrete.classNamed source target found resolvedPerm
  rw [exec_eq_addRules]
  cases named : st.perm with
  | none =>
    rw [named] at perms
    cases perms
    have one := added "" rfl
    simp only [PolicyDb.addRules, expandAll, expand, Option.toList_none, if_true,
      cons_ne_nil, if_false, foldl_cons, foldl_nil, one, Except.toOption,
      Option.getD_some]
  | some p =>
    have permNamed : p ≠ "" := fun empty => concrete.permNamed (by rw [named, empty])
    rw [named] at perms
    have foundPerm : ∃ datum, PolicyDb.findPerm cls p = some datum ∧ some datum = perm := by
      simpa [Option.mapM] using perms
    obtain ⟨datum, datumFound, rfl⟩ := foundPerm
    have one := added p (by simp only [PolicyDb.resolvePerm, if_neg permNamed, datumFound])
    simp only [PolicyDb.addRules, expandAll, expand, Option.toList_some,
      cons_ne_nil, if_false, foldl_cons, foldl_nil, one, Except.toOption,
      Option.getD_some]

theorem resolve_isAv (resolved : st.resolve db = some (key, perm)) : key.specified.isAv = true := by
  obtain ⟨src, tgt, cls, _, _, _, _, rfl⟩ := resolve_eq_some_iff.mp resolved
  exact st.action.isAv_effect

/-- The state `after` the statements `done`, compared with the map of words. -/
structure Refines (before : PolicyDb) (done : List AvStatement) (after : PolicyDb) : Prop where
  frame : after = { before with teAvtab := after.teAvtab }
  canonical : after.teAvtab.Canonical
  word : ∀ key, after.teAvtab.word key = done.foldl (applyTo before) before.teAvtab.word key
  untouched : ∀ key, (∀ st ∈ done, ∀ perm, st.resolve before ≠ some (key, perm)) →
    after.teAvtab.data key = before.teAvtab.data key

/-- One statement does to the table what it does to the map of words. -/
theorem Refines.step (refines : Refines before done after) (concrete : st.Concrete before) :
    Refines before (done ++ [st]) (st.exec after) := by
  have sameResolve : st.resolve after = st.resolve before := by
    rw [refines.frame]
    rfl
  obtain ⟨⟨key, perm⟩, resolved⟩ := Option.isSome_iff_exists.mp concrete.resolved
  have afterConcrete : st.Concrete after :=
    { concrete with resolved := by rw [sameResolve, resolved]; rfl }
  have isAv := resolve_isAv resolved
  rw [afterConcrete.exec_eq (sameResolve.trans resolved)]
  constructor
  · rw [refines.frame]
  · exact refines.canonical.editRule isAv perm st.action.invert
  · intro other
    rw [foldl_append, foldl_cons, foldl_nil]
    simp only [applyTo, resolved]
    by_cases same : other = key
    · subst same
      rw [Avtab.word_editRule_self _ _ _ (refines.canonical other isAv).1, refines.word,
        Function.update_self, st.action.editWord_eq]
    · rw [Avtab.word_editRule_of_ne _ _ _ same, refines.word, Function.update_of_ne same]
  · intro other unnamed
    have ne : other ≠ key := by
      rintro rfl
      exact unnamed st (mem_append_right done mem_cons_self) perm resolved
    rw [Avtab.data_editRule_of_ne _ _ _ ne]
    exact refines.untouched other fun earlier mem =>
      unnamed earlier (mem_append_left [st] mem)

/-- A run of concrete statements does to the table what it does to the map of
words. -/
theorem Refines.run {statements : List AvStatement} (refines : Refines before done after)
    (concrete : ∀ st ∈ statements, st.Concrete before) :
    Refines before (done ++ statements) (statements.foldl exec after) := by
  induction statements generalizing done after with
  | nil => simpa using refines
  | cons st rest ih =>
    have stepped := refines.step (concrete st mem_cons_self)
    have finished := ih stepped fun other mem => concrete other (mem_cons_of_mem st mem)
    rwa [append_assoc] at finished

end AvStatement

end Magisk.SePolicy
