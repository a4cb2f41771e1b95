import Magisk.Relation.Core
import Magisk.SePolicy.Rule

/-!
# Types and attributes

A policy keeps for every type the bitmap of its attributes, itself included, and
for every attribute the bitmap of its types.  `add_type` gives a new symbol the
next value and makes both tables one row longer; `add_typeattribute` sets one bit
in each table.  Names are looked up in a buffer of 256 bytes, but entered in full.
-/

namespace Magisk.SePolicy

open List Bytes Magisk.Relation

variable {others : Nat → Nat → Prop}

/-- The policy with its tables of types and attributes.  `nprim` is the number of
primary symbols. -/
structure TypeDb extends PolicyDb where
  nprim : UInt32
  typeAttrMap : Rows
  attrTypeMap : Rows

/-- The row and the bit of a symbol. -/
def TypeDatum.index (datum : TypeDatum) : Nat :=
  (datum.value - 1).toNat

namespace TypeDb

/-- A symbol that is entered, `symtab_insert` having given it the next value. -/
def declare (db : TypeDb) (key : List UInt8) (flavor : Flavor) : TypeDb :=
  let value := db.nprim + 1
  { db with
    types := (key, ⟨value, flavor⟩) :: db.types
    nprim := value
    typeAttrMap := db.typeAttrMap ++ [{(value - 1).toNat}]
    attrTypeMap := db.attrTypeMap ++ [∅] }

/-- `add_type`.  The tables are reallocated for `nprim` rows, of which the last
one is new. -/
def addType (db : TypeDb) (name : String) (flavor : Flavor) : Bool × TypeDb :=
  match hashtabFind db.types name with
  | some _ => (true, db)
  | none =>
    match db.types.lookup (cString name) with
    | some _ => (false, db)
    | none => (true, db.declare (cString name) flavor)

/-- `add_typeattribute` on symbols. -/
def join (db : TypeDb) (type attr : TypeDatum) : TypeDb :=
  { db with
    typeAttrMap := setBit db.typeAttrMap type.index attr.index
    attrTypeMap := setBit db.attrTypeMap attr.index type.index }

/-- `add_typeattribute` on names. -/
def addTypeattribute (db : TypeDb) (type attr : String) : Bool × TypeDb :=
  match hashtabFind db.types type with
  | none => (false, db)
  | some typeDatum =>
    if typeDatum.flavor = .attrib then (false, db)
    else
      match hashtabFind db.types attr with
      | none => (false, db)
      | some attrDatum =>
        if attrDatum.flavor ≠ .attrib then (false, db)
        else (true, db.join typeDatum attrDatum)

/-- `SePolicy::typeattribute`. -/
def typeattribute (db : TypeDb) (types attrs : List String) : TypeDb :=
  (expand types).foldl (fun db type =>
    (expand attrs).foldl (fun db attr => (db.addTypeattribute type attr).2) db) db

/-- `SePolicy::type`. -/
def type (db : TypeDb) (name : String) (attrs : List String) : TypeDb :=
  (expand attrs).foldl (fun db attr =>
    match db.addType name .type with
    | (true, db) => (db.addTypeattribute name attr).2
    | (false, db) => db) db

/-- `SePolicy::attribute`. -/
def newAttribute (db : TypeDb) (name : String) : TypeDb :=
  (db.addType name .attrib).2

end TypeDb

/-- A statement about types and attributes. -/
inductive Declaration where
  | type (name : String) (attrs : List String)
  | newAttr (name : String)
  | typeattribute (types attrs : List String)
  deriving DecidableEq, Repr

namespace Declaration

/-- Execute a statement. -/
def exec (db : TypeDb) : Declaration → TypeDb
  | .type name attrs => db.type name attrs
  | .newAttr name => db.newAttribute name
  | .typeattribute types attrs => db.typeattribute types attrs

/-- The names of a statement. -/
def names : Declaration → List String
  | .type name attrs => name :: attrs
  | .newAttr name => [name]
  | .typeattribute types attrs => types ++ attrs

/-- The pairs of a type and an attribute that a statement names. -/
def pairs : Declaration → List (String × String)
  | .type name attrs => attrs.map fun attr => (name, attr)
  | .newAttr _ => []
  | .typeattribute types attrs => types.flatMap fun type => attrs.map fun attr => (type, attr)

end Declaration

/-! ## What a policy says about types and attributes -/

namespace TypeDb

/-- The tables have a row for every symbol, all symbols and all bits are in range,
and no symbol has the empty name. -/
structure Formed (db : TypeDb) : Prop where
  typeRows : db.typeAttrMap.length = db.nprim.toNat
  attrRows : db.attrTypeMap.length = db.nprim.toNat
  values : ∀ entry ∈ db.types, 0 < entry.2.value ∧ entry.2.value ≤ db.nprim
  typeBits : ∀ {i j}, Has db.typeAttrMap i j → j < db.nprim.toNat
  attrBits : ∀ {i j}, Has db.attrTypeMap i j → j < db.nprim.toNat
  named : ∀ entry ∈ db.types, entry.1 ≠ []

/-- The two tables agree on every type and every other attribute. -/
def Agree (db : TypeDb) : Prop :=
  ∀ type ∈ db.types, type.2.flavor ≠ .attrib → ∀ attr ∈ db.types, attr.2.flavor = .attrib →
    type.2.value ≠ attr.2.value →
    (Has db.typeAttrMap type.2.index attr.2.index ↔ Has db.attrTypeMap attr.2.index type.2.index)

/-- Every symbol is among its own attributes. -/
def Reflexive (db : TypeDb) : Prop :=
  ∀ entry ∈ db.types, Has db.typeAttrMap entry.2.index entry.2.index

/-- The symbol of a name. -/
def declared (db : TypeDb) (name : String) : Option TypeDatum :=
  db.types.lookup (cString name)

end TypeDb

/-- A statement names a type and an attribute that exist, with these indices. -/
def Declaration.Joins (declaration : Declaration) (db : TypeDb) (i j : Nat) : Prop :=
  ∃ pair ∈ declaration.pairs, ∃ type attr, db.declared pair.1 = some type ∧
    type.flavor ≠ .attrib ∧ db.declared pair.2 = some attr ∧ attr.flavor = .attrib ∧
    i = type.index ∧ j = attr.index

/-- A name that fits the buffer it is looked up in. -/
structure IsProper (name : String) : Prop where
  nonempty : utf8 name ≠ []
  noZero : 0 ∉ utf8 name
  short : (utf8 name).length ≤ 255

/-! ## Names -/

theorem takeWhile_ne_zero {bytes : List UInt8} (noZero : 0 ∉ bytes) :
    bytes.takeWhile (· ≠ 0) = bytes := by
  rw [takeWhile_eq_self_iff]
  intro byte mem
  rw [decide_eq_true_eq]
  rintro rfl
  exact noZero mem

namespace IsProper

variable {name : String}

theorem cString_eq (proper : IsProper name) : cString name = utf8 name :=
  takeWhile_ne_zero proper.noZero

theorem symbolKey_eq (proper : IsProper name) : symbolKey name = utf8 name := by
  rw [symbolKey, take_of_length_le proper.short, takeWhile_ne_zero proper.noZero]

theorem ne_empty (proper : IsProper name) : name ≠ "" := by
  rintro rfl
  exact proper.nonempty rfl

/-- Looking up a proper name finds its symbol. -/
theorem hashtabFind_eq (proper : IsProper name) (db : TypeDb) :
    hashtabFind db.types name = db.declared name := by
  rw [hashtabFind, TypeDb.declared, proper.symbolKey_eq, proper.cString_eq]

end IsProper

theorem mem_of_hashtabFind {α : Type} {table : Symtab α} {name : String} {datum : α}
    (found : hashtabFind table name = some datum) : (symbolKey name, datum) ∈ table := by
  rcases lookup_eq_some_iff.mp found with ⟨before, after, rfl, _⟩
  exact mem_append_right before mem_cons_self

namespace TypeDb

variable {db after : TypeDb}

/-! ## Setting bits -/

/-- The state is sound. -/
structure Sound (db : TypeDb) : Prop where
  formed : db.Formed
  agree : db.Agree
  reflexive : db.Reflexive

theorem index_eq {datum : TypeDatum} (positive : 0 < datum.value) :
    datum.index + 1 = datum.value.toNat := by
  have one : (1 : UInt32) ≤ datum.value := by
    exact UInt32.lt_iff_toNat_lt.mp positive
  have large : 0 < datum.value.toNat := UInt32.lt_iff_toNat_lt.mp positive
  rw [TypeDatum.index, UInt32.toNat_sub_of_le _ _ one]
  change datum.value.toNat - 1 + 1 = _
  omega

theorem Formed.index_lt (formed : db.Formed) {entry : List UInt8 × TypeDatum}
    (mem : entry ∈ db.types) : entry.2.index < db.nprim.toNat := by
  have values := formed.values entry mem
  have isIndex := index_eq values.1
  have bound := UInt32.le_iff_toNat_le.mp values.2
  omega

/-- One table of a policy has got the pairs `links` in addition, the other one the
same pairs the other way round. -/
structure Joined (before after : TypeDb) (links : Nat → Nat → Prop) : Prop where
  types : after.types = before.types
  nprim : after.nprim = before.nprim
  typeRows : after.typeAttrMap.length = before.typeAttrMap.length
  attrRows : after.attrTypeMap.length = before.attrTypeMap.length
  typeAttr : ∀ i j, Has after.typeAttrMap i j ↔ Has before.typeAttrMap i j ∨ links i j
  attrType : ∀ i j, Has after.attrTypeMap j i ↔ Has before.attrTypeMap j i ∨ links i j

namespace Joined

variable {before : TypeDb} {links : Nat → Nat → Prop}

theorem refl (db : TypeDb) : Joined db db fun _ _ => False :=
  ⟨rfl, rfl, rfl, rfl, fun _ _ => by rw [or_false], fun _ _ => by rw [or_false]⟩

theorem trans {last : TypeDb} {more : Nat → Nat → Prop} (first : Joined before after links)
    (second : Joined after last more) : Joined before last fun i j => links i j ∨ more i j where
  types := second.types.trans first.types
  nprim := second.nprim.trans first.nprim
  typeRows := second.typeRows.trans first.typeRows
  attrRows := second.attrRows.trans first.attrRows
  typeAttr := fun i j => by rw [second.typeAttr, first.typeAttr, or_assoc]
  attrType := fun i j => by rw [second.attrType, first.attrType, or_assoc]

theorem congr (joined : Joined before after links) (same : ∀ i j, links i j ↔ others i j) :
    Joined before after others := by
  have equal : links = others := by
    funext i j
    exact propext (same i j)
  rwa [equal] at joined

/-- Pairs of symbols keep a policy sound. -/
theorem sound (joined : Joined before after links) (sound : before.Sound)
    (inside : ∀ i j, links i j → i < before.nprim.toNat ∧ j < before.nprim.toNat) :
    after.Sound := by
  rcases sound with ⟨formed, agree, reflexive⟩
  constructor
  · constructor
    · rw [joined.typeRows, joined.nprim, formed.typeRows]
    · rw [joined.attrRows, joined.nprim, formed.attrRows]
    · rw [joined.types, joined.nprim]
      exact formed.values
    · intro i j has
      rw [joined.nprim]
      rcases (joined.typeAttr i j).mp has with old | linked
      · exact formed.typeBits old
      · exact (inside i j linked).2
    · intro i j has
      rw [joined.nprim]
      rcases (joined.attrType j i).mp has with old | linked
      · exact formed.attrBits old
      · exact (inside j i linked).1
    · rw [joined.types]
      exact formed.named
  · intro type typeMem isType attr attrMem isAttr different
    rw [joined.types] at typeMem attrMem
    rw [joined.typeAttr, joined.attrType, agree type typeMem isType attr attrMem isAttr different]
  · intro entry mem
    rw [joined.types] at mem
    rw [joined.typeAttr]
    exact Or.inl (reflexive entry mem)

end Joined

theorem joined_join (formed : db.Formed) {type attr : List UInt8 × TypeDatum}
    (typeMem : type ∈ db.types) (attrMem : attr ∈ db.types) :
    Joined db (db.join type.2 attr.2) fun i j => i = type.2.index ∧ j = attr.2.index where
  types := rfl
  nprim := rfl
  typeRows := length_setBit _ _ _
  attrRows := length_setBit _ _ _
  typeAttr := fun i j => has_setBit (formed.typeRows ▸ formed.index_lt typeMem) _ i j
  attrType := fun i j =>
    (has_setBit (formed.attrRows ▸ formed.index_lt attrMem) _ j i).trans (by rw [and_comm])

/-- The names of a pair are found as a type and an attribute. -/
def Finds (db : TypeDb) (pair : String × String) (type attr : TypeDatum) : Prop :=
  hashtabFind db.types pair.1 = some type ∧ type.flavor ≠ .attrib ∧
    hashtabFind db.types pair.2 = some attr ∧ attr.flavor = .attrib

/-- The pairs of indices that pairs of names are found with. -/
def Links (db : TypeDb) (pairs : List (String × String)) (i j : Nat) : Prop :=
  ∃ pair ∈ pairs, ∃ type attr, db.Finds pair type attr ∧ i = type.index ∧ j = attr.index

theorem joined_addTypeattribute (formed : db.Formed) (pair : String × String) :
    Joined db (db.addTypeattribute pair.1 pair.2).2 (db.Links [pair]) := by
  have failed (none : ∀ type attr, ¬ db.Finds pair type attr) : Joined db db (db.Links [pair]) := by
    apply (Joined.refl db).congr
    intro i j
    rw [iff_comm, iff_false]
    rintro ⟨other, mem, type, attr, finds, _⟩
    rw [mem_singleton.mp mem] at finds
    exact none type attr finds
  rw [addTypeattribute]
  split
  · rename_i noType
    apply failed
    rintro type attr ⟨found, _⟩
    cases noType.symm.trans found
  · rename_i type isType
    split
    · rename_i isAttrib
      apply failed
      rintro other attr ⟨found, notAttrib, _⟩
      cases isType.symm.trans found
      exact notAttrib isAttrib
    · rename_i notAttrib
      split
      · rename_i noAttr
        apply failed
        rintro other attr ⟨_, _, found, _⟩
        cases noAttr.symm.trans found
      · rename_i attr isAttr
        split
        · rename_i isType
          apply failed
          rintro other attr' ⟨_, _, found, isAttrib⟩
          cases isAttr.symm.trans found
          exact isType isAttrib
        · rename_i isAttrib
          apply (joined_join formed (mem_of_hashtabFind isType) (mem_of_hashtabFind isAttr)).congr
          intro i j
          constructor
          · rintro ⟨isRow, isBit⟩
            exact ⟨pair, mem_singleton_self pair, type, attr,
              ⟨isType, notAttrib, isAttr, not_not.mp isAttrib⟩, isRow, isBit⟩
          · rintro ⟨other, mem, type', attr', ⟨found, _, found', _⟩, isRow, isBit⟩
            cases mem_singleton.mp mem
            cases isType.symm.trans found
            cases isAttr.symm.trans found'
            exact ⟨isRow, isBit⟩

theorem Links.inside (formed : db.Formed) {pairs : List (String × String)} {i j : Nat}
    (linked : db.Links pairs i j) : i < db.nprim.toNat ∧ j < db.nprim.toNat := by
  rcases linked with ⟨pair, _, type, attr, ⟨isType, _, isAttr, _⟩, rfl, rfl⟩
  exact ⟨formed.index_lt (mem_of_hashtabFind isType), formed.index_lt (mem_of_hashtabFind isAttr)⟩

/-- Enter pairs of names one after the other. -/
def joinNamed (db : TypeDb) (pairs : List (String × String)) : TypeDb :=
  pairs.foldl (fun db pair => (db.addTypeattribute pair.1 pair.2).2) db

theorem links_congr {pairs : List (String × String)} (same : after.types = db.types) (i j : Nat) :
    after.Links pairs i j ↔ db.Links pairs i j := by
  rw [Links, Links]
  unfold Finds
  rw [same]

/-- Pairs of names set the bits of all that are found. -/
theorem joined_joinNamed (sound : db.Sound) (pairs : List (String × String)) :
    Joined db (db.joinNamed pairs) (db.Links pairs) := by
  induction pairs generalizing db with
  | nil =>
    apply (Joined.refl db).congr
    intro i j
    rw [iff_comm, iff_false]
    rintro ⟨pair, mem, _⟩
    cases mem
  | cons pair pairs ih =>
    have first := joined_addTypeattribute sound.formed pair
    have others := ih (first.sound sound fun _ _ linked => linked.inside sound.formed)
    apply (first.trans others).congr
    intro i j
    rw [links_congr first.types]
    constructor
    · rintro (⟨other, mem, found⟩ | ⟨other, mem, found⟩)
      · exact ⟨other, mem_cons.mpr (Or.inl (mem_singleton.mp mem)), found⟩
      · exact ⟨other, mem_cons_of_mem pair mem, found⟩
    · rintro ⟨other, mem, found⟩
      rcases mem_cons.mp mem with rfl | mem
      · exact Or.inl ⟨other, mem_singleton_self other, found⟩
      · exact Or.inr ⟨other, mem, found⟩

/-! ## New symbols -/

section Declare

variable (room : db.nprim.toNat + 1 < 2 ^ 32) (key : List UInt8) (flavor : Flavor)

include room in
theorem toNat_nprim_declare : (db.declare key flavor).nprim.toNat = db.nprim.toNat + 1 := by
  change (db.nprim + 1).toNat = _
  rw [UInt32.toNat_add]
  exact Nat.mod_eq_of_lt room

theorem index_new : (db.nprim + 1 - 1).toNat = db.nprim.toNat := by
  rw [UInt32.add_sub_cancel]

theorem has_typeAttr_declare (formed : db.Formed) (i j : Nat) :
    Has (db.declare key flavor).typeAttrMap i j ↔
      Has db.typeAttrMap i j ∨ i = db.nprim.toNat ∧ j = db.nprim.toNat := by
  change Has (db.typeAttrMap ++ [{(db.nprim + 1 - 1).toNat}]) i j ↔ _
  rw [has_append, formed.typeRows, Finset.mem_singleton, index_new]

theorem has_attrType_declare (i j : Nat) :
    Has (db.declare key flavor).attrTypeMap i j ↔ Has db.attrTypeMap i j := by
  change Has (db.attrTypeMap ++ [∅]) i j ↔ _
  rw [has_append]
  simp only [Finset.notMem_empty, and_false, or_false]

include room in
/-- A new symbol keeps a policy sound. -/
theorem sound_declare (sound : db.Sound) (nonempty : key ≠ []) : (db.declare key flavor).Sound := by
  rcases sound with ⟨formed, agree, reflexive⟩
  have count := toNat_nprim_declare room key flavor
  have entries : ∀ entry ∈ (db.declare key flavor).types,
      entry = (key, ⟨db.nprim + 1, flavor⟩) ∨ entry ∈ db.types :=
    fun entry mem => mem_cons.mp mem
  have newIndex : TypeDatum.index ⟨db.nprim + 1, flavor⟩ = db.nprim.toNat := index_new
  constructor
  · constructor
    · rw [count, ← formed.typeRows]
      exact length_append
    · rw [count, ← formed.attrRows]
      exact length_append
    · intro entry mem
      rw [UInt32.lt_iff_toNat_lt, UInt32.le_iff_toNat_le, count]
      rcases entries entry mem with rfl | old
      · have value : (db.nprim + 1).toNat = db.nprim.toNat + 1 := count
        rw [value]
        exact ⟨Nat.succ_pos _, le_rfl⟩
      · have values := formed.values entry old
        exact ⟨UInt32.lt_iff_toNat_lt.mp values.1,
          (UInt32.le_iff_toNat_le.mp values.2).trans (Nat.le_succ _)⟩
    · intro i j has
      rw [count]
      rcases (has_typeAttr_declare key flavor formed i j).mp has with old | ⟨_, rfl⟩
      · exact Nat.lt_succ_of_lt (formed.typeBits old)
      · exact Nat.lt_succ_self _
    · intro i j has
      rw [count]
      exact Nat.lt_succ_of_lt (formed.attrBits ((has_attrType_declare key flavor i j).mp has))
    · intro entry mem
      rcases entries entry mem with rfl | old
      · exact nonempty
      · exact formed.named entry old
  · intro type typeMem isType attr attrMem isAttr different
    rw [has_typeAttr_declare key flavor formed, has_attrType_declare key flavor]
    rcases entries type typeMem with rfl | oldType
    · rcases entries attr attrMem with rfl | oldAttr
      · exact absurd rfl different
      · have attrIndex := formed.index_lt oldAttr
        rw [newIndex]
        apply iff_of_false
        · rintro (old | ⟨_, same⟩)
          · exact absurd (formed.typeRows ▸ old.lt_length) (Nat.lt_irrefl _)
          · omega
        · intro old
          exact absurd (formed.attrBits old) (Nat.lt_irrefl _)
    · have typeIndex := formed.index_lt oldType
      rw [or_iff_left (by omega)]
      rcases entries attr attrMem with rfl | oldAttr
      · rw [newIndex]
        apply iff_of_false
        · intro old
          exact absurd (formed.typeBits old) (Nat.lt_irrefl _)
        · intro old
          exact absurd (formed.attrRows ▸ old.lt_length) (Nat.lt_irrefl _)
      · exact agree type oldType isType attr oldAttr isAttr different
  · intro entry mem
    rw [has_typeAttr_declare key flavor formed]
    rcases entries entry mem with rfl | old
    · exact Or.inr ⟨newIndex, newIndex⟩
    · exact Or.inl (reflexive entry old)

end Declare

/-! ## Statements -/

variable {name : String}

/-- Adding a proper name makes sure that it has a symbol. -/
theorem addType_eq (proper : IsProper name) (db : TypeDb) (flavor : Flavor) :
    db.addType name flavor =
      (true, if (db.declared name).isSome then db else db.declare (cString name) flavor) := by
  rw [addType, proper.hashtabFind_eq]
  cases known : db.declared name with
  | some datum => rfl
  | none =>
    have unknown : db.types.lookup (cString name) = none := known
    rw [unknown]
    rfl

theorem declared_addType (proper : IsProper name) (db : TypeDb) (flavor : Flavor) :
    ((db.addType name flavor).2.declared name).isSome = true := by
  rw [addType_eq proper]
  split
  · assumption
  · change (lookup (cString name) ((cString name, _) :: db.types)).isSome = true
    rw [lookup_cons_self]
    rfl

theorem types_addTypeattribute (db : TypeDb) (type attr : String) :
    (db.addTypeattribute type attr).2.types = db.types := by
  rw [addTypeattribute]
  split
  · rfl
  · split
    · rfl
    · split
      · rfl
      · split <;> rfl

/-- A type is declared once, and then gets its attributes. -/
theorem type_eq (proper : IsProper name) (db : TypeDb) (attrs : List String) : db.type name attrs =
      (db.addType name .type).2.joinNamed ((expand attrs).map fun attr => (name, attr)) := by
  have once : ∀ {db : TypeDb}, (db.declared name).isSome = true → ∀ attrs : List String,
      attrs.foldl (fun db attr => match db.addType name .type with
        | (true, db) => (db.addTypeattribute name attr).2
        | (false, db) => db) db = db.joinNamed (attrs.map fun attr => (name, attr)) := by
    intro db known attrs
    induction attrs generalizing db with
    | nil => rfl
    | cons attr attrs ih =>
      rw [foldl_cons, addType_eq proper, if_pos known]
      apply ih
      rw [declared, types_addTypeattribute]
      exact known
  have nonempty : ∃ attr rest, expand attrs = attr :: rest := by
    cases attrs with
    | nil => exact ⟨"", [], rfl⟩
    | cons attr rest => exact ⟨attr, rest, rfl⟩
  rcases nonempty with ⟨attr, rest, isExpanded⟩
  have known := declared_addType proper db .type
  have first := once known (expand attrs)
  rw [addType_eq proper] at known first ⊢
  rw [type, ← first, isExpanded, foldl_cons, foldl_cons, addType_eq proper,
    addType_eq proper _ .type, if_pos known]

theorem typeattribute_eq (db : TypeDb) (types attrs : List String) :
    db.typeattribute types attrs = db.joinNamed
      ((expand types).flatMap fun type => (expand attrs).map fun attr => (type, attr)) := by
  rw [typeattribute, joinNamed, foldl_flatMap]
  congr 1
  funext db type
  rw [foldl_map]

/-- The empty name is not found. -/
theorem Formed.hashtabFind_empty (formed : db.Formed) : hashtabFind db.types "" = none := by
  rw [hashtabFind, lookup_eq_none_iff]
  intro entry mem
  rw [bne_iff_ne]
  exact fun same => formed.named entry mem same.symm

theorem mem_expand_of_ne {names : List String} (nonempty : name ≠ "") :
    name ∈ expand names ↔ name ∈ names := by
  cases names with
  | nil => simpa [expand] using nonempty
  | cons first rest => rfl

end TypeDb

namespace Declaration

variable {db : TypeDb} {declaration : Declaration}

open TypeDb (Joined Sound)

variable {pair : String × String}

/-- The pairs of names that are looked up: an empty list stands for the empty
name. -/
def lookups : Declaration → List (String × String)
  | .type name attrs => (expand attrs).map fun attr => (name, attr)
  | .newAttr _ => []
  | .typeattribute types attrs =>
    (expand types).flatMap fun type => (expand attrs).map fun attr => (type, attr)

theorem mem_lookups_iff (first : pair.1 ≠ "") (second : pair.2 ≠ "") :
    pair ∈ declaration.lookups ↔ pair ∈ declaration.pairs := by
  rcases pair with ⟨type, attr⟩
  cases declaration with
  | type name attrs => simp [lookups, pairs, TypeDb.mem_expand_of_ne second]
  | newAttr name => rfl
  | typeattribute types attrs =>
    simp [lookups, pairs, TypeDb.mem_expand_of_ne first, TypeDb.mem_expand_of_ne second]

theorem mem_names_of_mem_pairs (mem : pair ∈ declaration.pairs) :
    pair.1 ∈ declaration.names ∧ pair.2 ∈ declaration.names := by
  cases declaration with
  | type name attrs =>
    rcases mem_map.mp mem with ⟨attr, attrMem, rfl⟩
    exact ⟨mem_cons_self, mem_cons_of_mem name attrMem⟩
  | newAttr name => cases mem
  | typeattribute types attrs =>
    rcases mem_flatMap.mp mem with ⟨type, typeMem, inner⟩
    rcases mem_map.mp inner with ⟨attr, attrMem, rfl⟩
    exact ⟨mem_append_left attrs typeMem, mem_append_right types attrMem⟩

/-- What is found are the named pairs that exist. -/
theorem links_iff_joins (formed : db.Formed) (proper : ∀ name ∈ declaration.names, IsProper name)
    (i j : Nat) : db.Links declaration.lookups i j ↔ declaration.Joins db i j := by
  constructor
  · rintro ⟨pair, mem, type, attr, ⟨isType, notAttrib, isAttr, isAttrib⟩, isRow, isBit⟩
    have first : pair.1 ≠ "" := by
      intro empty
      rw [empty, formed.hashtabFind_empty] at isType
      cases isType
    have second : pair.2 ≠ "" := by
      intro empty
      rw [empty, formed.hashtabFind_empty] at isAttr
      cases isAttr
    have named := (mem_lookups_iff first second).mp mem
    have names := mem_names_of_mem_pairs named
    rw [(proper _ names.1).hashtabFind_eq] at isType
    rw [(proper _ names.2).hashtabFind_eq] at isAttr
    exact ⟨pair, named, type, attr, isType, notAttrib, isAttr, isAttrib, isRow, isBit⟩
  · rintro ⟨pair, mem, type, attr, isType, notAttrib, isAttr, isAttrib, isRow, isBit⟩
    have names := mem_names_of_mem_pairs mem
    have first := proper _ names.1
    have second := proper _ names.2
    rw [← first.hashtabFind_eq] at isType
    rw [← second.hashtabFind_eq] at isAttr
    exact ⟨pair, (mem_lookups_iff first.ne_empty second.ne_empty).mpr mem, type, attr,
      ⟨isType, notAttrib, isAttr, isAttrib⟩, isRow, isBit⟩

/-- A statement makes at most one new symbol, and then enters its pairs. -/
theorem exec_cases (proper : ∀ name ∈ declaration.names, IsProper name) : ∃ middle : TypeDb,
      (middle = db ∨ ∃ key flavor, key ≠ [] ∧ middle = db.declare key flavor) ∧
      declaration.exec db = middle.joinNamed declaration.lookups := by
  have added : ∀ {name : String}, IsProper name → ∀ flavor : Flavor,
      (db.addType name flavor).2 = db ∨
        ∃ key flavor', key ≠ [] ∧ (db.addType name flavor).2 = db.declare key flavor' := by
    intro name isProper flavor
    rw [TypeDb.addType_eq isProper]
    split
    · exact Or.inl rfl
    · exact Or.inr ⟨cString name, flavor, isProper.cString_eq ▸ isProper.nonempty, rfl⟩
  cases declaration with
  | type name attrs =>
    have isProper := proper name mem_cons_self
    exact ⟨_, added isProper .type, TypeDb.type_eq isProper db attrs⟩
  | newAttr name => exact ⟨_, added (proper name mem_cons_self) .attrib, rfl⟩
  | typeattribute types attrs => exact ⟨db, Or.inl rfl, TypeDb.typeattribute_eq db types attrs⟩

theorem joins_congr {other : TypeDb} (same : other.types = db.types) (i j : Nat) :
    declaration.Joins other i j ↔ declaration.Joins db i j := by
  unfold Joins TypeDb.declared
  rw [same]

/-- What a run of statements does: the tables have got a row for every new symbol,
with the symbol itself, and the pairs `links`. -/
structure Extends (before after : TypeDb) (links : Nat → Nat → Prop) : Prop where
  sound : after.Sound
  nprim : before.nprim.toNat ≤ after.nprim.toNat
  typeAttr : ∀ i j, Has after.typeAttrMap i j ↔
    Has before.typeAttrMap i j ∨ (i = j ∧ before.nprim.toNat ≤ i ∧ i < after.nprim.toNat) ∨
      links i j
  attrType : ∀ i j, Has after.attrTypeMap j i ↔ Has before.attrTypeMap j i ∨ links i j

namespace Extends

variable {before middle after : TypeDb} {links more : Nat → Nat → Prop}

theorem refl (sound : db.Sound) : Extends db db fun _ _ => False where
  sound := sound
  nprim := le_rfl
  typeAttr := fun i j => by
    have nothing : ¬ (i = j ∧ db.nprim.toNat ≤ i ∧ i < db.nprim.toNat) := by omega
    rw [or_false, or_iff_left nothing]
  attrType := fun i j => by rw [or_false]

theorem trans (first : Extends before middle links) (second : Extends middle after more) :
    Extends before after fun i j => links i j ∨ more i j where
  sound := second.sound
  nprim := first.nprim.trans second.nprim
  typeAttr := fun i j => by
    have start := first.nprim
    have finish := second.nprim
    have rows : (i = j ∧ before.nprim.toNat ≤ i ∧ i < after.nprim.toNat) ↔
        (i = j ∧ before.nprim.toNat ≤ i ∧ i < middle.nprim.toNat) ∨
          (i = j ∧ middle.nprim.toNat ≤ i ∧ i < after.nprim.toNat) := by
      omega
    rw [second.typeAttr, first.typeAttr, rows, or_assoc, or_or_or_comm]
  attrType := fun i j => by rw [second.attrType, first.attrType, or_assoc]

theorem congr (grown : Extends before after links) (same : ∀ i j, links i j ↔ others i j) :
    Extends before after others := by
  have equal : links = others := by
    funext i j
    exact propext (same i j)
  rwa [equal] at grown

end Extends

theorem extends_exec (sound : db.Sound) (room : db.nprim.toNat + 1 < 2 ^ 32)
    (proper : ∀ name ∈ declaration.names, IsProper name) :
    Extends db (declaration.exec db) (declaration.Joins (declaration.exec db)) ∧
      (declaration.exec db).nprim.toNat ≤ db.nprim.toNat + 1 := by
  rcases exec_cases proper with ⟨middle, isMiddle, executed⟩
  have soundMiddle : middle.Sound := by
    rcases isMiddle with rfl | ⟨key, flavor, nonempty, rfl⟩
    · exact sound
    · exact TypeDb.sound_declare room key flavor sound nonempty
  have joined := TypeDb.joined_joinNamed soundMiddle declaration.lookups
  rw [← executed] at joined
  have soundAfter := joined.sound soundMiddle fun _ _ linked => linked.inside soundMiddle.formed
  have pairs : Joined middle (declaration.exec db) (declaration.Joins (declaration.exec db)) := by
    apply joined.congr
    intro i j
    rw [joins_congr joined.types, links_iff_joins soundMiddle.formed proper]
  rcases isMiddle with rfl | ⟨key, flavor, nonempty, rfl⟩
  · refine ⟨⟨soundAfter, by rw [pairs.nprim], ?_, pairs.attrType⟩, by rw [pairs.nprim]; omega⟩
    intro i j
    rw [pairs.typeAttr, pairs.nprim]
    have nothing : ¬ (i = j ∧ middle.nprim.toNat ≤ i ∧ i < middle.nprim.toNat) := by omega
    rw [or_iff_right nothing]
  · have count := TypeDb.toNat_nprim_declare room key flavor
    rw [← pairs.nprim] at count
    refine ⟨⟨soundAfter, by omega, ?_, ?_⟩, by omega⟩
    · intro i j
      rw [pairs.typeAttr, TypeDb.has_typeAttr_declare key flavor sound.formed, or_assoc]
      apply or_congr_right
      apply or_congr_left
      omega
    · intro i j
      rw [pairs.attrType, TypeDb.has_attrType_declare]

/-- Execute statements one after the other. -/
def run (db : TypeDb) (declarations : List Declaration) : TypeDb :=
  declarations.foldl exec db

/-- Some statement of a run names a type and an attribute that exist when it is
executed, with these indices. -/
def JoinsIn (db : TypeDb) (declarations : List Declaration) (i j : Nat) : Prop :=
  ∃ before declaration later, declarations = before ++ declaration :: later ∧
    declaration.Joins (run db (before ++ [declaration])) i j

theorem run_append (db : TypeDb) (declarations : List Declaration) (declaration : Declaration) :
    run db (declarations ++ [declaration]) = declaration.exec (run db declarations) :=
  foldl_append

theorem joinsIn_append (db : TypeDb) (declarations : List Declaration) (declaration : Declaration)
    (i j : Nat) :
    JoinsIn db (declarations ++ [declaration]) i j ↔ JoinsIn db declarations i j ∨
        declaration.Joins (run db (declarations ++ [declaration])) i j := by
  constructor
  · rintro ⟨before, other, later, split, joins⟩
    induction later using reverseRecOn with
    | nil =>
      rcases append_inj' split rfl with ⟨rfl, same⟩
      cases same
      exact Or.inr joins
    | append_singleton later last _ =>
      rw [← cons_append, ← append_assoc] at split
      rcases append_inj' split rfl with ⟨rfl, _⟩
      exact Or.inl ⟨before, other, later, rfl, joins⟩
  · rintro (⟨before, other, later, rfl, joins⟩ | joins)
    · refine ⟨before, other, later ++ [declaration], ?_, joins⟩
      rw [append_assoc, cons_append]
    · exact ⟨declarations, declaration, [], rfl, joins⟩

/-- A run of statements keeps the tables in agreement and every symbol among its own
attributes, and the tables grow exactly by the new symbols and by the pairs that
its statements name. -/
theorem extends_run (db : TypeDb) (formed : db.Formed) (agree : db.Agree)
    (reflexive : db.Reflexive) (declarations : List Declaration)
    (room : db.nprim.toNat + declarations.length < 2 ^ 32)
    (proper : ∀ declaration ∈ declarations, ∀ name ∈ declaration.names, IsProper name) :
    Extends db (run db declarations) (JoinsIn db declarations) ∧
      (run db declarations).nprim.toNat ≤ db.nprim.toNat + declarations.length := by
  induction declarations using reverseRecOn with
  | nil =>
    refine ⟨(Extends.refl ⟨formed, agree, reflexive⟩).congr fun i j => ?_, le_rfl⟩
    apply iff_of_false id
    rintro ⟨before, declaration, later, split, _⟩
    cases append_ne_nil_of_right_ne_nil before (cons_ne_nil _ _) split.symm
  | append_singleton declarations declaration ih =>
    rw [length_append, length_singleton] at room
    obtain ⟨earlier, count⟩ := ih (by omega) fun other mem =>
      proper other (mem_append_left _ mem)
    obtain ⟨step, grown⟩ := extends_exec earlier.sound (by omega)
      (proper declaration (mem_append_right _ mem_cons_self))
    rw [← run_append] at step grown
    constructor
    · exact (earlier.trans step).congr fun i j => (joinsIn_append db declarations _ i j).symm
    · rw [length_append, length_singleton]
      omega

/-- A policy with one attribute. -/
def oneAttribute : TypeDb :=
  { policyvers := 30, types := [(utf8 "attr", ⟨1, .attrib⟩)], classes := [], teAvtab := ⟨[], 0⟩
    nprim := 1, typeAttrMap := [{0}], attrTypeMap := [∅] }

theorem sound_oneAttribute : oneAttribute.Sound where
  formed :=
    { typeRows := rfl
      attrRows := rfl
      values := by decide
      typeBits := by
        intro i j has
        have first : i = 0 := Nat.lt_one_iff.mp has.lt_length
        subst first
        exact Nat.lt_one_iff.mpr (Finset.mem_singleton.mp has)
      attrBits := by
        intro i j has
        have first : i = 0 := Nat.lt_one_iff.mp has.lt_length
        subst first
        exact absurd has (Finset.notMem_empty j)
      named := by decide }
  agree := by
    intro type mem isType
    rw [mem_singleton.mp mem] at isType
    exact absurd rfl isType
  reflexive := by
    intro entry mem
    rw [mem_singleton.mp mem]
    decide

/-- A new type gets the attribute, and a second statement repeats it. -/
theorem extends_run_oneAttribute : Extends oneAttribute
      (run oneAttribute [.type "t" ["attr"], .typeattribute ["t", "u"] ["attr"]])
      (JoinsIn oneAttribute [.type "t" ["attr"], .typeattribute ["t", "u"] ["attr"]]) := by
  have proper : ∀ name ∈ ["t", "u", "attr"], utf8 name ≠ [] ∧ 0 ∉ utf8 name ∧
      (utf8 name).length ≤ 255 := by
    decide +kernel
  have names : ∀ declaration ∈ ([.type "t" ["attr"], .typeattribute ["t", "u"] ["attr"]] :
      List Declaration), ∀ name ∈ declaration.names, name ∈ ["t", "u", "attr"] := by
    decide
  refine (extends_run oneAttribute sound_oneAttribute.formed sound_oneAttribute.agree
    sound_oneAttribute.reflexive _ (by decide) fun declaration mem name named => ?_).1
  obtain ⟨nonempty, noZero, short⟩ := proper name (names declaration mem name named)
  exact ⟨nonempty, noZero, short⟩

/-- A type whose name does not fit the buffer is declared, but does not get its
attribute. -/
theorem not_extends_longName : oneAttribute.Sound ∧
      ∃ name i j, (Declaration.type name ["attr"]).Joins
          ((Declaration.type name ["attr"]).exec oneAttribute) i j ∧
        ¬ Has ((Declaration.type name ["attr"]).exec oneAttribute).typeAttrMap i j := by
  refine ⟨sound_oneAttribute, String.ofList (replicate 256 'a'), 1, 0, ?_, ?_⟩
  · refine ⟨_, mem_cons_self, ⟨2, .type⟩, ⟨1, .attrib⟩, ?_, by decide, ?_, rfl, rfl, rfl⟩
    · decide +kernel
    · decide +kernel
  · decide +kernel

end Declaration

end Magisk.SePolicy
