import Magisk.Bytes.Core
import Magisk.Search.Core

/-!
# Persistent properties

`persist_get_prop`, `persist_set_prop` and `persist_delete_prop` work on one file of
records or, if that does not exist, on one file for each property.  The records are
sorted whenever they are read, a name is searched for by halving, and a changed list
is written to a new file that replaces the old one.  Seen from outside, both kinds of
storage are a finite map.
-/

namespace Magisk.Core.Resetprop

open Option Function List Bytes Search

variable {name : String}

/-! ## The source -/

/-- `PersistentPropertyRecord`. -/
structure Record where
  name : Option String
  value : Option String
  deriving DecidableEq, Repr

/-- The order of optional names. -/
def compareName : Option String → Option String → Ordering
  | none, none => .eq
  | none, some _ => .lt
  | some _, none => .gt
  | some a, some b => compare a b

/-- How records are written to a file and read back. -/
structure Protobuf where
  encode : List Record → List UInt8
  decode : List UInt8 → Option (List Record)
  decode_encode : ∀ records, decode (encode records) = some records

/-- `sort_unstable_by` on the names: records of one name may come in any order. -/
structure NameSort where
  sort : List Record → List Record
  perm : ∀ records, (sort records).Perm records
  sorted : ∀ records, (sort records).Pairwise fun a b => compareName a.name b.name ≠ .gt

/-- What the system does with the files of one call: whether they can be opened, and
whether they can be written, replaced or removed. -/
structure Io where
  reads : Bool
  writes : Bool
  deriving DecidableEq, Repr

/-- The files under `/data/property`: that of all records, and those of single
properties. -/
structure Storage where
  proto : Option (List UInt8)
  files : String → Option (List UInt8)

/-- `find_index`. -/
def findIndex (props : List Record) (name : String) : Except Nat Nat :=
  binarySearchBy (fun prop => compareName prop.name (some name)) props

/-- `find`. -/
def find (props : List Record) (name : String) : Option Record :=
  match findIndex props name with
  | .ok index => props[index]?
  | .error _ => none

/-- `file_get_prop`. -/
def fileGetProp (io : Io) (storage : Storage) (name : String) : Option String :=
  if io.reads then (storage.files name).bind fromUtf8 else none

/-- `file_set_prop`. -/
def fileSetProp (io : Io) (storage : Storage) (name : String) (value : Option String) :
    Option Storage :=
  match value with
  | some value =>
    if io.writes then
      some { storage with files := Function.update storage.files name (some (utf8 value)) }
    else none
  | none =>
    if io.writes ∧ (storage.files name).isSome then
      some { storage with files := Function.update storage.files name none }
    else none

section Source

variable (protobuf : Protobuf) (nameSort : NameSort) (io : Io)

/-- `proto_read_props`.  A file without bytes cannot be mapped. -/
def protoReadProps (file : List UInt8) : Option (List Record) :=
  if io.reads ∧ file ≠ [] then (protobuf.decode file).map nameSort.sort else none

/-- `proto_write_props`. -/
def protoWriteProps (storage : Storage) (props : List Record) : Option Storage :=
  if io.writes then some { storage with proto := some (protobuf.encode props) } else none

/-- `persist_get_prop`. -/
def persistGetProp (storage : Storage) (key : String) : Option String :=
  match storage.proto with
  | some file => do
      let props ← protoReadProps protobuf nameSort io file
      match ← find props key with
      | ⟨some _, some value⟩ => some value
      | _ => none
  | none => fileGetProp io storage key

/-- `persist_delete_prop`. -/
def persistDeleteProp (storage : Storage) (key : String) : Option Storage :=
  match storage.proto with
  | some file => do
      let props ← protoReadProps protobuf nameSort io file
      match findIndex props key with
      | .ok index => protoWriteProps protobuf io storage (props.eraseIdx index)
      | .error _ => none
  | none => fileSetProp io storage key none

/-- `persist_set_prop`. -/
def persistSetProp (storage : Storage) (key val : String) : Option Storage :=
  match storage.proto with
  | some file => do
      let props ← protoReadProps protobuf nameSort io file
      match findIndex props key with
      | .ok index =>
        protoWriteProps protobuf io storage
          (props.modify index fun prop => { prop with value := some val })
      | .error index =>
        protoWriteProps protobuf io storage (props.insertIdx index ⟨some key, some val⟩)
  | none => fileSetProp io storage key (some val)

end Source

/-! ## Calls -/

/-- A call. -/
inductive Call where
  | get (key : String)
  | set (key val : String)
  | delete (key : String)
  deriving DecidableEq, Repr

/-- The result of a call. -/
inductive Reply where
  | failed
  | done
  | value (val : String)
  deriving DecidableEq, Repr

namespace Call

/-- The property of a call. -/
def key : Call → String
  | .get key => key
  | .set key _ => key
  | .delete key => key

/-- Execute a call; one that fails leaves the storage as it was. -/
def exec (protobuf : Protobuf) (nameSort : NameSort) (storage : Storage) (io : Io) :
    Call → Reply × Storage
  | .get key =>
    match persistGetProp protobuf nameSort io storage key with
    | some val => (.value val, storage)
    | none => (.failed, storage)
  | .set key val =>
    match persistSetProp protobuf nameSort io storage key val with
    | some after => (.done, after)
    | none => (.failed, storage)
  | .delete key =>
    match persistDeleteProp protobuf nameSort io storage key with
    | some after => (.done, after)
    | none => (.failed, storage)

/-- Execute calls one after the other, and collect the replies. -/
def run (protobuf : Protobuf) (nameSort : NameSort) (storage : Storage) :
    List (Call × Io) → List (Call × Reply) × Storage
  | [] => ([], storage)
  | (call, io) :: calls =>
    let (reply, after) := call.exec protobuf nameSort storage io
    let (replies, last) := run protobuf nameSort after calls
    ((call, reply) :: replies, last)

end Call

/-! ## The map -/

/-- What is stored under each name: nothing, or a value, or a record that has
none. -/
abbrev Props := String → Option (Option String)

/-- No two records have the same name. -/
def Distinct (records : List Record) : Prop :=
  (records.filterMap Record.name).Nodup

/-- The map of a list of records. -/
def view (records : List Record) : Props := fun name =>
  (records.find? fun record => record.name = some name).map Record.value

/-- A storage holds a map. -/
def Holds (protobuf : Protobuf) (storage : Storage) (props : Props) : Prop :=
  match storage.proto with
  | some file => ∃ records, protobuf.decode file = some records ∧ Distinct records ∧
      view records = props
  | none => ∀ name, props name = (storage.files name).map fromUtf8

/-- What a call changes about a name. -/
def Call.effect (call : Call) (reply : Reply) (name : String) : Option (Option (Option String)) :=
  match call, reply with
  | .set key val, .done => if key = name then some (some (some val)) else none
  | .delete key, .done => if key = name then some none else none
  | _, _ => none

/-- The latest change of a name by a call that succeeded, and if there is none what
was there in the beginning. -/
def latest (initial : Props) (replies : List (Call × Reply)) : Props := fun name =>
  (replies.reverse.findSome? fun entry => entry.1.effect entry.2 name).getD (initial name)

/-! ## Searching -/

theorem compareName_eq_compare (a b : Option String) : compareName a b = compare a b := by
  cases a <;> cases b <;> rfl

theorem compareName_eq_iff (name : Option String) (key : String) :
    compareName name (some key) = .eq ↔ name = some key := by
  rw [compareName_eq_compare, Std.compare_eq_iff_eq]

variable {records others : List Record} {record : Record}

/-- Sorted records are ordered for every search. -/
theorem ordered_of_sorted (sorted : records.Pairwise fun a b => compareName a.name b.name ≠ .gt)
    (key : String) : Ordered (fun record => compareName record.name (some key)) records := by
  refine sorted.imp fun {first second} notGt => ?_
  simp only [compareName_eq_compare] at notGt ⊢
  have le := Ordering.ne_gt_iff_isLE.mp notGt
  exact ⟨Std.TransCmp.lt_of_isLE_of_lt le,
    Std.TransCmp.gt_of_isGE_of_gt (Std.OrientedCmp.isGE_iff_isLE.mpr le)⟩

/-- What a search in sorted records finds. -/
theorem findIndex_cases (nameSort : NameSort) (records : List Record) (key : String) :
    (∃ before found after, nameSort.sort records = before ++ found :: after ∧
      found.name = some key ∧ findIndex (nameSort.sort records) key = .ok before.length) ∨
    ∃ before after, nameSort.sort records = before ++ after ∧
      (∀ record ∈ nameSort.sort records, record.name ≠ some key) ∧
      findIndex (nameSort.sort records) key = .error before.length := by
  have outcome := outcome_binarySearchBy (ordered_of_sorted (nameSort.sorted records) key)
  rw [← findIndex] at outcome
  generalize isResult : findIndex (nameSort.sort records) key = result at outcome
  cases outcome with
  | found before after found split equal =>
    exact Or.inl ⟨before, found, after, split, (compareName_eq_iff _ _).mp equal, rfl⟩
  | absent before after split less greater =>
    refine Or.inr ⟨before, after, split, ?_, rfl⟩
    intro record mem same
    have equal := (compareName_eq_iff _ _).mpr same
    rw [split] at mem
    rcases mem_append.mp mem with inBefore | inAfter
    · cases equal.symm.trans (less record inBefore)
    · cases equal.symm.trans (greater record inAfter)

/-! ## The map of a list -/

theorem view_cons (record : Record) (records : List Record) (name : String) :
    view (record :: records) name =
      if record.name = some name then some record.value else view records name := by
  rw [view, find?_cons]
  by_cases same : record.name = some name
  · rw [if_pos same, decide_eq_true same]
    rfl
  · rw [if_neg same, decide_eq_false same]
    rfl

theorem view_cons_eq_update {key : String} (named : record.name = some key)
    (records : List Record) :
    view (record :: records) = update (view records) key (some record.value) := by
  funext name
  rw [view_cons]
  by_cases same : key = name
  · subst same
    rw [if_pos named, update_self]
  · have other : record.name ≠ some name := by
      rw [named, ne_eq, some.injEq]
      exact same
    rw [if_neg other, update_of_ne (Ne.symm same)]

theorem view_eq_none_iff :
    view records name = none ↔ ∀ record ∈ records, record.name ≠ some name := by
  rw [view, map_eq_none_iff, find?_eq_none]
  simp only [decide_eq_true_eq]

theorem distinct_cons : Distinct (record :: records) ↔
      (∀ name, record.name = some name → view records name = none) ∧ Distinct records := by
  simp only [Distinct, Nodup, pairwise_filterMap, pairwise_cons, view_eq_none_iff]
  apply and_congr_left
  intro _
  constructor
  · intro apart name named other mem same
    exact apart other mem name named name same rfl
  · intro apart other mem name named second same equal
    exact apart name named other mem (equal ▸ same)

theorem view_eq_some_iff (distinct : Distinct records) {value : Option String} :
    view records name = some value ↔
      ∃ record ∈ records, record.name = some name ∧ record.value = value := by
  induction records with
  | nil => simp [view]
  | cons record records ih =>
    rw [distinct_cons] at distinct
    rw [view_cons, exists_mem_cons_iff]
    split
    · rename_i named
      have alone := view_eq_none_iff.mp (distinct.1 name named)
      rw [some.injEq, and_iff_right named, or_iff_left]
      rintro ⟨other, mem, same, _⟩
      exact alone other mem same
    · rename_i unnamed
      rw [ih distinct.2, or_iff_right fun same => unnamed same.1]

theorem Distinct.perm (distinct : Distinct records) (perm : records.Perm others) :
    Distinct others :=
  (perm.filterMap Record.name).nodup_iff.mp distinct

/-- The order of the records does not matter. -/
theorem view_perm (perm : records.Perm others) (distinct : Distinct records) :
    view records = view others := by
  funext name
  apply ext
  intro value
  rw [view_eq_some_iff distinct, view_eq_some_iff (distinct.perm perm)]
  simp only [perm.mem_iff]

/-- Taking a record out of distinct ones. -/
theorem distinct_middle {before after : List Record} {found : Record} {key : String}
    (distinct : Distinct (before ++ found :: after)) (named : found.name = some key) :
    Distinct (before ++ after) ∧ view (before ++ after) key = none ∧
      view (before ++ found :: after) = update (view (before ++ after)) key (some found.value) := by
  have perm : (before ++ found :: after).Perm (found :: (before ++ after)) := perm_middle
  have parts := distinct_cons.mp (distinct.perm perm)
  refine ⟨parts.2, parts.1 key named, ?_⟩
  rw [view_perm perm distinct, view_cons_eq_update named]

/-- Putting a record between others that do not have its name. -/
theorem view_middle {before after : List Record} {record : Record} {key : String}
    (distinct : Distinct (before ++ after)) (absent : view (before ++ after) key = none)
    (named : record.name = some key) :
    Distinct (before ++ record :: after) ∧ view (before ++ record :: after) =
        update (view (before ++ after)) key (some record.value) := by
  have perm : (record :: (before ++ after)).Perm (before ++ record :: after) := perm_middle.symm
  have whole : Distinct (record :: (before ++ after)) := by
    refine distinct_cons.mpr ⟨?_, distinct⟩
    intro name isName
    rw [named, some.injEq] at isName
    rwa [← isName]
  refine ⟨whole.perm perm, ?_⟩
  rw [← view_perm perm whole, view_cons_eq_update named]

/-! ## Single calls -/

/-- The storage can be read. -/
def CanGet (io : Io) (storage : Storage) : Prop :=
  io.reads ∧ storage.proto ≠ some []

/-- The storage can be changed.  Records are read first. -/
def CanEdit (io : Io) (storage : Storage) : Prop :=
  io.writes ∧ ∀ file, storage.proto = some file → io.reads ∧ file ≠ []

instance (io : Io) (storage : Storage) : Decidable (CanGet io storage) :=
  inferInstanceAs (Decidable (_ ∧ _))

section Calls

variable {protobuf : Protobuf} {nameSort : NameSort} {io : Io} {storage : Storage} {props : Props}
  {file : List UInt8} {applies : Prop}

theorem protoReadProps_eq (decoded : protobuf.decode file = some records) :
    protoReadProps protobuf nameSort io file =
      if io.reads ∧ file ≠ [] then some (nameSort.sort records) else none := by
  rw [protoReadProps, decoded]
  rfl

/-- Sorting records does not change their map. -/
theorem view_sort {records : List Record} (distinct : Distinct records)
    (isProps : view records = props) :
    Distinct (nameSort.sort records) ∧ view (nameSort.sort records) = props :=
  ⟨distinct.perm (nameSort.perm records).symm,
    (view_perm (nameSort.perm records).symm distinct).symm.trans isProps⟩

theorem holds_write (distinct : Distinct records) :
    Holds protobuf { storage with proto := some (protobuf.encode records) } (view records) :=
  ⟨records, protobuf.decode_encode records, distinct, rfl⟩

/-- A property that has a value is found. -/
theorem persistGetProp_eq (holds : Holds protobuf storage props) (key : String) :
    persistGetProp protobuf nameSort io storage key =
      if CanGet io storage then (props key).join else none := by
  rw [persistGetProp]
  rw [Holds] at holds
  cases isProto : storage.proto with
  | none =>
    have canGet : CanGet io storage ↔ io.reads = true := by
      rw [CanGet, isProto]
      exact and_iff_left nofun
    rw [isProto] at holds
    rw [fileGetProp, holds key, if_congr canGet rfl rfl]
    cases storage.files key <;> rfl
  | some file =>
    have canGet : CanGet io storage ↔ io.reads = true ∧ file ≠ [] := by
      rw [CanGet, isProto, ne_eq, some.injEq]
    rw [isProto] at holds
    rcases holds with ⟨records, decoded, distinct, isProps⟩
    rcases @view_sort nameSort _ records distinct isProps with ⟨sortedDistinct, sortedProps⟩
    dsimp only
    rw [protoReadProps_eq decoded, if_congr canGet rfl rfl]
    by_cases readable : io.reads = true ∧ file ≠ []
    · rw [if_pos readable, if_pos readable, ← sortedProps]
      change (find (nameSort.sort records) key).bind _ = _
      rw [find]
      rcases findIndex_cases nameSort records key with
        ⟨before, found, after, split, named, isIndex⟩ | ⟨before, after, split, absent, isIndex⟩
      · have isValue := (view_eq_some_iff sortedDistinct).mpr
          ⟨found, split ▸ mem_append_right before mem_cons_self, named, rfl⟩
        have element : (nameSort.sort records)[before.length]? = some found := by
          rw [split, getElem?_append_right le_rfl, Nat.sub_self, getElem?_cons_zero]
        rw [isIndex, isValue]
        dsimp only
        rw [element]
        rcases found with ⟨name, value⟩
        cases named
        cases value <;> rfl
      · rw [isIndex, view_eq_none_iff.mpr absent]
        rfl
    · rw [if_neg readable, if_neg readable]
      rfl

theorem canEdit_of_proto (isProto : storage.proto = some file) :
    CanEdit io storage ↔ io.writes = true ∧ io.reads = true ∧ file ≠ [] := by
  rw [CanEdit, isProto]
  apply and_congr_right
  intro _
  constructor
  · exact fun all => all file rfl
  · rintro readable _ ⟨⟩
    exact readable

/-- What a changing call does: with a result it stores the new map, and it has one
if the storage can be changed and the call applies. -/
structure Edits (protobuf : Protobuf) (io : Io) (storage : Storage) (applies : Prop)
    (result : Option Storage) (props : Props) : Prop where
  some_iff : result.isSome = true ↔ CanEdit io storage ∧ applies
  holds : ∀ after, result = some after → Holds protobuf after props

theorem edits_protoWriteProps (isProto : storage.proto = some file)
    (readable : io.reads = true ∧ file ≠ []) (distinct : Distinct records) (yes : applies) :
    Edits protobuf io storage applies (protoWriteProps protobuf io storage records)
      (view records) := by
  rw [protoWriteProps]
  constructor
  · rw [canEdit_of_proto isProto]
    split <;> simp_all
  · intro after written
    split at written
    · cases written
      exact holds_write distinct
    · cases written

theorem edits_none (no : ¬ (CanEdit io storage ∧ applies)) :
    Edits protobuf io storage applies none props :=
  ⟨iff_of_false nofun no, nofun⟩

theorem canEdit_of_files (isFiles : storage.proto = none) :
    CanEdit io storage ↔ io.writes = true := by
  rw [CanEdit, isFiles]
  exact and_iff_left nofun

theorem holds_update (isFiles : storage.proto = none)
    (holds : ∀ name, props name = (storage.files name).map fromUtf8) (key : String)
    (content : Option (List UInt8)) :
    Holds protobuf { storage with files := update storage.files key content }
      (update props key (content.map fromUtf8)) := by
  rw [isFiles]
  intro name
  dsimp only
  by_cases same : name = key
  · rw [same, update_self, update_self]
  · rw [update_of_ne same, update_of_ne same, holds]

/-- Files of single properties are replaced, and removed if they exist. -/
theorem edits_fileSetProp (isFiles : storage.proto = none)
    (holds : ∀ name, props name = (storage.files name).map fromUtf8) (key : String) :
    Edits protobuf io storage (props key ≠ none) (fileSetProp io storage key none)
        (update props key none) ∧
      ∀ val, Edits protobuf io storage True (fileSetProp io storage key (some val))
        (update props key (some (some val))) := by
  have present : props key ≠ none ↔ (storage.files key).isSome = true := by
    rw [holds, ne_eq, map_eq_none_iff, isSome_iff_ne_none]
  constructor
  · rw [fileSetProp]
    constructor
    · rw [canEdit_of_files isFiles]
      split <;> simp_all
    · intro after written
      split at written
      · cases written
        exact holds_update isFiles holds key none
      · cases written
  · intro val
    have stored := @holds_update protobuf _ _ isFiles holds key (some (utf8 val))
    rw [map_some, fromUtf8_utf8] at stored
    rw [fileSetProp]
    constructor
    · rw [canEdit_of_files isFiles]
      split <;> simp_all
    · intro after written
      split at written
      · cases written
        exact stored
      · cases written

/-- A call that edits the files or, if they can be read, the sorted records. -/
theorem edits_of_holds (holds : Holds protobuf storage props) {after : Props}
    {onFiles : Option Storage} {onRecords : List Record → Option Storage}
    (files : storage.proto = none → (∀ name, props name = (storage.files name).map fromUtf8) →
      Edits protobuf io storage applies onFiles after)
    (sorted : ∀ file records, storage.proto = some file → io.reads = true ∧ file ≠ [] →
      Distinct (nameSort.sort records) → view (nameSort.sort records) = props →
      Edits protobuf io storage applies (onRecords (nameSort.sort records)) after) :
    Edits protobuf io storage applies (match storage.proto with
      | some file => (protoReadProps protobuf nameSort io file).bind onRecords
      | none => onFiles) after := by
  rw [Holds] at holds
  cases isProto : storage.proto with
  | none =>
    rw [isProto] at holds
    exact files isProto holds
  | some file =>
    rw [isProto] at holds
    rcases holds with ⟨records, decoded, distinct, isProps⟩
    rcases @view_sort nameSort _ records distinct isProps with ⟨sortedDistinct, sortedProps⟩
    dsimp only
    rw [protoReadProps_eq decoded]
    by_cases readable : io.reads = true ∧ file ≠ []
    · rw [if_pos readable]
      exact sorted file records isProto readable sortedDistinct sortedProps
    · rw [if_neg readable]
      exact edits_none fun edited => readable ((canEdit_of_proto isProto).mp edited.1).2

/-- A deleted property is gone. -/
theorem edits_persistDeleteProp (holds : Holds protobuf storage props) (key : String) :
    Edits protobuf io storage (props key ≠ none)
      (persistDeleteProp protobuf nameSort io storage key) (update props key none) := by
  refine edits_of_holds holds (fun isFiles content => ?_) ?_
  · exact (edits_fileSetProp isFiles content key).1
  rintro file records isProto readable distinct rfl
  rcases findIndex_cases nameSort records key with
    ⟨before, found, after, split, named, isIndex⟩ | ⟨before, after, split, absent, isIndex⟩
  · rw [isIndex]
    rw [split] at distinct ⊢
    rcases distinct_middle distinct named with ⟨rest, gone, isView⟩
    dsimp only
    rw [eraseIdx_middle]
    have same : update (view (before ++ found :: after)) key none = view (before ++ after) := by
      rw [isView, update_idem, ← gone, update_eq_self]
    rw [same]
    apply edits_protoWriteProps isProto readable rest
    rw [isView, update_self]
    nofun
  · rw [isIndex]
    exact edits_none fun edited => edited.2 (view_eq_none_iff.mpr absent)

/-- A property that is set has its value. -/
theorem edits_persistSetProp (holds : Holds protobuf storage props) (key val : String) :
    Edits protobuf io storage True (persistSetProp protobuf nameSort io storage key val)
      (update props key (some (some val))) := by
  refine edits_of_holds holds (fun isFiles content => ?_) ?_
  · exact (edits_fileSetProp isFiles content key).2 val
  rintro file records isProto readable distinct rfl
  rcases findIndex_cases nameSort records key with
    ⟨before, found, after, split, named, isIndex⟩ | ⟨before, after, split, absent, isIndex⟩
  · rw [isIndex]
    rw [split] at distinct ⊢
    rcases distinct_middle distinct named with ⟨rest, gone, isView⟩
    rcases @view_middle before after { found with value := some val } key rest gone named with
      ⟨stored, isStored⟩
    dsimp only
    rw [modify_middle, isView, update_idem, ← isStored]
    exact edits_protoWriteProps isProto readable stored trivial
  · rw [isIndex]
    have gone := view_eq_none_iff.mpr absent
    rw [split] at distinct gone ⊢
    rcases @view_middle before after ⟨some key, some val⟩ key distinct gone rfl with
      ⟨stored, isStored⟩
    dsimp only
    rw [insertIdx_middle, ← isStored]
    exact edits_protoWriteProps isProto readable stored trivial

end Calls

/-! ## Runs of calls -/

/-- How a call is served by a storage that holds a map. -/
structure Serves (protobuf : Protobuf) (props : Props) (storage : Storage) (call : Call) (io : Io)
    (result : Reply × Storage) : Prop where
  get : ∀ key, call = .get key → result.2 = storage ∧
    ∀ val, result.1 = .value val ↔ CanGet io storage ∧ props key = some (some val)
  set : ∀ key val, call = .set key val → (result.1 = .done ↔ CanEdit io storage)
  delete : ∀ key, call = .delete key →
    (result.1 = .done ↔ CanEdit io storage ∧ props key ≠ none)
  absent : props call.key = none → (∀ val, call ≠ .set call.key val) → result.1 = .failed
  failed : result.1 = .failed → result.2 = storage
  holds : Holds protobuf result.2 fun name => (call.effect result.1 name).getD (props name)

section Runs

variable {protobuf : Protobuf} {nameSort : NameSort} {storage : Storage} {props : Props}

theorem serves_get (holds : Holds protobuf storage props) (io : Io) (key : String) :
    Serves protobuf props storage (.get key) io
      (Call.exec protobuf nameSort storage io (.get key)) := by
  have result := @persistGetProp_eq _ nameSort io _ _ holds key
  have value : ∀ val, persistGetProp protobuf nameSort io storage key = some val ↔
      CanGet io storage ∧ props key = some (some val) := by
    intro val
    rw [result, ite_none_right_eq_some, join_eq_some_iff]
  rw [Call.exec]
  cases found : persistGetProp protobuf nameSort io storage key with
  | none =>
    refine ⟨?_, nofun, nofun, fun _ _ => rfl, fun _ => rfl, holds⟩
    rintro _ ⟨⟩
    refine ⟨rfl, fun val => ?_⟩
    rw [← value val, found]
    exact iff_of_false nofun nofun
  | some got =>
    refine ⟨?_, nofun, nofun, ?_, nofun, holds⟩
    · rintro _ ⟨⟩
      refine ⟨rfl, fun val => ?_⟩
      rw [← value val, found, Reply.value.injEq, some.injEq]
    · intro absent _
      have present := ((value got).mp found).2
      rw [Call.key, present] at absent
      cases absent

theorem update_eq_getD (props : Props) (key : String) (stored : Option (Option String)) :
    update props key stored =
      fun name => (if key = name then some stored else none).getD (props name) := by
  funext name
  by_cases same : key = name
  · rw [← same, update_self, if_pos rfl, getD_some]
  · rw [update_of_ne (Ne.symm same), if_neg same, getD_none]

theorem serves_set (holds : Holds protobuf storage props) (io : Io) (key val : String) :
    Serves protobuf props storage (.set key val) io
      (Call.exec protobuf nameSort storage io (.set key val)) := by
  have edits := @edits_persistSetProp _ nameSort io _ _ holds key val
  have done := edits.some_iff
  rw [and_true] at done
  rw [Call.exec]
  cases found : persistSetProp protobuf nameSort io storage key val with
  | none =>
    rw [found] at done
    refine ⟨nofun, ?_, nofun, fun _ _ => rfl, fun _ => rfl, holds⟩
    rintro _ _ ⟨⟩
    exact iff_of_false nofun fun can => absurd (done.mpr can) nofun
  | some after =>
    rw [found] at done
    refine ⟨nofun, ?_, nofun, fun _ notSet => absurd rfl (notSet val), nofun, ?_⟩
    · rintro _ _ ⟨⟩
      exact iff_of_true rfl (done.mp rfl)
    · have stored := edits.holds after found
      rwa [update_eq_getD] at stored

theorem serves_delete (holds : Holds protobuf storage props) (io : Io) (key : String) :
    Serves protobuf props storage (.delete key) io
      (Call.exec protobuf nameSort storage io (.delete key)) := by
  have edits := @edits_persistDeleteProp _ nameSort io _ _ holds key
  have done := edits.some_iff
  rw [Call.exec]
  cases found : persistDeleteProp protobuf nameSort io storage key with
  | none =>
    rw [found] at done
    refine ⟨nofun, nofun, ?_, fun _ _ => rfl, fun _ => rfl, holds⟩
    rintro _ ⟨⟩
    exact iff_of_false nofun fun can => absurd (done.mpr can) nofun
  | some after =>
    rw [found] at done
    refine ⟨nofun, nofun, ?_, fun absent _ => absurd absent (done.mp rfl).2, nofun, ?_⟩
    · rintro _ ⟨⟩
      exact iff_of_true rfl (done.mp rfl)
    · have stored := edits.holds after found
      rwa [update_eq_getD] at stored

/-- Every call is served from the map. -/
theorem serves_exec (holds : Holds protobuf storage props) (call : Call) (io : Io) :
    Serves protobuf props storage call io (call.exec protobuf nameSort storage io) := by
  cases call with
  | get key => exact serves_get holds io key
  | set key val => exact serves_set holds io key val
  | delete key => exact serves_delete holds io key

theorem latest_cons (initial : Props) (call : Call) (reply : Reply)
    (replies : List (Call × Reply)) :
    latest initial ((call, reply) :: replies) =
      latest (fun name => (call.effect reply name).getD (initial name)) replies := by
  funext name
  rw [latest, latest, reverse_cons, findSome?_append, findSome?_singleton]
  cases replies.reverse.findSome? fun entry => entry.1.effect entry.2 name <;> rfl

theorem holds_run (holds : Holds protobuf storage props) (calls : List (Call × Io)) :
    Holds protobuf (Call.run protobuf nameSort storage calls).2
      (latest props (Call.run protobuf nameSort storage calls).1) := by
  induction calls generalizing storage props with
  | nil => exact holds
  | cons entry calls ih =>
    have served := @serves_exec _ nameSort _ _ holds entry.1 entry.2
    have later := ih served.holds
    rw [← latest_cons props entry.1] at later
    exact later

end Runs

/-- One file for each property is a finite map as well, whatever the files contain. -/
theorem serves_files_after_run (protobuf : Protobuf) (nameSort : NameSort)
    (files : String → Option (List UInt8)) (calls : List (Call × Io)) (call : Call) (io : Io) :
    let run := Call.run protobuf nameSort ⟨none, files⟩ calls
    Serves protobuf (latest (fun name => (files name).map fromUtf8) run.1) run.2 call io
      (call.exec protobuf nameSort run.2 io) := by
  have holds : Holds protobuf ⟨none, files⟩ _ := fun _ => rfl
  exact serves_exec (holds_run holds calls) call io

/-! ## An example -/

end Magisk.Core.Resetprop
