import Magisk.Bytes.Core
import Magisk.Multimap.Core

/-!
# The policy database

The part of libsepol's `policydb` that rule statements read and edit: the
symbol tables of types and classes, the access vector table `te_avtab` and the
table of filename transitions.  The hash tables of libsepol are taken as what
they implement: a symbol table is the list of its entries in traversal order,
the other tables are multimaps whose first matching node is the one a search
returns.
-/

namespace Magisk.SePolicy

open Bytes Multimap

/-! ## Symbol tables -/

/-- A name as the C string the table holds. -/
def cString (name : String) : List UInt8 :=
  (utf8 name).takeWhile (· ≠ 0)

/-- The C string a name becomes in the 256-byte buffer of `hashtab_find`. -/
def symbolKey (name : String) : List UInt8 :=
  ((utf8 name).take 255).takeWhile (· ≠ 0)

/-- A libsepol symbol table, in traversal order. -/
abbrev Symtab (α : Type) := List (List UInt8 × α)

/-- `hashtab_find`. -/
def hashtabFind {α : Type} (table : Symtab α) (name : String) : Option α :=
  table.lookup (symbolKey name)

/-- `TYPE_TYPE`, `TYPE_ATTRIB` and `TYPE_ALIAS`. -/
inductive Flavor where
  | type
  | attrib
  | alias
  deriving DecidableEq, Repr

/-- `type_datum_t`. -/
structure TypeDatum where
  value : UInt32
  flavor : Flavor
  deriving DecidableEq, Repr

/-- `perm_datum_t`. -/
structure PermDatum where
  value : UInt32
  deriving DecidableEq, Repr

/-- `class_datum_t`, with the permissions of its common class if it has one. -/
structure ClassDatum where
  value : UInt32
  permissions : Symtab PermDatum
  comdatum : Option (Symtab PermDatum)
  deriving DecidableEq, Repr

/-! ## The access vector table -/

/-- The rule kinds of a key, one `AVTAB_` bit each. -/
inductive Specified where
  | allowed
  | auditallow
  | auditdeny
  | transition
  | member
  | change
  | xpermsAllowed
  | xpermsAuditallow
  | xpermsDontaudit
  deriving DecidableEq, Repr

/-- `avtab_key_t`. -/
structure AvtabKey where
  sourceType : UInt16
  targetType : UInt16
  targetClass : UInt16
  specified : Specified
  deriving DecidableEq, Repr

/-- What an extended permission node lists: functions of one driver, or whole
drivers.  Other kinds exist and are ignored here. -/
inductive XpermsSpecified where
  | ioctlFunction
  | ioctlDriver
  | other
  deriving DecidableEq, Repr

/-- `avtab_extended_perms_t`, with its eight words as one bitmap. -/
structure ExtendedPerms where
  specified : XpermsSpecified
  driver : UInt8
  perms : BitVec 256
  deriving DecidableEq, Repr

/-- `avtab_datum_t`. -/
structure AvtabDatum where
  data : UInt32
  xperms : Option ExtendedPerms
  deriving DecidableEq, Repr

/-- `avtab_t`: the nodes in search order and the recorded element count. -/
structure Avtab where
  nodes : List (AvtabKey × AvtabDatum)
  nel : UInt32
  deriving DecidableEq, Repr

/-! ## Filename transitions -/

/-- `filename_trans_key_t`. -/
structure FilenameTransKey where
  ttype : UInt32
  tclass : UInt32
  name : List UInt8
  deriving DecidableEq, Repr

/-- `filename_trans_datum_t`: the bits of `stypes` are the source types, counted
from zero, whose new objects get the type `otype`. -/
structure FilenameTransDatum where
  stypes : Nat
  otype : UInt32
  deriving DecidableEq, Repr

/-- The nodes of `filename_trans`, each with the data chained to it. -/
abbrev FilenameTrans := List (FilenameTransKey × List FilenameTransDatum)

/-- The database. -/
structure PolicyDb where
  policyvers : UInt32
  types : Symtab TypeDatum
  classes : Symtab ClassDatum
  teAvtab : Avtab
  filenameTrans : FilenameTrans := []
  filenameTransCount : UInt32 := 0
  deriving DecidableEq, Repr

/-- The key of a rule between two types on a class. -/
def avtabKey (src tgt : TypeDatum) (cls : ClassDatum) (effect : Specified) : AvtabKey :=
  { sourceType := src.value.toUInt16
    targetType := tgt.value.toUInt16
    targetClass := cls.value.toUInt16
    specified := effect }

namespace Avtab

/-- The data of all nodes of a key, in search order. -/
def data (avtab : Avtab) (key : AvtabKey) : List AvtabDatum :=
  values key avtab.nodes

/-- The word a node starts with: dontaudit rules clear bits, all others set
them. -/
def initialWord (specified : Specified) : UInt32 :=
  if specified = .auditdeny then ~~~0 else 0

/-- `insert_avtab_node`, followed by filling in the datum. -/
def insertNode (avtab : Avtab) (key : AvtabKey) (xperms : Option ExtendedPerms) : Avtab :=
  { nodes := (key, ⟨initialWord key.specified, xperms⟩) :: avtab.nodes
    nel := avtab.nel + 1 }

/-- Overwrite the node a search for `key` returns. -/
def modifyNode (avtab : Avtab) (key : AvtabKey) (edit : AvtabDatum → AvtabDatum) : Avtab :=
  { avtab with nodes := editFirst key (fun _ => true) (fun datum => some (edit datum)) avtab.nodes }

/-- `avtab_remove_node` of the node a search for `key` returns. -/
def removeNode (avtab : Avtab) (key : AvtabKey) : Avtab :=
  { nodes := editFirst key (fun _ => true) (fun _ => none) avtab.nodes
    nel := avtab.nel - 1 }

/-- `is_redundant`. -/
def isRedundant (key : AvtabKey) (datum : AvtabDatum) : Bool :=
  match key.specified with
  | .auditdeny => datum.data = ~~~0
  | _ => datum.data = 0

/-- `get_avtab_node` for a key without extended permissions: make sure a search
finds a node. -/
def getNode (avtab : Avtab) (key : AvtabKey) : Avtab :=
  match avtab.data key with
  | [] => avtab.insertNode key none
  | _ :: _ => avtab

/-! ## What an edit does to the nodes of each key -/

@[simp]
theorem data_insertNode_self (avtab : Avtab) (key : AvtabKey) (xperms : Option ExtendedPerms) :
    (avtab.insertNode key xperms).data key =
      ⟨initialWord key.specified, xperms⟩ :: avtab.data key :=
  values_cons_self key _ avtab.nodes

variable {key other : AvtabKey}

theorem data_insertNode_of_ne (ne : other ≠ key) (avtab : Avtab) (xperms : Option ExtendedPerms) :
    (avtab.insertNode key xperms).data other = avtab.data other :=
  values_cons_of_ne ne.symm _ avtab.nodes

theorem data_getNode_self (avtab : Avtab) (key : AvtabKey) :
    (avtab.getNode key).data key =
      if avtab.data key = [] then [⟨initialWord key.specified, none⟩] else avtab.data key := by
  unfold getNode
  split
  · rename_i empty
    rw [data_insertNode_self, empty, if_pos rfl]
  · rename_i datum rest found
    rw [found, if_neg (List.cons_ne_nil datum rest)]

theorem data_getNode_of_ne (ne : other ≠ key) (avtab : Avtab) :
    (avtab.getNode key).data other = avtab.data other := by
  unfold getNode
  split
  · exact data_insertNode_of_ne ne avtab none
  · rfl

theorem data_modifyNode_self (avtab : Avtab) (key : AvtabKey) (edit : AvtabDatum → AvtabDatum) :
    (avtab.modifyNode key edit).data key =
      alterFirst (fun _ => true) (fun datum => some (edit datum)) (avtab.data key) := by
  unfold data modifyNode
  rw [values_editFirst_self]

theorem data_modifyNode_of_ne (ne : other ≠ key) (avtab : Avtab) (edit : AvtabDatum → AvtabDatum) :
    (avtab.modifyNode key edit).data other = avtab.data other := by
  unfold data modifyNode
  rw [values_editFirst_of_ne ne]

theorem data_removeNode_self (avtab : Avtab) (key : AvtabKey) :
    (avtab.removeNode key).data key = (avtab.data key).tail := by
  unfold data removeNode
  rw [values_editFirst_self]
  cases values key avtab.nodes <;> rfl

theorem data_removeNode_of_ne (ne : other ≠ key) (avtab : Avtab) :
    (avtab.removeNode key).data other = avtab.data other := by
  unfold data removeNode
  rw [values_editFirst_of_ne ne]

end Avtab

end Magisk.SePolicy
