import Magisk.SePolicy.Rule

/-!
# Extended permission rules

An ioctl number is a driver byte and a function byte.  A key keeps one node
that lists whole drivers and, per driver, one node that lists functions.
`editXperm` applies one value or range to these nodes; a range that stays in
one driver edits functions, any other range edits drivers.  With `reset`, all
numbers outside the range are allowed from scratch.
-/

namespace Magisk.SePolicy

open Multimap

/-- One value or range of an extended permission statement. -/
structure Xperm where
  low : UInt16
  high : UInt16
  reset : Bool
  deriving DecidableEq, Repr

/-- `ioctl_driver`. -/
def ioctlDriver (x : UInt16) : Nat :=
  (x >>> 8 &&& 0xFF).toNat

/-- `ioctl_func`. -/
def ioctlFunc (x : UInt16) : Nat :=
  (x &&& 0xFF).toNat

/-- `xperm_set`. -/
def xpermSet (perms : BitVec 256) (x : Nat) : BitVec 256 :=
  perms ||| BitVec.twoPow 256 x

/-- `xperm_clear`. -/
def xpermClear (perms : BitVec 256) (x : Nat) : BitVec 256 :=
  perms &&& ~~~(BitVec.twoPow 256 x)

/-- Set all bits from `low` to `high`. -/
def setRange (low high : Nat) (perms : BitVec 256) : BitVec 256 :=
  (List.range' low (high + 1 - low)).foldl xpermSet perms

/-- Clear all bits from `low` to `high`. -/
def clearRange (low high : Nat) (perms : BitVec 256) : BitVec 256 :=
  (List.range' low (high + 1 - low)).foldl xpermClear perms

namespace AvtabDatum

/-- The node that lists whole drivers. -/
def isDriver (datum : AvtabDatum) : Bool :=
  datum.xperms.any fun xperms => xperms.specified = .ioctlDriver

/-- The node that lists the functions of `driver`. -/
def isFunction (driver : Nat) (datum : AvtabDatum) : Bool :=
  datum.xperms.any fun xperms => xperms.specified = .ioctlFunction && xperms.driver.toNat = driver

/-- Edit the bitmap of a node. -/
def mapPerms (edit : BitVec 256 → BitVec 256) (datum : AvtabDatum) : AvtabDatum :=
  { datum with xperms := datum.xperms.map fun xperms => { xperms with perms := edit xperms.perms } }

end AvtabDatum

namespace Avtab

/-- The nodes found last win, as the scan over all nodes of a key overwrites
its slots; a slot without a node gets one holding the edited `fresh` bitmap. -/
def editSlot (avtab : Avtab) (key : AvtabKey) (test : AvtabDatum → Bool) (slot : ExtendedPerms)
    (edit : BitVec 256 → BitVec 256) : Avtab :=
  if (avtab.data key).any test then
    { avtab with
      nodes := editLast key test (fun datum => some (datum.mapPerms edit)) avtab.nodes }
  else
    avtab.insertNode key (some { slot with perms := edit slot.perms })

/-- An empty node listing drivers. -/
def newDriverNode : ExtendedPerms :=
  ⟨.ioctlDriver, 0, 0⟩

/-- An empty node listing the functions of `driver`. -/
def newFuncNode (driver : Nat) : ExtendedPerms :=
  ⟨.ioctlFunction, driver.toUInt8, 0⟩

/-- Remove the function node of one driver, if there is one. -/
def removeFunction (avtab : Avtab) (key : AvtabKey) (driver : Nat) : Avtab :=
  if (avtab.data key).any (AvtabDatum.isFunction driver) then
    { nodes := editLast key (AvtabDatum.isFunction driver) (fun _ => none) avtab.nodes
      nel := avtab.nel - 1 }
  else
    avtab

/-- Add a value or range. -/
def extendXperm (avtab : Avtab) (key : AvtabKey) (p : Xperm) : Avtab :=
  if ioctlDriver p.low ≠ ioctlDriver p.high then
    avtab.editSlot key AvtabDatum.isDriver newDriverNode
      (setRange (ioctlDriver p.low) (ioctlDriver p.high))
  else
    avtab.editSlot key (AvtabDatum.isFunction (ioctlDriver p.low)) (newFuncNode (ioctlDriver p.low))
      (setRange (ioctlFunc p.low) (ioctlFunc p.high))

/-- Allow everything but a value or range.  All function nodes are gone by the
time a new one is needed, so it is always created. -/
def resetXperm (avtab : Avtab) (key : AvtabKey) (p : Xperm) : Avtab :=
  let avtab := (List.range 256).foldl (fun avtab driver => avtab.removeFunction key driver) avtab
  if ioctlDriver p.low ≠ ioctlDriver p.high then
    avtab.editSlot key AvtabDatum.isDriver newDriverNode fun _ =>
      clearRange (ioctlDriver p.low) (ioctlDriver p.high) (BitVec.allOnes 256)
  else
    let avtab := avtab.editSlot key AvtabDatum.isDriver newDriverNode fun _ =>
      xpermClear (BitVec.allOnes 256) (ioctlDriver p.low)
    avtab.insertNode key (some { newFuncNode (ioctlDriver p.low) with
      perms := clearRange (ioctlFunc p.low) (ioctlFunc p.high) (BitVec.allOnes 256) })

/-- `add_xperm_rule` on one key. -/
def editXperm (avtab : Avtab) (key : AvtabKey) (p : Xperm) : Avtab :=
  if p.reset then avtab.resetXperm key p else avtab.extendXperm key p

end Avtab

/-- `POLICYDB_VERSION_XPERMS_IOCTL`. -/
def xpermsIoctlVersion : UInt32 :=
  30

namespace PolicyDb

section AddXpermRule

variable (p : Xperm) (effect : Specified)

/-- `add_xperm_rule` with source, target and class given. -/
def addXpermRuleAt (db : PolicyDb) (src tgt : TypeDatum) (cls : ClassDatum) : PolicyDb :=
  if db.policyvers < xpermsIoctlVersion then
    db
  else
    { db with teAvtab := db.teAvtab.editXperm (avtabKey src tgt cls effect) p }

/-- `add_xperm_rule` with source and target given. -/
def addXpermRuleClass (db : PolicyDb) (src tgt : TypeDatum) : Option ClassDatum → PolicyDb
  | none => (db.classes.map Prod.snd).foldl (fun db cls => db.addXpermRuleAt p effect src tgt cls) db
  | some cls => db.addXpermRuleAt p effect src tgt cls

/-- `add_xperm_rule` with the source given. -/
def addXpermRuleTarget (db : PolicyDb) (src : TypeDatum) (tgt : Option TypeDatum)
    (cls : Option ClassDatum) : PolicyDb :=
  match tgt with
  | none => db.attrs.foldl (fun db tgt => db.addXpermRuleClass p effect src tgt cls) db
  | some tgt => db.addXpermRuleClass p effect src tgt cls

/-- `add_xperm_rule` on resolved symbols, `none` being a wildcard for all
attributes or all classes. -/
def addXpermRuleDatum (db : PolicyDb) (src tgt : Option TypeDatum) (cls : Option ClassDatum) :
    PolicyDb :=
  match src with
  | none => db.attrs.foldl (fun db src => db.addXpermRuleTarget p effect src tgt cls) db
  | some src => db.addXpermRuleTarget p effect src tgt cls

end AddXpermRule

/-- `add_xperm_rule` on names; the error is the logged warning. -/
def addXpermRule (db : PolicyDb) (s t c : String) (p : Xperm) (effect : Specified) :
    Except String PolicyDb := do
  let src ← resolve db.types s ("source type " ++ s ++ " does not exist")
  let tgt ← resolve db.types t ("target type " ++ t ++ " does not exist")
  let cls ← resolve db.classes c ("class " ++ c ++ " does not exist")
  return db.addXpermRuleDatum p effect src tgt cls

/-- One extended permission statement: every combination of names, and for each
of them every listed value or range in turn. -/
def addXpermRules (effect : Specified) (db : PolicyDb) (src tgt cls : List String)
    (xperms : List Xperm) : PolicyDb :=
  (expand src).foldl (fun db s =>
    (expand tgt).foldl (fun db t =>
      (expand cls).foldl (fun db c =>
        xperms.foldl (fun db p => (db.addXpermRule s t c p effect).toOption.getD db) db) db) db) db

/-- `SePolicy::allowxperm`. -/
def allowxperm : PolicyDb → List String → List String → List String → List Xperm → PolicyDb :=
  addXpermRules .xpermsAllowed

/-- `SePolicy::auditallowxperm`. -/
def auditallowxperm : PolicyDb → List String → List String → List String → List Xperm → PolicyDb :=
  addXpermRules .xpermsAuditallow

/-- `SePolicy::dontauditxperm`. -/
def dontauditxperm : PolicyDb → List String → List String → List String → List Xperm → PolicyDb :=
  addXpermRules .xpermsDontaudit

end PolicyDb

end Magisk.SePolicy
