import Magisk.Bytes.Endian
import Magisk.Bytes.Window
import Magisk.SePolicy.Rule

/-!
# Type rules and filename transitions

A type rule is one word of the access vector table.  A filename transition is
found under its target type, class and object name; all data of one such key
are chained, each holding a set of source types and the type they share.

The key of a filename transition is a structure that ends in the address of the
name.  It is handed to `hashtab_find`, whose parameter is a string: the
structure is read up to its first zero byte, checked to be UTF-8 and copied into
a zeroed buffer, and the table reads its key from there.
-/

namespace Magisk.SePolicy

open List Bytes Multimap

/-- Why an operation ends early. -/
inductive Stop where
  /-- A logged warning; the policy is unchanged. -/
  | warning (text : String)
  /-- `rust::Str` refuses bytes that are not UTF-8. -/
  | panic
  /-- A stray pointer is followed. -/
  | fault
  deriving DecidableEq, Repr

/-! ## The key on the stack -/

/-- Where `add_filename_trans` keeps its key: the bytes of the address of
`key_name`, and what follows the structure in memory. -/
structure KeyFrame where
  nameAddress : List UInt8
  pointerSized : nameAddress.length = 4 ∨ nameAddress.length = 8
  notNull : ∃ byte ∈ nameAddress, byte ≠ 0
  beyond : List UInt8

namespace KeyFrame

variable (frame : KeyFrame)

/-- The bytes of a `filename_trans_key_t`. -/
def bytes (ttype tclass : UInt32) : List UInt8 :=
  leBytes 4 ttype.toNat ++ (leBytes 4 tclass.toNat ++ frame.nameAddress)

/-- The bytes of the string that starts where the key does. -/
def text (ttype tclass : UInt32) : List UInt8 :=
  (frame.bytes ttype tclass ++ frame.beyond).takeWhile (· ≠ 0)

/-- The buffer of `hashtab_find`. -/
def buffer (ttype tclass : UInt32) : List UInt8 :=
  let copied := (frame.text ttype tclass).take 255
  copied ++ zeros (256 - copied.length)

/-- The key the table reads from the buffer. -/
def handOver (key : FilenameTransKey) : Except Stop FilenameTransKey :=
  if (fromUtf8 (frame.text key.ttype key.tclass)).isNone then
    .error .panic
  else
    let buffer := frame.buffer key.ttype key.tclass
    if window buffer 8 frame.nameAddress.length ≠ frame.nameAddress then
      .error .fault
    else
      .ok { key with
        ttype := UInt32.ofNat (ofLe (window buffer 0 4))
        tclass := UInt32.ofNat (ofLe (window buffer 4 4)) }

end KeyFrame

/-! ## Chains -/

/-- The bit of a source type. -/
def stypeBit (stype : UInt32) : Nat :=
  (stype - 1).toNat

/-- The type of the first datum that has the source type. -/
def chainLookup (bit : Nat) (chain : List FilenameTransDatum) : Option UInt32 :=
  (chain.find? fun datum => datum.stypes.testBit bit).map FilenameTransDatum.otype

/-- Walk a chain: overwrite the datum that has the source type, or add the
source type to a datum of the same type, or append a datum. -/
def chainUpdate (bit : Nat) (otype : UInt32) : List FilenameTransDatum → List FilenameTransDatum
  | [] => [⟨2 ^ bit, otype⟩]
  | datum :: rest =>
    if datum.stypes.testBit bit then
      { datum with otype := otype } :: rest
    else if datum.otype = otype then
      { datum with stypes := datum.stypes ||| 2 ^ bit } :: rest
    else
      datum :: chainUpdate bit otype rest

/-- Whether the walk ends at a datum that has the source type. -/
def chainOverwrites (bit : Nat) (otype : UInt32) : List FilenameTransDatum → Bool
  | [] => false
  | datum :: rest =>
    if datum.stypes.testBit bit then true
    else if datum.otype = otype then false
    else chainOverwrites bit otype rest

namespace PolicyDb

/-! ## Operations -/

/-- The symbols of a type rule. -/
def findSymbols (db : PolicyDb) (s t c d : String) :
    Except String (TypeDatum × TypeDatum × ClassDatum × TypeDatum) :=
  match hashtabFind db.types s with
  | none => .error ("source type " ++ s ++ " does not exist")
  | some src =>
    match hashtabFind db.types t with
    | none => .error ("target type " ++ t ++ " does not exist")
    | some tgt =>
      match hashtabFind db.classes c with
      | none => .error ("class " ++ c ++ " does not exist")
      | some cls =>
        match hashtabFind db.types d with
        | none => .error ("default type " ++ d ++ " does not exist")
        | some otype => .ok (src, tgt, cls, otype)

/-- `add_type_rule`. -/
def addTypeRule (db : PolicyDb) (s t c d : String) (effect : Specified) :
    Except Stop PolicyDb :=
  match db.findSymbols s t c d with
  | .error text => .error (.warning text)
  | .ok (src, tgt, cls, otype) =>
    let key := avtabKey src tgt cls effect
    .ok { db with
      teAvtab := (db.teAvtab.getNode key).modifyNode key fun datum =>
        { datum with data := otype.value } }

/-- The chain a search for `key` returns. -/
def chain (db : PolicyDb) (key : FilenameTransKey) : Option (List FilenameTransDatum) :=
  (values key db.filenameTrans).head?

/-- Enter a source type under `key`, given what the search found under `seen`. -/
def insertTrans (db : PolicyDb) (seen key : FilenameTransKey) (bit : Nat) (otype : UInt32) :
    PolicyDb :=
  match db.chain seen with
  | none =>
    { db with
      filenameTrans := (key, [⟨2 ^ bit, otype⟩]) :: db.filenameTrans
      filenameTransCount := db.filenameTransCount + 1 }
  | some chain =>
    { db with
      filenameTrans := editFirst seen (fun _ => true)
        (fun chain => some (chainUpdate bit otype chain)) db.filenameTrans
      filenameTransCount :=
        if chainOverwrites bit otype chain then db.filenameTransCount
        else db.filenameTransCount + 1 }

/-- `add_filename_trans`. -/
def addFilenameTrans (frame : KeyFrame) (db : PolicyDb) (s t c d o : String) :
    Except Stop PolicyDb :=
  match db.findSymbols s t c d with
  | .error text => .error (.warning text)
  | .ok (src, tgt, cls, otype) =>
    let key : FilenameTransKey := ⟨tgt.value, cls.value, symbolKey o⟩
    match frame.handOver key with
    | .error stop => .error stop
    | .ok seen => .ok (db.insertTrans seen key (stypeBit src.value) otype.value)

/-- A warning leaves the policy as it is. -/
def orWarn (db : PolicyDb) : Except Stop PolicyDb → Except Stop PolicyDb
  | .error (.warning _) => .ok db
  | result => result

/-- `SePolicy::type_transition`. -/
def typeTransition (frame : KeyFrame) (db : PolicyDb) (s t c d o : String) :
    Except Stop PolicyDb :=
  if o ≠ "" then db.orWarn (db.addFilenameTrans frame s t c d o)
  else db.orWarn (db.addTypeRule s t c d .transition)

/-- `SePolicy::type_change`. -/
def typeChange (db : PolicyDb) (s t c d : String) : Except Stop PolicyDb :=
  db.orWarn (db.addTypeRule s t c d .change)

/-- `SePolicy::type_member`. -/
def typeMember (db : PolicyDb) (s t c d : String) : Except Stop PolicyDb :=
  db.orWarn (db.addTypeRule s t c d .member)

/-- The type of a new object: the first datum of its key that has the source
type. -/
def transitionType (db : PolicyDb) (stype ttype tclass : UInt32) (name : List UInt8) :
    Option UInt32 :=
  (db.chain ⟨ttype, tclass, name⟩).bind (chainLookup (stypeBit stype))

end PolicyDb

/-! ## Chains before and after -/

section Chains

variable {bit other : Nat} {otype : UInt32} {datum : FilenameTransDatum}
  {rest : List FilenameTransDatum}

theorem chainLookup_cons (bit : Nat) (datum : FilenameTransDatum) (rest : List FilenameTransDatum) :
    chainLookup bit (datum :: rest) =
      if datum.stypes.testBit bit then some datum.otype else chainLookup bit rest := by
  unfold chainLookup
  rw [find?_cons]
  cases datum.stypes.testBit bit <;> rfl

/-- After the walk the source type has the new type. -/
theorem chainLookup_chainUpdate_self (bit : Nat) (otype : UInt32)
    (chain : List FilenameTransDatum) :
    chainLookup bit (chainUpdate bit otype chain) = some otype := by
  induction chain with
  | nil => rw [chainUpdate, chainLookup_cons, if_pos Nat.testBit_two_pow_self]
  | cons datum rest ih =>
    rw [chainUpdate]
    by_cases has : datum.stypes.testBit bit
    · rw [if_pos has, chainLookup_cons, if_pos has]
    · rw [if_neg has]
      by_cases sameType : datum.otype = otype
      · rw [if_pos sameType, chainLookup_cons, if_pos (by simp), sameType]
      · rw [if_neg sameType, chainLookup_cons, if_neg has, ih]

/-- The datum that gets overwritten also decides the type of another source. -/
def Shares (bit other : Nat) (otype : UInt32) (chain : List FilenameTransDatum) : Prop :=
  ∃ before datum after, chain = before ++ datum :: after ∧
    (∀ earlier ∈ before, earlier.stypes.testBit bit = false ∧ earlier.otype ≠ otype ∧
      earlier.stypes.testBit other = false) ∧
    datum.stypes.testBit bit = true ∧ datum.stypes.testBit other = true ∧ datum.otype ≠ otype

theorem not_shares_nil : ¬ Shares bit other otype [] := by
  rintro ⟨before, datum, after, split, _⟩
  cases before <;> cases split

theorem shares_cons_of_has (has : datum.stypes.testBit bit = true) :
    Shares bit other otype (datum :: rest) ↔
      datum.stypes.testBit other = true ∧ datum.otype ≠ otype := by
  constructor
  · rintro ⟨before, shared, after, split, earlier, _, hasOther, otherType⟩
    cases before with
    | nil =>
      cases split
      exact ⟨hasOther, otherType⟩
    | cons first before =>
      cases split
      have lacks := (earlier _ mem_cons_self).1
      rw [has] at lacks
      cases lacks
  · rintro ⟨hasOther, otherType⟩
    exact ⟨[], datum, rest, rfl, fun _ mem => absurd mem not_mem_nil, has, hasOther, otherType⟩

theorem shares_cons_of_lacks (lacks : datum.stypes.testBit bit = false) :
    Shares bit other otype (datum :: rest) ↔
      datum.otype ≠ otype ∧ datum.stypes.testBit other = false ∧ Shares bit other otype rest := by
  constructor
  · rintro ⟨before, shared, after, split, earlier, has, hasOther, otherType⟩
    cases before with
    | nil =>
      cases split
      rw [lacks] at has
      cases has
    | cons first before =>
      cases split
      have here := earlier _ mem_cons_self
      exact ⟨here.2.1, here.2.2, before, shared, after, rfl,
        fun e mem => earlier e (mem_cons_of_mem _ mem), has, hasOther, otherType⟩
  · rintro ⟨otherType, lacksOther, before, shared, after, rfl, earlier, rest⟩
    refine ⟨datum :: before, shared, after, rfl, ?_, rest⟩
    exact forall_mem_cons.mpr ⟨⟨lacks, otherType, lacksOther⟩, earlier⟩

/-- Another source keeps its type unless it shares the overwritten datum. -/
theorem chainLookup_chainUpdate_iff (ne : other ≠ bit) (chain : List FilenameTransDatum) :
    chainLookup other (chainUpdate bit otype chain) = chainLookup other chain ↔
      ¬ Shares bit other otype chain := by
  induction chain with
  | nil =>
    rw [chainUpdate, chainLookup_cons, Nat.testBit_two_pow_of_ne ne.symm]
    exact iff_of_true rfl not_shares_nil
  | cons datum rest ih =>
    rw [chainUpdate]
    cases has : datum.stypes.testBit bit with
    | true =>
      rw [if_pos rfl, chainLookup_cons, chainLookup_cons, shares_cons_of_has has]
      cases datum.stypes.testBit other with
      | true => simp [eq_comm]
      | false => simp
    | false =>
      rw [if_neg Bool.false_ne_true, shares_cons_of_lacks has]
      by_cases sameType : datum.otype = otype
      · rw [if_pos sameType, chainLookup_cons, chainLookup_cons]
        simp [sameType, Nat.testBit_two_pow_of_ne ne.symm]
      · rw [if_neg sameType, chainLookup_cons, chainLookup_cons]
        cases datum.stypes.testBit other with
        | true => simp
        | false => simp [sameType, ih]

end Chains

/-! ## What survives the string -/

namespace KeyFrame

variable (frame : KeyFrame) {ttype tclass : UInt32} {key : FilenameTransKey}

/-- The bytes before the first zero byte reach the table, followed by zeros. -/
theorem window_buffer (ttype tclass : UInt32) {start count : Nat} (inside : start + count ≤ 255) :
    window (frame.buffer ttype tclass) start count = window (frame.text ttype tclass) start count ++
        zeros (count - ((frame.text ttype tclass).length - start)) := by
  unfold buffer window
  generalize frame.text ttype tclass = text
  simp only [drop_append, take_append, drop_take, take_take, zeros,
    drop_replicate, take_replicate, length_take, length_drop]
  congr 2 <;> omega

/-- The key reaches the table as it is: neither number has a zero byte, no byte
of the address that is zero comes before one that is not, and all of it is
UTF-8. -/
structure Survives (ttype tclass : UInt32) : Prop where
  isText : (fromUtf8 (frame.text ttype tclass)).isSome = true
  ttypeBytes : 0 ∉ leBytes 4 ttype.toNat
  tclassBytes : 0 ∉ leBytes 4 tclass.toNat
  address : ∃ front count, 0 ∉ front ∧ frame.nameAddress = front ++ zeros count

theorem takeWhile_of_notMem {front : List UInt8} (free : 0 ∉ front) (rest : List UInt8) :
    (front ++ rest).takeWhile (· ≠ 0) = front ++ rest.takeWhile (· ≠ 0) := by
  apply takeWhile_append_of_pos
  intro byte mem
  have nonzero : byte ≠ 0 := fun isZero => free (isZero ▸ mem)
  exact decide_eq_true nonzero

theorem zero_notMem_text (ttype tclass : UInt32) : 0 ∉ frame.text ttype tclass := by
  intro mem
  have holds := mem_takeWhile_imp mem
  simp at holds

variable {frame}

/-- A key that survives starts the string with its bytes, up to the zeros that
end its address. -/
theorem Survives.text_eq (survives : frame.Survives ttype tclass) :
    ∃ front count extra, frame.nameAddress = front ++ zeros count ∧ frame.text ttype tclass =
        leBytes 4 ttype.toNat ++ (leBytes 4 tclass.toNat ++ (front ++ extra)) ∧
      (count ≠ 0 → extra = []) := by
  rcases survives.address with ⟨front, count, free, address⟩
  refine ⟨front, count, (zeros count ++ frame.beyond).takeWhile (· ≠ 0), address, ?_, ?_⟩
  · rw [text, bytes, address]
    simp only [append_assoc]
    rw [takeWhile_of_notMem survives.ttypeBytes, takeWhile_of_notMem survives.tclassBytes,
      takeWhile_of_notMem free]
  · intro some
    rcases Nat.exists_eq_succ_of_ne_zero some with ⟨more, rfl⟩
    rfl

theorem Survives.window_address (survives : frame.Survives ttype tclass) :
    window (frame.buffer ttype tclass) 8 frame.nameAddress.length = frame.nameAddress := by
  rcases survives.text_eq with ⟨front, count, extra, address, textEq, atEnd⟩
  have sized := frame.pointerSized
  have parts := congrArg length address
  have textLength := congrArg length textEq
  simp only [length_append, length_leBytes, length_zeros] at parts textLength
  have seen : window (frame.text ttype tclass) 8 frame.nameAddress.length =
      (front ++ extra).take frame.nameAddress.length := by
    rw [textEq, window_append_right (by rw [length_leBytes]; omega), length_leBytes,
      window_append_right (by rw [length_leBytes]), length_leBytes, window_zero]
  rw [frame.window_buffer ttype tclass (by omega), seen]
  by_cases unpadded : count = 0
  · have same : frame.nameAddress = front := by
      rw [address, unpadded]
      exact append_nil front
    have filled : frame.nameAddress.length - ((frame.text ttype tclass).length - 8) = 0 := by
      omega
    rw [filled, same, take_left]
    exact append_nil front
  · rw [atEnd unpadded, append_nil, take_of_length_le (by omega)]
    have missing : frame.nameAddress.length - ((frame.text ttype tclass).length - 8) = count := by
      rw [atEnd unpadded, length_nil] at textLength
      omega
    rw [missing, ← address]

theorem ofNat_ofLe_leBytes (value : UInt32) :
    UInt32.ofNat (ofLe (leBytes 4 value.toNat)) = value := by
  rw [ofLe_leBytes_of_lt value.toNat_lt, UInt32.ofNat_toNat]

/-- What survives is what the table looks for. -/
theorem Survives.handOver_eq (survives : frame.Survives key.ttype key.tclass) :
    frame.handOver key = .ok key := by
  rcases survives.text_eq with ⟨front, _, extra, _, textEq, _⟩
  have textLength := congrArg length textEq
  simp only [length_append, length_leBytes] at textLength
  have seenType : window (frame.buffer key.ttype key.tclass) 0 4 = leBytes 4 key.ttype.toNat := by
    have complete : 4 - ((frame.text key.ttype key.tclass).length - 0) = 0 := by omega
    have part := window_append_middle [] (leBytes 4 key.ttype.toNat)
      (leBytes 4 key.tclass.toNat ++ (front ++ extra))
    rw [nil_append, length_nil, length_leBytes] at part
    rw [frame.window_buffer key.ttype key.tclass (by omega), complete, textEq]
    exact append_nil _
  have seenClass : window (frame.buffer key.ttype key.tclass) 4 4 = leBytes 4 key.tclass.toNat := by
    have complete : 4 - ((frame.text key.ttype key.tclass).length - 4) = 0 := by omega
    have part := window_append_middle (leBytes 4 key.ttype.toNat) (leBytes 4 key.tclass.toNat)
      (front ++ extra)
    rw [length_leBytes, length_leBytes] at part
    rw [frame.window_buffer key.ttype key.tclass (by omega), complete, textEq]
    exact append_nil _
  have isText : (fromUtf8 (frame.text key.ttype key.tclass)).isNone = false := by
    rw [← Option.not_isSome, survives.isText]
    rfl
  simp only [handOver, isText, survives.window_address, seenType, seenClass,
    ofNat_ofLe_leBytes, Bool.false_eq_true, if_false, ne_eq, not_true]

/-- A string that is longer than the two numbers starts with them. -/
theorem bytes_subset_text (long : 8 ≤ (frame.text ttype tclass).length) :
    leBytes 4 ttype.toNat ++ leBytes 4 tclass.toNat ⊆ frame.text ttype tclass := by
  have front : frame.text ttype tclass = (frame.bytes ttype tclass ++ frame.beyond).take
      (frame.text ttype tclass).length :=
    prefix_iff_eq_take.mp ( takeWhile_prefix _)
  have numbers : (frame.text ttype tclass).take 8 =
      leBytes 4 ttype.toNat ++ leBytes 4 tclass.toNat := by
    calc
      (frame.text ttype tclass).take 8 =
          (frame.bytes ttype tclass ++ frame.beyond).take 8 := by
        have shorter := congrArg (List.take 8) front
        rw [take_take, Nat.min_eq_left long] at shorter
        exact shorter
      _ = leBytes 4 ttype.toNat ++ leBytes 4 tclass.toNat := by
        rw [bytes, ← append_assoc, append_assoc]
        exact take_left' (by rw [length_append, length_leBytes, length_leBytes])
  rw [← numbers]
  exact take_subset 8 _

/-- Nothing else gets past the check of the address. -/
theorem survives_of_handOver (ran : frame.handOver key = .ok seen) :
    frame.Survives key.ttype key.tclass := by
  rw [handOver] at ran
  split at ran
  · cases ran
  · rename_i isText
    dsimp only at ran
    split at ran
    · cases ran
    · rename_i address
      have sized := frame.pointerSized
      rw [not_not, frame.window_buffer key.ttype key.tclass (by omega)] at address
      rcases frame.notNull with ⟨byte, mem, nonzero⟩
      rw [← address, mem_append] at mem
      have copied := mem.resolve_right fun zero => nonzero (eq_zero_of_mem_zeros zero)
      have long : 8 ≤ (frame.text key.ttype key.tclass).length := by
        have positive := length_pos_of_mem copied
        rw [window, length_take, length_drop] at positive
        omega
      have numbers := bytes_subset_text long
      refine ⟨?_, ?_, ?_, _, _, ?_, address.symm⟩
      · rw [Option.isSome_iff_ne_none]
        intro none
        exact isText (Option.isNone_iff_eq_none.mpr none)
      · exact fun zero => frame.zero_notMem_text _ _ (numbers (mem_append_left _ zero))
      · exact fun zero => frame.zero_notMem_text _ _ (numbers (mem_append_right _ zero))
      · exact fun zero => frame.zero_notMem_text _ _ (mem_of_mem_drop (mem_of_mem_take zero))

end KeyFrame

/-! ## The table before and after -/

theorem stypeBit_injective : Function.Injective stypeBit := by
  intro first second same
  have shifted : first - 1 = second - 1 := UInt32.toNat_inj.mp same
  grind

theorem symbolKey_of_short {name : String} (short : (utf8 name).length < 256) :
    symbolKey name = cString name := by
  rw [symbolKey, take_of_length_le (by omega), cString]

namespace PolicyDb

variable (db : PolicyDb) {key other : FilenameTransKey} (bit : Nat) (otype : UInt32)

theorem chain_insertTrans_self : (db.insertTrans key key bit otype).chain key =
      some (chainUpdate bit otype ((db.chain key).getD [])) := by
  unfold insertTrans
  split
  · rename_i absent
    rw [absent, chain, values_cons_self]
    rfl
  · rename_i found present
    rw [present, chain, values_editFirst_self]
    unfold chain at present
    cases stored : values key db.filenameTrans with
    | nil =>
      rw [stored] at present
      cases present
    | cons first rest =>
      rw [stored, head?_cons, Option.some.injEq] at present
      subst first
      rfl

theorem chain_insertTrans_of_ne (ne : other ≠ key) :
    (db.insertTrans key key bit otype).chain other = db.chain other := by
  unfold insertTrans
  split
  · rw [chain, values_cons_of_ne ne.symm]
    rfl
  · rw [chain, values_editFirst_of_ne ne]
    rfl

variable {db} {s t c d o : String} {src tgt dflt : TypeDatum} {cls : ClassDatum}

/-- Four names that exist. -/
structure NamesRule (db : PolicyDb) (s t c d : String) (src tgt : TypeDatum) (cls : ClassDatum)
    (dflt : TypeDatum) : Prop where
  source : hashtabFind db.types s = some src
  target : hashtabFind db.types t = some tgt
  classFound : hashtabFind db.classes c = some cls
  default : hashtabFind db.types d = some dflt

section

variable (names : NamesRule db s t c d src tgt cls dflt)
include names

theorem NamesRule.findSymbols_eq :
    db.findSymbols s t c d = .ok (src, tgt, cls, dflt) := by
  simp only [findSymbols, names.source, names.target, names.classFound, names.default]

theorem typeTransition_eq {frame : KeyFrame} (named : o ≠ "") (short : (utf8 o).length < 256)
    (survives : frame.Survives tgt.value cls.value) :
    db.typeTransition frame s t c d o =
      .ok (db.insertTrans ⟨tgt.value, cls.value, cString o⟩ ⟨tgt.value, cls.value, cString o⟩
        (stypeBit src.value) dflt.value) := by
  have handed : frame.handOver ⟨tgt.value, cls.value, cString o⟩ =
      .ok ⟨tgt.value, cls.value, cString o⟩ :=
    survives.handOver_eq
  rw [typeTransition, if_pos named, addFilenameTrans, names.findSymbols_eq]
  simp only [symbolKey_of_short short, handed, orWarn]

/-- A statement that comes back found its key. -/
theorem survives_of_typeTransition {frame : KeyFrame} {after : PolicyDb} (named : o ≠ "")
    (ran : db.typeTransition frame s t c d o = .ok after) : frame.Survives tgt.value cls.value := by
  rw [typeTransition, if_pos named, addFilenameTrans, names.findSymbols_eq] at ran
  dsimp only at ran
  cases handed : frame.handOver ⟨tgt.value, cls.value, symbolKey o⟩ with
  | ok seen => exact KeyFrame.survives_of_handOver handed
  | error stop =>
    rw [handed] at ran
    unfold KeyFrame.handOver at handed
    dsimp only at handed
    split at handed
    · cases handed
      cases ran
    · split at handed
      · cases handed
        cases ran
      · cases handed

end

theorem transitionType_insertTrans_self (stype : UInt32) :
    (db.insertTrans key key bit otype).transitionType stype key.ttype key.tclass key.name =
      chainLookup (stypeBit stype) (chainUpdate bit otype ((db.chain key).getD [])) := by
  rw [transitionType, chain_insertTrans_self]
  rfl

theorem transitionType_eq (stype : UInt32) : db.transitionType stype key.ttype key.tclass key.name =
      chainLookup (stypeBit stype) ((db.chain key).getD []) := by
  unfold transitionType
  cases db.chain key <;> rfl

/-- The statement sets the type of its own quadruple and of no other exactly
when its key survives the way to the table and no other source shares the datum
that is overwritten. -/
theorem typeTransition_iff (frame : KeyFrame) (names : NamesRule db s t c d src tgt cls dflt)
    (named : o ≠ "") (short : (utf8 o).length < 256) :
    (∃ after, db.typeTransition frame s t c d o = .ok after ∧
        after.transitionType src.value tgt.value cls.value (cString o) = some dflt.value ∧
        ∀ stype ttype tclass name,
          (stype, ttype, tclass, name) ≠ (src.value, tgt.value, cls.value, cString o) →
            after.transitionType stype ttype tclass name =
              db.transitionType stype ttype tclass name) ↔
      frame.Survives tgt.value cls.value ∧ ∀ other, other ≠ src.value →
          ¬ Shares (stypeBit src.value) (stypeBit other) dflt.value
            ((db.chain ⟨tgt.value, cls.value, cString o⟩).getD []) := by
  generalize keyEq : (⟨tgt.value, cls.value, cString o⟩ : FilenameTransKey) = key
  have parts : tgt.value = key.ttype ∧ cls.value = key.tclass ∧ cString o = key.name := by
    rw [← keyEq]
    exact ⟨rfl, rfl, rfl⟩
  constructor
  · rintro ⟨after, ran, _, kept⟩
    have survives := survives_of_typeTransition names named ran
    refine ⟨survives, ?_⟩
    intro other ne
    rw [typeTransition_eq names named short survives, keyEq, Except.ok.injEq] at ran
    have same := kept other key.ttype key.tclass key.name (by simp [ne])
    rw [← ran, transitionType_insertTrans_self, transitionType_eq] at same
    exact (chainLookup_chainUpdate_iff (stypeBit_injective.ne ne) _).mp same
  · rintro ⟨survives, apart⟩
    refine ⟨_, typeTransition_eq names named short survives, ?_, ?_⟩
    · rw [parts.1, parts.2.1, parts.2.2, transitionType_insertTrans_self]
      exact chainLookup_chainUpdate_self _ _ _
    · intro stype ttype tclass name ne
      rw [keyEq]
      by_cases sameKey : (⟨ttype, tclass, name⟩ : FilenameTransKey) = key
      · rw [← keyEq] at sameKey
        cases sameKey
        rw [parts.1, parts.2.1, parts.2.2, transitionType_insertTrans_self, transitionType_eq]
        have otherSource : stype ≠ src.value := by
          intro sameSource
          exact ne (by rw [sameSource])
        exact (chainLookup_chainUpdate_iff (stypeBit_injective.ne otherSource) _).mpr
          (apart stype otherSource)
      · rw [transitionType, chain_insertTrans_of_ne _ _ _ sameKey]
        rfl

/-! ## A policy without filename transitions -/

/-- A key on the stack of a 64-bit process. -/
def stackFrame : KeyFrame where
  nameAddress := [0x50, 0x3a, 0x2e, 0x61, 0x7e, 0, 0, 0]
  pointerSized := by decide
  notNull := ⟨0x50, by decide, by decide⟩
  beyond := []

/-- The types `a`, `b` and `d` and the class `file`. -/
def namedPolicy (b file : UInt32) : PolicyDb where
  policyvers := 30
  types := [(utf8 "a", ⟨1, .type⟩), (utf8 "b", ⟨b, .type⟩), (utf8 "d", ⟨3, .type⟩)]
  classes := [(utf8 "file", ⟨file, [], none⟩)]
  teAvtab := ⟨[], 0⟩

theorem namesRule_namedPolicy (b file : UInt32) :
    NamesRule (namedPolicy b file) "a" "b" "file" "d" ⟨1, .type⟩ ⟨b, .type⟩ ⟨file, [], none⟩
      ⟨3, .type⟩ := by
  constructor <;> rfl

/-- Numbers without a zero byte survive. -/
theorem survives_stackFrame : stackFrame.Survives 0x01010101 0x01010101 := by
  refine ⟨by decide +kernel, by decide, by decide, [0x50, 0x3a, 0x2e, 0x61, 0x7e], 3, by decide, rfl⟩

theorem typeTransition_iff_largeKey :
    ∃ after, (namedPolicy 0x01010101 0x01010101).typeTransition stackFrame "a" "b" "file" "d" "x" =
        .ok after ∧
      after.transitionType 1 0x01010101 0x01010101 (cString "x") = some 3 ∧
      ∀ stype ttype tclass name,
        (stype, ttype, tclass, name) ≠ (1, 0x01010101, 0x01010101, cString "x") →
          after.transitionType stype ttype tclass name =
            (namedPolicy 0x01010101 0x01010101).transitionType stype ttype tclass name :=
  (typeTransition_iff stackFrame (namesRule_namedPolicy 0x01010101 0x01010101) (by decide)
    (by decide)).mpr ⟨survives_stackFrame, fun _ _ => not_shares_nil⟩

/-- With the numbers a policy really has, only the low bytes of the target type
reach the table, and the name is read through a null pointer. -/
theorem typeTransition_smallKey :
    NamesRule (namedPolicy 2 1) "a" "b" "file" "d" ⟨1, .type⟩ ⟨2, .type⟩ ⟨1, [], none⟩ ⟨3, .type⟩ ∧
      (utf8 "x").length < 256 ∧
      (namedPolicy 2 1).typeTransition stackFrame "a" "b" "file" "d" "x" = .error .fault :=
  ⟨namesRule_namedPolicy 2 1, by decide, by decide +kernel⟩

end PolicyDb

end Magisk.SePolicy
