import Magisk.SePolicy.PrintedXperm

/-!
# Printed rules that mean the same

Filename transitions are printed with one line for each source of the first datum
of their chain.  They come back exactly when the key survives the search that each
line makes and no source is left to the later data of the chain.  Together with the
nodes of the access vector table this says which printed rules mean the same after
they were loaded into a policy without them.
-/

namespace Magisk.SePolicy

open List Bytes

/-! ## Filename transitions -/

/-- The texts under which a filename transition is printed. -/
structure TransNames (index : SymbolIndex) (key : FilenameTransKey) (otype : UInt32)
    (t c d o : String) : Prop where
  target : ofValue index.typeNames key.ttype.toNat = some (utf8 t)
  found : ofValue index.classNames key.tclass.toNat = some (utf8 c)
  default : ofValue index.typeNames otype.toNat = some (utf8 d)
  object : key.name = utf8 o
  plain : ∀ name ∈ [t, c, d, o], PlainName name

/-- Everything but the chain of one key is as before. -/
structure OnlyChain (key : FilenameTransKey) (before after : PolicyDb) : Prop where
  rest : after = { before with
    filenameTrans := after.filenameTrans
    filenameTransCount := after.filenameTransCount }
  unchanged : ∀ other, other ≠ key → after.chain other = before.chain other

/-- Every type that has a name gets the same type for its new objects. -/
def SameTrans (index : SymbolIndex) (after : PolicyDb) (key : FilenameTransKey)
    (chain : List FilenameTransDatum) : Prop :=
  ∀ i name, index.typeNames i = some name →
    chainLookup i ((after.chain key).getD []) = chainLookup i chain

/-- The sources that are printed have plain names. -/
def PlainSources (index : SymbolIndex) (trans : FilenameTransDatum) : Prop :=
  ∀ i name, trans.stypes.testBit i = true → index.typeNames i = some name →
    ∃ text, utf8 text = name ∧ PlainName text

/-- A bit for which a line is printed. -/
def Printed (index : SymbolIndex) (trans : FilenameTransDatum) (i : Nat) : Prop :=
  trans.stypes.testBit i = true ∧ ∃ name, index.typeNames i = some name

/-- A chain of one datum that has the sources entered so far. -/
structure Entered (fresh : PolicyDb) (key : FilenameTransKey) (otype : UInt32) (done : Nat → Prop)
    (db : PolicyDb) : Prop where
  only : OnlyChain key fresh db
  lookup : ∀ i, chainLookup i ((db.chain key).getD []) = some otype ↔ done i
  shape : (db.chain key).getD [] = [] ∨ ∃ stypes, (db.chain key).getD [] = [⟨stypes, otype⟩]

section Transitions

variable {index : SymbolIndex} {fresh db : PolicyDb} {key : FilenameTransKey} {otype : UInt32}
  {i : Nat} {after : PolicyDb} {frame : KeyFrame} {list : List Nat}

  {trans : FilenameTransDatum} {done : Nat → Prop} {s t c d o : String}

theorem chainLookup_singleton (i : Nat) (stypes : Nat) (otype : UInt32) :
    chainLookup i [⟨stypes, otype⟩] = if stypes.testBit i then some otype else none := by
  rw [chainLookup_cons]
  rfl

theorem testBit_or_two_pow (stypes bit i : Nat) :
    (stypes ||| 2 ^ bit).testBit i = (stypes.testBit i || decide (bit = i)) := by
  rw [Nat.testBit_or, Nat.testBit_two_pow]

/-- One more source in a chain of at most one datum. -/
theorem chainUpdate_single {chain : List FilenameTransDatum}
    (shape : chain = [] ∨ ∃ stypes, chain = [⟨stypes, otype⟩]) (bit : Nat) :
    ∃ stypes, chainUpdate bit otype chain = [⟨stypes, otype⟩] ∧
      ∀ i, stypes.testBit i = true ↔ chainLookup i chain = some otype ∨ i = bit := by
  rcases shape with rfl | ⟨stypes, rfl⟩
  · refine ⟨2 ^ bit, rfl, fun i => ?_⟩
    rw [Nat.testBit_two_pow, decide_eq_true_iff]
    constructor
    · exact fun same => Or.inr same.symm
    · rintro (found | same)
      · cases found
      · exact same.symm
  · by_cases has : stypes.testBit bit = true
    · refine ⟨stypes, by rw [chainUpdate, if_pos has], fun i => ?_⟩
      rw [chainLookup_singleton]
      constructor
      · intro isSet
        exact Or.inl (if_pos isSet)
      · rintro (found | rfl)
        · by_contra clear
          rw [if_neg clear] at found
          cases found
        · exact has
    · refine ⟨stypes ||| 2 ^ bit, by rw [chainUpdate, if_neg has, if_pos rfl], fun i => ?_⟩
      rw [chainLookup_singleton, testBit_or_two_pow, Bool.or_eq_true, decide_eq_true_iff]
      constructor
      · rintro (isSet | same)
        · exact Or.inl (if_pos isSet)
        · exact Or.inr same.symm
      · rintro (found | same)
        · left
          by_contra clear
          rw [if_neg clear] at found
          cases found
        · exact Or.inr same.symm

/-- Entering one more source. -/
theorem Entered.insertTrans (entered : Entered fresh key otype done db) (bit : Nat) :
    Entered fresh key otype (fun i => done i ∨ i = bit) (db.insertTrans key key bit otype) := by
  rcases chainUpdate_single entered.shape bit with ⟨stypes, updated, bits⟩
  have chain : ((db.insertTrans key key bit otype).chain key).getD [] = [⟨stypes, otype⟩] := by
    rw [PolicyDb.chain_insertTrans_self, updated]
    rfl
  have rest : db.insertTrans key key bit otype = { db with
      filenameTrans := (db.insertTrans key key bit otype).filenameTrans
      filenameTransCount := (db.insertTrans key key bit otype).filenameTransCount } := by
    unfold PolicyDb.insertTrans
    split <;> rfl
  refine ⟨⟨?_, ?_⟩, ?_, Or.inr ⟨stypes, chain⟩⟩
  · rw [rest, entered.only.rest]
  · intro other ne
    rw [PolicyDb.chain_insertTrans_of_ne _ _ _ ne, entered.only.unchanged other ne]
  · intro i
    rw [chain, chainLookup_singleton, ← entered.lookup i, ← bits i]
    constructor
    · intro found
      by_contra clear
      rw [if_neg clear] at found
      cases found
    · exact fun isSet => if_pos isSet

theorem Entered.describes (entered : Entered fresh key otype done db)
    (describes : index.Describes fresh) : index.Describes db := by
  have same : db.types = fresh.types ∧ db.classes = fresh.classes := by
    rw [entered.only.rest]
    exact ⟨rfl, rfl⟩
  refine ⟨?_, ?_, describes.permNames, describes.permValues⟩
  · rw [same.1]
    exact describes.type
  · rw [same.2]
    exact describes.cls

section

variable (names : TransNames index key otype t c d o) (describes : index.Describes db)
  (source : index.typeNames i = some (utf8 s)) (plain : PlainName s)
include names describes source plain

/-- The names of a line lead back to the key, the type and the source. -/
theorem TransNames.namesRule :
    ∃ src tgt cls dflt, PolicyDb.NamesRule db s t c d src tgt cls dflt ∧ tgt.value = key.ttype ∧
      cls.value = key.tclass ∧ dflt.value = otype ∧ stypeBit src.value = i := by
  have plainOf := names.plain
  simp only [forall_mem_cons] at plainOf
  rcases describes.type i _ source with ⟨src, stored, value⟩
  rcases describes.findType names.target plainOf.1 with ⟨tgt, target, sameTarget⟩
  rcases describes.findClass names.found plainOf.2.1 with ⟨cls, found, sameClass, _⟩
  rcases describes.findType names.default plainOf.2.2.1 with ⟨dflt, default, sameType⟩
  refine ⟨src, tgt, cls, dflt, ⟨(plain.hashtabFind_eq _).trans stored, target, found, default⟩,
    UInt32.toNat_inj.mp sameTarget, UInt32.toNat_inj.mp sameClass, UInt32.toNat_inj.mp sameType, ?_⟩
  rw [stypeBit, toNat_sub_one (by omega), value]
  rfl

/-- A printed line enters its source. -/
theorem TransNames.typeTransition_eq (survives : frame.Survives key.ttype key.tclass) :
    db.typeTransition frame s t c d o = .ok (db.insertTrans key key i otype) := by
  rcases names.namesRule describes source plain with
    ⟨src, tgt, cls, dflt, rule, sameTarget, sameClass, sameType, bit⟩
  have object : PlainName o := names.plain o (by simp)
  have sameKey : (⟨tgt.value, cls.value, cString o⟩ : FilenameTransKey) = key := by
    rw [sameTarget, sameClass, ← symbolKey_of_short object.short, object.symbolKey_eq,
      ← names.object]
  rw [PolicyDb.typeTransition_eq rule object.ne_empty object.short
    (by rwa [sameTarget, sameClass]), sameKey, bit, sameType]

/-- A printed line that is loaded found its key. -/
theorem TransNames.survives (ran : db.typeTransition frame s t c d o = .ok after) :
    frame.Survives key.ttype key.tclass := by
  rcases names.namesRule describes source plain with
    ⟨src, tgt, cls, dflt, rule, sameTarget, sameClass, _, _⟩
  have survives := PolicyDb.survives_of_typeTransition rule (names.plain o (by simp)).ne_empty ran
  rwa [sameTarget, sameClass] at survives

end

/-- A line of a filename transition. -/
theorem loadRules_transition (frame : KeyFrame) (others : PolicyDb → Call → Except Stop PolicyDb)
    (names : ∀ name ∈ [s, t, c, d, o], IsName name) (db : PolicyDb) (rest : List UInt8) :
    db.loadRules frame others
        (line [utf8 "type_transition", utf8 s, utf8 t, utf8 c, utf8 d, utf8 o] ++ rest) =
      match db.typeTransition frame s t c d o with
      | .ok after => after.loadRules frame others rest
      | .error stop => .error stop := by
  have tokens : lineTokens (Specified.transition.statement :: [s, t, c, d, o]) =
      [.TT, .ID s, .ID t, .ID c, .ID d, .ID o] := by
    rw [lineTokens_cons, Specified.extractToken_statement, lineTokens_names names]
    rfl
  have parsed : execStatement (lineTokens (Specified.transition.statement :: [s, t, c, d, o])) =
      .ok (.typeTransition s t c d o) := by
    rw [tokens]
    exact execStatement_eq_ok_iff.mpr ⟨.transition s t c d (some o), rfl, rfl⟩
  exact loadRules_statement frame others (isLine_names .transition names) parsed db rest

/-- The line that is printed for a bit. -/
def transLine (index : SymbolIndex) (trans : FilenameTransDatum) (t c d o : String) (i : Nat) :
    List UInt8 :=
  if trans.stypes.testBit i then
    match index.typeNames i with
    | some src => line [utf8 "type_transition", src, utf8 t, utf8 c, utf8 d, utf8 o]
    | none => []
  else []

theorem TransNames.printFilenameTrans_eq (names : TransNames index key trans.otype t c d o) :
    printFilenameTrans index key trans =
      (List.range trans.stypes.size).flatMap (transLine index trans t c d o) := by
  simp only [printFilenameTrans, names.target, names.found, names.default, names.object]
  rfl

theorem transLine_of_not_printed (silent : ¬ Printed index trans i) :
    transLine index trans t c d o i = [] := by
  unfold transLine
  split
  · rename_i isSet
    split
    · rename_i src named
      exact absurd ⟨isSet, src, named⟩ silent
    · rfl
  · rfl

theorem transLine_of_printed (plain : PlainSources index trans) (printed : Printed index trans i) :
    ∃ s, index.typeNames i = some (utf8 s) ∧ PlainName s ∧ transLine index trans t c d o i =
        line [utf8 "type_transition", utf8 s, utf8 t, utf8 c, utf8 d, utf8 o] := by
  rcases printed with ⟨isSet, name, named⟩
  rcases plain i name isSet named with ⟨s, rfl, isPlain⟩
  refine ⟨s, named, isPlain, ?_⟩
  simp only [transLine, if_pos isSet, named]

theorem TransNames.areNames (names : TransNames index key otype t c d o) (plain : PlainName s) :
    ∀ name ∈ [s, t, c, d, o], IsName name := by
  intro name mem
  rcases mem_cons.mp mem with rfl | mem
  · exact plain.isName
  · exact (names.plain name mem).isName

/-- The lines enter the sources they are printed for. -/
theorem exists_loadRules_transLines (frame : KeyFrame)
    (others : PolicyDb → Call → Except Stop PolicyDb) (describes : index.Describes fresh)
    (names : TransNames index key trans.otype t c d o) (plain : PlainSources index trans)
    (survives : ∀ i ∈ list, Printed index trans i → frame.Survives key.ttype key.tclass)
    (entered : Entered fresh key trans.otype done db) :
    ∃ after, db.loadRules frame others (list.flatMap (transLine index trans t c d o)) = .ok after ∧
      Entered fresh key trans.otype (fun i => done i ∨ i ∈ list ∧ Printed index trans i) after := by
  induction list generalizing db done with
  | nil =>
    refine ⟨db, rfl, ?_⟩
    simpa using entered
  | cons i rest ih =>
    have later := fun j mem => survives j (mem_cons_of_mem i mem)
    rw [flatMap_cons]
    by_cases printed : Printed index trans i
    · rcases transLine_of_printed (t := t) (c := c) (d := d) (o := o) plain printed with
        ⟨s, source, isPlain, text⟩
      have entering := names.typeTransition_eq (entered.describes describes) source isPlain
        (survives i mem_cons_self printed)
      rcases ih later (entered.insertTrans i) with ⟨after, loaded, complete⟩
      refine ⟨after, ?_, ?_⟩
      · rw [text, loadRules_transition frame others (names.areNames isPlain), entering]
        exact loaded
      · refine ⟨complete.only, fun j => ?_, complete.shape⟩
        rw [complete.lookup j, mem_cons, or_assoc, or_and_right]
        constructor
        · rintro (before | rfl | now)
          · exact Or.inl before
          · exact Or.inr (Or.inl ⟨rfl, printed⟩)
          · exact Or.inr (Or.inr now)
        · rintro (before | ⟨same, _⟩ | now)
          · exact Or.inl before
          · exact Or.inr (Or.inl same)
          · exact Or.inr (Or.inr now)
    · rw [transLine_of_not_printed printed]
      rcases ih later entered with ⟨after, loaded, complete⟩
      refine ⟨after, loaded, complete.only, fun j => ?_, complete.shape⟩
      rw [complete.lookup j, mem_cons, or_and_right]
      constructor
      · rintro (before | now)
        · exact Or.inl before
        · exact Or.inr (Or.inr now)
      · rintro (before | ⟨rfl, now⟩ | now)
        · exact Or.inl before
        · exact absurd now printed
        · exact Or.inr now

/-- If the lines are loaded and there is one, it found its key. -/
theorem survives_of_loadRules_transLines (frame : KeyFrame)
    (others : PolicyDb → Call → Except Stop PolicyDb) (describes : index.Describes db)
    (names : TransNames index key trans.otype t c d o) (plain : PlainSources index trans)
    (loaded : db.loadRules frame others (list.flatMap (transLine index trans t c d o)) = .ok after)
    (mem : i ∈ list) (printed : Printed index trans i) : frame.Survives key.ttype key.tclass := by
  induction list with
  | nil => cases mem
  | cons first rest ih =>
    rw [flatMap_cons] at loaded
    by_cases firstPrinted : Printed index trans first
    · rcases transLine_of_printed (t := t) (c := c) (d := d) (o := o) plain firstPrinted with
        ⟨s, source, isPlain, text⟩
      rw [text, loadRules_transition frame others (names.areNames isPlain)] at loaded
      cases ran : db.typeTransition frame s t c d o with
      | ok next => exact names.survives describes source isPlain ran
      | error stop =>
        rw [ran] at loaded
        cases loaded
    · rw [transLine_of_not_printed firstPrinted] at loaded
      rcases mem_cons.mp mem with rfl | mem
      · exact absurd printed firstPrinted
      · exact ih loaded mem

/-- The later data of a chain count for the types that no earlier datum has. -/
theorem chainLookup_eq_none_iff (i : Nat) (chain : List FilenameTransDatum) :
    chainLookup i chain = none ↔ ∀ datum ∈ chain, datum.stypes.testBit i = false := by
  rw [chainLookup, Option.map_eq_none_iff, find?_eq_none]
  simp only [Bool.not_eq_true]

/-- The sources of the first datum alone mean the same as the chain exactly when no
later datum has a source of its own. -/
theorem Entered.sameTrans_iff (entered : Entered fresh key trans.otype (Printed index trans) after)
    (rest : List FilenameTransDatum) :
    SameTrans index after key (trans :: rest) ↔
      ∀ datum ∈ rest, ∀ i, Printed index datum i → trans.stypes.testBit i = true := by
  have unset : ∀ {i}, ¬ trans.stypes.testBit i = true →
      chainLookup i ((after.chain key).getD []) = none := by
    intro i clear
    have missing : ¬ chainLookup i ((after.chain key).getD []) = some trans.otype :=
      fun found => clear ((entered.lookup i).mp found).1
    rcases entered.shape with empty | ⟨stypes, single⟩
    · rw [empty]
      rfl
    · rw [single, chainLookup_singleton] at missing ⊢
      exact if_neg fun isSet => missing (if_pos isSet)
  constructor
  · intro same datum mem i printed
    by_contra clear
    rcases printed with ⟨isSet, name, named⟩
    have found := same i name named
    rw [unset clear, chainLookup_cons, if_neg clear] at found
    have without := (chainLookup_eq_none_iff i rest).mp found.symm datum mem
    rw [isSet] at without
    cases without
  · intro covered i name named
    rw [chainLookup_cons]
    by_cases isSet : trans.stypes.testBit i = true
    · rw [if_pos isSet]
      exact (entered.lookup i).mpr ⟨isSet, name, named⟩
    · rw [if_neg isSet, unset isSet]
      apply Eq.symm
      rw [chainLookup_eq_none_iff]
      intro datum mem
      rw [Bool.eq_false_iff]
      exact fun later => isSet (covered datum mem i ⟨later, name, named⟩)

/-- A filename transition comes back exactly when its key survives the search, if a
line is printed, and every source is one of the first datum. -/
theorem recreated_trans_iff (frame : KeyFrame)
    (others : PolicyDb → Call → Except Stop PolicyDb) (describes : index.Describes fresh)
    (names : TransNames index key trans.otype t c d o) (plain : PlainSources index trans)
    (rest : List FilenameTransDatum) (absent : fresh.chain key = none) :
    (∃ after, fresh.loadRules frame others (printFilenameTrans index key trans) = .ok after ∧
      SameTrans index after key (trans :: rest) ∧ OnlyChain key fresh after) ↔
      ((∃ i, Printed index trans i) → frame.Survives key.ttype key.tclass) ∧
        ∀ datum ∈ rest, ∀ i, Printed index datum i → trans.stypes.testBit i = true := by
  have listed : ∀ {i}, Printed index trans i → i ∈ List.range trans.stypes.size := by
    intro i printed
    rw [mem_range]
    exact Nat.lt_size.mpr (Nat.ge_two_pow_of_testBit printed.1)
  have start : Entered fresh key trans.otype (fun _ => False) fresh := by
    refine ⟨⟨rfl, fun _ _ => rfl⟩, fun i => ?_, Or.inl ?_⟩
    · rw [absent]
      exact iff_of_false (by rintro ⟨⟩) id
    · rw [absent]
      rfl
  have loads : ((∃ i, Printed index trans i) → frame.Survives key.ttype key.tclass) →
      ∃ after, fresh.loadRules frame others (printFilenameTrans index key trans) = .ok after ∧
        Entered fresh key trans.otype (Printed index trans) after := by
    intro survives
    rcases exists_loadRules_transLines frame others describes names plain
      (fun i _ printed => survives ⟨i, printed⟩) start with ⟨after, loaded, entered⟩
    rw [names.printFilenameTrans_eq]
    refine ⟨after, loaded, entered.only, fun i => ?_, entered.shape⟩
    rw [entered.lookup i, false_or]
    exact and_iff_right_of_imp listed
  constructor
  · rintro ⟨after, loaded, same, _⟩
    have survives : (∃ i, Printed index trans i) → frame.Survives key.ttype key.tclass := by
      rintro ⟨i, printed⟩
      rw [names.printFilenameTrans_eq] at loaded
      exact survives_of_loadRules_transLines frame others describes names plain loaded
        (listed printed) printed
    rcases loads survives with ⟨reached, reachedBy, entered⟩
    rw [loaded, Except.ok.injEq] at reachedBy
    subst reachedBy
    exact ⟨survives, (entered.sameTrans_iff rest).mp same⟩
  · rintro ⟨survives, covered⟩
    rcases loads survives with ⟨after, loaded, entered⟩
    exact ⟨after, loaded, (entered.sameTrans_iff rest).mpr covered, entered.only⟩

end Transitions

/-! ## Rules -/

/-- What `print_rules` prints: a node of the access vector table, or a filename
transition with the first datum of its chain and the later ones. -/
inductive PrintedRule where
  | node (key : AvtabKey) (datum : AvtabDatum)
  | trans (key : FilenameTransKey) (head : FilenameTransDatum) (rest : List FilenameTransDatum)

namespace PrintedRule

/-- The text of a rule. -/
def text (index : SymbolIndex) : PrintedRule → List UInt8
  | .node key datum => printAvtab index key datum
  | .trans key head _ => printFilenameTrans index key head

/-- All names of a rule are plain, and a node of the kind of extended permissions
has an ioctl permission. -/
def Plain (index : SymbolIndex) : PrintedRule → Prop
  | .node key datum =>
    (∃ s t c, KeyNames index key s t c) ∧
      match key.specified.kind with
      | .av => PlainAv index key datum.data
      | .type => ∃ d, ofValue index.typeNames datum.data.toNat = some (utf8 d) ∧ PlainName d
      | .xperms => ∃ xperms, datum.xperms = some xperms ∧ xperms.specified ≠ .other
  | .trans key head _ =>
    (∃ t c d o, TransNames index key head.otype t c d o) ∧ PlainSources index head

/-- The policy has no such rule. -/
def Absent (fresh : PolicyDb) : PrintedRule → Prop
  | .node key _ => fresh.teAvtab.data key = []
  | .trans key _ _ => fresh.chain key = none

/-- The policy got the meaning of the rule and nothing else. -/
def SameMeaning (index : SymbolIndex) (before after : PolicyDb) : PrintedRule → Prop
  | .node key datum =>
    (match key.specified.kind with
      | .av => SameAv index after key datum.data
      | .type => after.teAvtab.word key = datum.data
      | .xperms => ∀ n, permits (after.teAvtab.data key) n = datum.permits n) ∧
      OnlyKey key before after
  | .trans key head rest => SameTrans index after key (head :: rest) ∧ OnlyChain key before after

/-- Loading the text of the rule recreates it. -/
def Recreated (index : SymbolIndex) (frame : KeyFrame)
    (others : PolicyDb → Call → Except Stop PolicyDb) (fresh : PolicyDb) (rule : PrintedRule) :
    Prop :=
  ∃ after, fresh.loadRules frame others (rule.text index) = .ok after ∧
    rule.SameMeaning index fresh after

/-- The rules that survive: extended permissions are empty, or known to the policy
and the same in decimal; a filename transition keeps its key on the way to the table
and has all sources in its first datum. -/
def Faithful (index : SymbolIndex) (frame : KeyFrame) (fresh : PolicyDb) : PrintedRule → Prop
  | .node key datum =>
    key.specified.kind = .xperms → ∀ xperms, datum.xperms = some xperms →
      xperms.perms = 0#256 ∨ xpermsIoctlVersion ≤ fresh.policyvers ∧ xperms.Decimal
  | .trans key head rest =>
    ((∃ i, Printed index head i) → frame.Survives key.ttype key.tclass) ∧
      ∀ datum ∈ rest, ∀ i, Printed index datum i → head.stypes.testBit i = true

section Recreated

variable {index : SymbolIndex} {fresh : PolicyDb} {key : AvtabKey} {s t c : String}

theorem printAvtab_eq (names : KeyNames index key s t c) (datum : AvtabDatum) :
    printAvtab index key datum =
      match key.specified.kind with
      | .av => printAv index key datum.data (utf8 s) (utf8 t) (utf8 c)
      | .type => printType index key datum.data (utf8 s) (utf8 t) (utf8 c)
      | .xperms => printXperms key datum.xperms (utf8 s) (utf8 t) (utf8 c) := by
  cases kind : key.specified.kind <;>
    simp only [printAvtab, names.source, names.target, names.found, kind]

theorem recreated_node_iff (frame : KeyFrame) (others : PolicyDb → Call → Except Stop PolicyDb)
    (describes : index.Describes fresh) {datum : AvtabDatum}
    (plain : (node key datum).Plain index) (absent : fresh.teAvtab.data key = []) :
    (node key datum).Recreated index frame others fresh ↔
      (node key datum).Faithful index frame fresh := by
  rcases plain with ⟨⟨s, t, c, names⟩, plain⟩
  simp only [Recreated, text, SameMeaning, Faithful, printAvtab_eq names]
  cases kind : key.specified.kind with
  | av =>
    simp only [kind] at plain
    exact iff_of_true (recreated_av frame others describes names kind plain absent) (by rintro ⟨⟩)
  | type =>
    simp only [kind] at plain
    rcases plain with ⟨d, default, plainDefault⟩
    exact iff_of_true (recreated_type frame others describes names kind default plainDefault absent)
      (by rintro ⟨⟩)
  | xperms =>
    simp only [kind] at plain
    rcases plain with ⟨xperms, stored, isIoctl⟩
    have meaning : datum.permits = xperms.permits := by
      funext n
      rw [AvtabDatum.permits, stored]
      rfl
    simp only [stored, meaning, Option.some.injEq, forall_eq', forall_const]
    exact recreated_xperms_iff frame others describes names kind isIoctl absent

/-- Of the rules that `print_rules` prints with plain names, those come back that
are faithful. -/
theorem recreated_iff (index : SymbolIndex) (frame : KeyFrame)
    (others : PolicyDb → Call → Except Stop PolicyDb) (fresh : PolicyDb) (rule : PrintedRule)
    (describes : index.Describes fresh) (plain : rule.Plain index) (absent : rule.Absent fresh) :
    rule.Recreated index frame others fresh ↔ rule.Faithful index frame fresh := by
  cases rule with
  | node key datum => exact recreated_node_iff frame others describes plain absent
  | trans key head rest =>
    rcases plain with ⟨⟨t, c, d, o, names⟩, sources⟩
    exact recreated_trans_iff frame others describes names sources rest absent

end Recreated

/-! ## Two nodes -/

/-- The arrays of `ioctlPolicy`. -/
def ioctlIndex : SymbolIndex where
  typeNames
    | 0 => some (utf8 "source")
    | 1 => some (utf8 "target")
    | _ => none
  classNames
    | 0 => some (utf8 "class")
    | _ => none
  classData
    | 0 => some ⟨1, [], none⟩
    | _ => none

theorem ioctlIndex_describes : ioctlIndex.Describes ioctlPolicy := by
  constructor
  · intro i name named
    match i with
    | 0 =>
      cases named
      exact ⟨⟨1, .type⟩, by decide, rfl⟩
    | 1 =>
      cases named
      exact ⟨⟨2, .type⟩, by decide, rfl⟩
    | _ + 2 => cases named
  · intro i name named
    match i with
    | 0 =>
      cases named
      exact ⟨⟨1, [], none⟩, by decide, rfl, rfl⟩
    | _ + 1 => cases named
  · intro i cls filed
    match i with
    | 0 =>
      cases filed
      exact nodup_nil
    | _ + 1 => cases filed
  · intro i cls filed
    match i with
    | 0 =>
      cases filed
      exact fun entry mem => absurd mem not_mem_nil
    | _ + 1 => cases filed

theorem plainName_of_all {text : String} (nonempty : text.toList ≠ [])
    (notKeyword : keywords.lookup text.toList = none)
    (solid : text.toList.all (fun c => isWhitespace c = false) = true)
    (free : ∀ mark ∈ delimiters, mark.1 ∉ text.toList) (notTilde : text.toList.head? ≠ some '~')
    (notNumber : ¬ ['0', 'x'] <+: text.toList) (noNul : 0 ∉ utf8 text)
    (short : (utf8 text).length < 256) : PlainName text :=
  ⟨⟨nonempty, notKeyword, by simpa using solid, free, notTilde, notNumber⟩, noNul, short⟩

/-- A node of `allowxperm source target class ioctl`. -/
def ioctlNode (driver : UInt8) (perms : BitVec 256) : PrintedRule :=
  .node ⟨1, 2, 1, .xpermsAllowed⟩ ⟨0, some ⟨.ioctlFunction, driver, perms⟩⟩

theorem ioctlNode_names : KeyNames ioctlIndex ⟨1, 2, 1, .xpermsAllowed⟩ "source" "target" "class" :=
  ⟨rfl, rfl, rfl,
    plainName_of_all (by decide) (by decide) (by decide) (by decide) (by decide) (by decide)
      (by decide) (by decide),
    plainName_of_all (by decide) (by decide) (by decide) (by decide) (by decide) (by decide)
      (by decide) (by decide),
    plainName_of_all (by decide) (by decide) (by decide) (by decide) (by decide) (by decide)
      (by decide) (by decide)⟩

theorem ioctlNode_plain (driver : UInt8) (perms : BitVec 256) :
    (ioctlNode driver perms).Plain ioctlIndex :=
  ⟨⟨_, _, _, ioctlNode_names⟩, _, rfl, by rintro ⟨⟩⟩

/-- Any function of the first driver up to the ninth comes back. -/
theorem recreated_iff_smallFunctions :
    (ioctlNode 0 0x00E#256).Recreated ioctlIndex PolicyDb.stackFrame (fun db _ => .ok db)
      ioctlPolicy := by
  have small : ∀ i, 10 ≤ i → (0x00E#256).getLsbD i = false := by
    intro i large
    rw [BitVec.getLsbD_ofNat, Nat.testBit_lt_two_pow (show 0x00E < 2 ^ i from
      Nat.lt_of_lt_of_le (by decide) (Nat.pow_le_pow_right (by decide) large)), Bool.and_false]
  apply (recreated_iff ioctlIndex PolicyDb.stackFrame (fun db _ => .ok db) ioctlPolicy _
    ioctlIndex_describes (ioctlNode_plain _ _) rfl).mpr
  rintro - xperms ⟨⟩
  exact Or.inr ⟨by decide, rfl, rfl, small⟩

/-- The function 0x10 of the driver 0x89 is printed as `0x8910` and loaded as the
function 0xCE of the driver 0x22. -/
theorem not_recreated_socketFunction : (ioctlNode 0x89 (1#256 <<< 0x10)).Plain ioctlIndex ∧
      ∃ after, ioctlPolicy.loadRules PolicyDb.stackFrame (fun db _ => .ok db)
          ((ioctlNode 0x89 (1#256 <<< 0x10)).text ioctlIndex) = .ok after ∧
        permits (after.teAvtab.data ⟨1, 2, 1, .xpermsAllowed⟩) 0x8910 = false ∧
        permits (after.teAvtab.data ⟨1, 2, 1, .xpermsAllowed⟩) 0x22CE = true ∧
        ¬ (ioctlNode 0x89 (1#256 <<< 0x10)).Recreated ioctlIndex PolicyDb.stackFrame
          (fun db _ => .ok db) ioctlPolicy := by
  refine ⟨ioctlNode_plain _ _, ?_⟩
  rcases loaded_xperms PolicyDb.stackFrame (fun db _ => .ok db) ioctlIndex_describes
    ioctlNode_names rfl rfl ⟨.ioctlFunction, 0x89, 1#256 <<< 0x10⟩ with ⟨after, loaded, permitted, _⟩
  refine ⟨after, ?_, ?_, ?_, ?_⟩
  · exact loaded
  · rw [permitted]
    decide +kernel
  · rw [permitted]
    decide +kernel
  · rw [ioctlNode, recreated_node_iff _ _ ioctlIndex_describes (ioctlNode_plain _ _) rfl]
    intro faithful
    rcases faithful rfl _ rfl with empty | ⟨_, decimal⟩
    · exact absurd empty (by decide)
    · exact absurd decimal.driver (by decide)

end PrintedRule

end Magisk.SePolicy
