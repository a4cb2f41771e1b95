import Magisk.SePolicy.Print

/-!
# Printed rules that are loaded again

What `print_rules` writes for a rule is loaded into a policy with the same symbols
that has no such rule.  Access vectors and type rules come back.  An extended
permission comes back only if all its numbers read the same in decimal, and a
filename transition only if its key survives the search and no source is left to
the later data of its chain.
-/

namespace Magisk.SePolicy

open PolicyDb List Bytes Text

variable {texts names : List String} {α : Type} {value j : Nat} {entries : Symtab PermDatum}
  {name : List UInt8} {src tgt : TypeDatum}

/-! ## Names -/

/-- A text that names something in the policy: an identifier for the lexer, and a
C string that fits into the buffer of `hashtab_find`. -/
structure PlainName (text : String) : Prop where
  isName : IsName text
  noNul : 0 ∉ utf8 text
  short : (utf8 text).length < 256

section Names

variable {text : String}

theorem PlainName.symbolKey_eq (plain : PlainName text) : symbolKey text = utf8 text := by
  have short := plain.short
  rw [symbolKey, take_of_length_le (by omega), takeWhile_eq_self_iff]
  intro byte mem
  have nonzero : byte ≠ 0 := fun isZero => plain.noNul (isZero ▸ mem)
  exact decide_eq_true nonzero

theorem PlainName.hashtabFind_eq (plain : PlainName text) (table : Symtab α) :
    hashtabFind table text = table.lookup (utf8 text) := by
  rw [hashtabFind, plain.symbolKey_eq]

theorem PlainName.ne_empty (plain : PlainName text) : text ≠ "" := by
  rintro rfl
  exact plain.isName.nonempty rfl

/-- Plain names have texts. -/
theorem exists_texts {names : List (List UInt8)}
    (plain : ∀ name ∈ names, ∃ text, utf8 text = name ∧ PlainName text) :
    ∃ texts : List String, texts.map utf8 = names ∧ ∀ text ∈ texts, PlainName text := by
  induction names with
  | nil => exact ⟨[], rfl, fun _ mem => absurd mem not_mem_nil⟩
  | cons name rest ih =>
    rcases plain name mem_cons_self with ⟨text, encodes, isPlain⟩
    rcases ih fun other mem => plain other (mem_cons_of_mem name mem) with
      ⟨texts, encode, arePlain⟩
    refine ⟨text :: texts, ?_, ?_⟩
    · rw [map_cons, encodes, encode]
    · exact forall_mem_cons.mpr ⟨isPlain, arePlain⟩

end Names

/-! ## Tokens of a line -/

theorem lineTokens_cons (word : String) (rest : List String) :
    lineTokens (word :: rest) = extractToken word.toList ++ lineTokens rest :=
  flatMap_cons

theorem lineTokens_append (left right : List String) :
    lineTokens (left ++ right) = lineTokens left ++ lineTokens right :=
  flatMap_append

theorem lineTokens_names (areNames : ∀ name ∈ names, IsName name) :
    lineTokens names = names.map Token.ID := by
  induction names with
  | nil => rfl
  | cons name rest ih =>
    rw [lineTokens_cons, (areNames name mem_cons_self).extractToken_eq,
      ih fun other mem => areNames other (mem_cons_of_mem name mem)]
    rfl

/-- The token a statement starts with. -/
def Specified.token : Specified → Token
  | .allowed => .AL
  | .auditallow => .AA
  | .auditdeny => .DA
  | .transition => .TT
  | .member => .TM
  | .change => .TC
  | .xpermsAllowed => .AX
  | .xpermsAuditallow => .AY
  | .xpermsDontaudit => .DX

theorem Specified.extractToken_statement (specified : Specified) :
    extractToken specified.statement.toList = [specified.token] := by
  apply extractToken_of_keyword
  cases specified <;> decide

/-- A statement whose words are words is a line. -/
theorem isLine_statement (specified : Specified) {rest : List String}
    (areWords : ∀ word ∈ rest, IsWord isWhitespace word.toList) :
    IsLine (specified.statement :: rest) := by
  have first : IsWord isWhitespace specified.statement.toList := by
    cases specified <;> exact isWord_of_all (by decide) (by decide)
  constructor
  · exact forall_mem_cons.mpr ⟨first, areWords⟩
  · have starts : ∃ c, specified.statement.toList.head? = some c ∧ c ≠ '#' := by
      cases specified <;> exact ⟨_, rfl, by decide⟩
    exact starts

theorem isWord_brace : IsWord isWhitespace "\x7b".toList ∧ IsWord isWhitespace "\x7d".toList :=
  ⟨isWord_of_all (by decide) (by decide), isWord_of_all (by decide) (by decide)⟩

section Load

variable (frame : KeyFrame) (others : PolicyDb → Call → Except Stop PolicyDb) {words : List String}
  {call : Call}

/-- A printed statement that parses is performed before the rest of the text. -/
theorem loadRules_statement (isLine : IsLine words)
    (parsed : execStatement (lineTokens words) = .ok call) (db : PolicyDb) (rest : List UInt8) :
    db.loadRules frame others (line (words.map utf8) ++ rest) =
      match db.perform frame others call with
      | .ok after => after.loadRules frame others rest
      | .error stop => .error stop := by
  have performed : db.loadRules frame others (line (words.map utf8) ++ rest) = _ :=
    isLine.loadRules_append db rest
  rw [isLine.parseStatement_eq, parsed] at performed
  exact performed

/-- A text of one statement. -/
theorem loadRules_line (isLine : IsLine words)
    (parsed : execStatement (lineTokens words) = .ok call) (db : PolicyDb) :
    db.loadRules frame others (line (words.map utf8)) = db.perform frame others call := by
  have whole := loadRules_statement frame others isLine parsed db []
  rw [append_nil] at whole
  rw [whole]
  cases db.perform frame others call <;> rfl

end Load

/-! ## Symbols -/

/-- What libsepol keeps true of its arrays: a name stands in its symbol table with
the value it is filed under, and the data filed for a class are those of its name.
No permission name occurs twice in a class and its common class, and the values of
permissions are bits of a word. -/
structure SymbolIndex.Describes (index : SymbolIndex) (db : PolicyDb) : Prop where
  type : ∀ i name, index.typeNames i = some name →
    ∃ datum, db.types.lookup name = some datum ∧ datum.value.toNat = i + 1
  cls : ∀ i name, index.classNames i = some name →
    ∃ datum, db.classes.lookup name = some datum ∧ datum.value.toNat = i + 1 ∧
      index.classData i = some datum
  permNames : ∀ i cls, index.classData i = some cls → (cls.perms.map Prod.fst).Nodup
  permValues : ∀ i cls, index.classData i = some cls → ∀ entry ∈ cls.perms,
    1 ≤ entry.2.value.toNat ∧ entry.2.value.toNat ≤ 32

/-- The texts under which the symbols of a key are printed. -/
structure KeyNames (index : SymbolIndex) (key : AvtabKey) (s t c : String) : Prop where
  source : ofValue index.typeNames key.sourceType.toNat = some (utf8 s)
  target : ofValue index.typeNames key.targetType.toNat = some (utf8 t)
  found : ofValue index.classNames key.targetClass.toNat = some (utf8 c)
  sourcePlain : PlainName s
  targetPlain : PlainName t
  classPlain : PlainName c

theorem ofValue_eq_some {array : Nat → Option α} {a : α} (found : ofValue array value = some a) :
    ∃ i, value = i + 1 ∧ array i = some a := by
  unfold ofValue at found
  split at found
  · cases found
  · exact ⟨value - 1, by omega, found⟩

theorem toUInt16_eq {value : UInt32} {key : UInt16} (same : value.toNat = key.toNat) :
    value.toUInt16 = key := by
  have bound := key.toNat_lt
  apply UInt16.toNat_inj.mp
  rw [UInt32.toNat_toUInt16]
  omega

section Symbols

variable {index : SymbolIndex} {db : PolicyDb} {key : AvtabKey} {s t c : String}

theorem SymbolIndex.Describes.findType (describes : index.Describes db) {text : String}
    (found : ofValue index.typeNames value = some (utf8 text)) (plain : PlainName text) :
    ∃ datum, hashtabFind db.types text = some datum ∧ datum.value.toNat = value := by
  rcases ofValue_eq_some found with ⟨i, rfl, named⟩
  rcases describes.type i _ named with ⟨datum, stored, same⟩
  exact ⟨datum, (plain.hashtabFind_eq _).trans stored, same⟩

theorem SymbolIndex.Describes.findClass (describes : index.Describes db) {text : String}
    (found : ofValue index.classNames value = some (utf8 text)) (plain : PlainName text) :
    ∃ datum, hashtabFind db.classes text = some datum ∧ datum.value.toNat = value ∧
      ofValue index.classData value = some datum := by
  rcases ofValue_eq_some found with ⟨i, rfl, named⟩
  rcases describes.cls i _ named with ⟨datum, stored, same, filed⟩
  refine ⟨datum, (plain.hashtabFind_eq _).trans stored, same, ?_⟩
  exact filed

/-- The printed names lead back to the key. -/
theorem KeyNames.named (names : KeyNames index key s t c) (describes : index.Describes db) :
    ∃ src tgt cls, Named db s t c src tgt cls ∧ avtabKey src tgt cls key.specified = key ∧
      ofValue index.classData key.targetClass.toNat = some cls := by
  rcases describes.findType names.source names.sourcePlain with ⟨src, source, sameSource⟩
  rcases describes.findType names.target names.targetPlain with ⟨tgt, target, sameTarget⟩
  rcases describes.findClass names.found names.classPlain with ⟨cls, found, sameClass, filed⟩
  refine ⟨src, tgt, cls, ⟨names.sourcePlain.ne_empty, names.targetPlain.ne_empty,
    names.classPlain.ne_empty, source, target, found⟩, ?_, filed⟩
  rw [avtabKey, toUInt16_eq sameSource, toUInt16_eq sameTarget, toUInt16_eq sameClass]

end Symbols

/-! ## Permissions of a class -/

theorem toNat_sub_one {value : UInt32} (positive : 1 ≤ value.toNat) :
    (value - 1).toNat = value.toNat - 1 := by
  have least : (1 : UInt32) ≤ value := UInt32.le_iff_toNat_le.mpr positive
  rw [UInt32.toNat_sub_of_le _ _ least]
  rfl

theorem fillNames_concat (entries : Symtab PermDatum) (entry : List UInt8 × PermDatum) :
    fillNames (entries ++ [entry]) =
      Function.update (fillNames entries) (entry.2.value - 1).toNat (some entry.1) := by
  rw [fillNames, foldl_append]
  rfl

/-- A name in the array is that of an entry with its value. -/
theorem mem_of_fillNames {i : Nat} (filled : fillNames entries i = some name) :
    ∃ entry ∈ entries, entry.1 = name ∧ (entry.2.value - 1).toNat = i := by
  induction entries using reverseRecOn with
  | nil => cases filled
  | append_singleton entries entry ih =>
    rw [fillNames_concat] at filled
    by_cases here : i = (entry.2.value - 1).toNat
    · rw [here, Function.update_self, Option.some.injEq] at filled
      exact ⟨entry, by simp, filled, here.symm⟩
    · rw [Function.update_of_ne here] at filled
      rcases ih filled with ⟨other, mem, equal⟩
      exact ⟨other, mem_append_left _ mem, equal⟩

/-- Every entry has a name in the array. -/
theorem fillNames_isSome {entry : List UInt8 × PermDatum} (mem : entry ∈ entries) :
    ∃ name, fillNames entries (entry.2.value - 1).toNat = some name := by
  induction entries using reverseRecOn with
  | nil => cases mem
  | append_singleton entries last ih =>
    rw [fillNames_concat]
    by_cases here : (entry.2.value - 1).toNat = (last.2.value - 1).toNat
    · exact ⟨last.1, by rw [here, Function.update_self]⟩
    · rw [Function.update_of_ne here]
      rcases mem_append.mp mem with mem | mem
      · exact ih mem
      · rw [mem_singleton] at mem
        exact absurd (by rw [mem]) here

/-- An entry of a table without double keys is found. -/
theorem lookup_of_mem {table : Symtab α} (distinct : (table.map Prod.fst).Nodup)
    {entry : List UInt8 × α} (mem : entry ∈ table) : table.lookup entry.1 = some entry.2 := by
  induction table with
  | nil => cases mem
  | cons first rest ih =>
    rw [map_cons, nodup_cons] at distinct
    rcases mem_cons.mp mem with rfl | mem
    · rw [lookup_cons_self]
    · have other : (entry.1 == first.1) = false := by
        rw [beq_eq_false_iff_ne]
        intro same
        exact distinct.1 (same ▸ mem_map_of_mem mem)
      rw [lookup_cons, other]
      exact ih distinct.2 mem

theorem findPerm_eq {text : String} (plain : PlainName text) (cls : ClassDatum) :
    findPerm cls text = cls.perms.lookup (utf8 text) := by
  rw [findPerm, plain.hashtabFind_eq, ClassDatum.perms, lookup_append]
  cases cls.permissions.lookup (utf8 text) with
  | some perm => rfl
  | none =>
    cases cls.comdatum with
    | none => rfl
    | some common => exact plain.hashtabFind_eq common

theorem mem_printedPerms_iff {cls : ClassDatum} {data : UInt32} : name ∈ printedPerms cls data ↔
      ∃ i < 32, data.toBitVec.getLsbD i = true ∧ cls.permNames i = some name := by
  rw [printedPerms, mem_filterMap]
  constructor
  · rintro ⟨i, mem, printed⟩
    split at printed
    · rename_i bit
      exact ⟨i, mem_range.mp mem, bit, printed⟩
    · cases printed
  · rintro ⟨i, inside, bit, named⟩
    exact ⟨i, mem_range.mpr inside, by rw [if_pos bit, named]⟩

/-! ## Words -/

theorem getLsbD_permBit {value : UInt32} (positive : 1 ≤ value.toNat) (bound : value.toNat ≤ 32)
    (inside : j < 32) :
    (1 <<< (value - 1) : UInt32).toBitVec.getLsbD j = decide (value.toNat = j + 1) := by
  have shift := toNat_sub_one positive
  have small : (value - 1).toBitVec % 32 = (value - 1).toBitVec := by
    apply BitVec.eq_of_toNat_eq
    change (value - 1).toNat % 32 = (value - 1).toNat
    omega
  have one : (UInt32.toBitVec 1) = 1#32 := rfl
  rw [UInt32.toBitVec_shiftLeft, small, BitVec.shiftLeft_eq', BitVec.getLsbD_shiftLeft,
    UInt32.toNat_toBitVec, one, BitVec.getLsbD_one]
  rw [Bool.eq_iff_iff]
  simp only [Bool.and_eq_true, Bool.not_eq_true', decide_eq_true_eq, decide_eq_false_iff_not]
  omega

/-- One permission sets or clears its bit. -/
theorem getLsbD_editWord {perm : PermDatum} (positive : 1 ≤ perm.value.toNat)
    (bound : perm.value.toNat ≤ 32) (invert : Bool) (word : UInt32) (inside : j < 32) :
    (editWord (some perm) invert word).toBitVec.getLsbD j =
      if invert then word.toBitVec.getLsbD j && !decide (perm.value.toNat = j + 1)
      else word.toBitVec.getLsbD j || decide (perm.value.toNat = j + 1) := by
  cases invert with
  | true =>
    simp only [editWord, if_true, UInt32.toBitVec_and, UInt32.toBitVec_not,
      BitVec.getLsbD_and, BitVec.getLsbD_not, getLsbD_permBit positive bound inside, inside,
      decide_true, Bool.true_and]
  | false =>
    simp only [editWord, Bool.false_eq_true, if_false, UInt32.toBitVec_or, BitVec.getLsbD_or,
      getLsbD_permBit positive bound inside]

/-- The permissions of a list set or clear their bits. -/
theorem getLsbD_foldl_editWord {perms : List PermDatum}
    (values : ∀ perm ∈ perms, 1 ≤ perm.value.toNat ∧ perm.value.toNat ≤ 32) (invert : Bool)
    (word : UInt32) (inside : j < 32) :
    (perms.foldl (fun word perm => editWord (some perm) invert word) word).toBitVec.getLsbD j =
      if invert then word.toBitVec.getLsbD j && !perms.any fun perm => perm.value.toNat = j + 1
      else word.toBitVec.getLsbD j || perms.any fun perm => perm.value.toNat = j + 1 := by
  induction perms generalizing word with
  | nil => simp
  | cons perm rest ih =>
    have value := values perm mem_cons_self
    rw [foldl_cons, ih fun other mem => values other (mem_cons_of_mem perm mem),
      getLsbD_editWord value.1 value.2 invert word inside, any_cons]
    cases invert with
    | true => simp only [if_true, Bool.not_or, Bool.and_assoc]
    | false => simp only [Bool.false_eq_true, if_false, Bool.or_assoc]

namespace Avtab

/-- Several edits of one key. -/
theorem foldl_editRule_self (key : AvtabKey) (invert : Bool) (perms : List PermDatum)
    {avtab : Avtab} (single : (avtab.data key).length ≤ 1) :
    (perms.foldl (fun avtab perm => avtab.editRule key (some perm) invert) avtab).word key =
      perms.foldl (fun word perm => editWord (some perm) invert word) (avtab.word key) := by
  induction perms generalizing avtab with
  | nil => rfl
  | cons perm rest ih =>
    have stillSingle : ((avtab.editRule key (some perm) invert).data key).length ≤ 1 := by
      rcases data_editRule_self avtab (some perm) invert single with ⟨datum, _, edited⟩
      rw [edited]
      split
      · exact Nat.zero_le 1
      · exact le_rfl
    rw [foldl_cons, foldl_cons, ih stillSingle, word_editRule_self _ _ _ single]

theorem data_foldl_editRule_of_ne {key other : AvtabKey} (ne : other ≠ key) (invert : Bool)
    (perms : List PermDatum) (avtab : Avtab) :
    (perms.foldl (fun avtab perm => avtab.editRule key (some perm) invert) avtab).data other =
      avtab.data other := by
  induction perms generalizing avtab with
  | nil => rfl
  | cons perm rest ih => rw [foldl_cons, ih, data_editRule_of_ne _ _ _ ne]

end Avtab

variable {s t c : String}

/-- A list of permissions edits the key that the names stand for. -/
theorem Named.foldl_addRule {db : PolicyDb} {cls : ClassDatum} (named : Named db s t c src tgt cls)
    (effect : Specified) (invert : Bool) (nonempty : ∀ text ∈ texts, text ≠ "") :
    texts.foldl (fun db p => (db.addRule s t c p effect invert).toOption.getD db) db =
      { db with
        teAvtab := (texts.filterMap (findPerm cls)).foldl
          (fun avtab perm => avtab.editRule (avtabKey src tgt cls effect) (some perm) invert)
          db.teAvtab } := by
  induction texts generalizing db with
  | nil => rfl
  | cons text rest ih =>
    have textNamed := nonempty text mem_cons_self
    have others := fun other mem => nonempty other (mem_cons_of_mem text mem)
    rw [foldl_cons]
    cases found : findPerm cls text with
    | some perm =>
      have added := AvStatement.addRule_eq effect invert named.sourceNamed named.targetNamed
        named.classNamed named.source named.target named.found
        (show resolvePerm (some cls) c text = .ok (some perm) by
          simp only [resolvePerm, if_neg textNamed, found])
      rw [added, filterMap_cons, found]
      exact ih ⟨named.sourceNamed, named.targetNamed, named.classNamed, named.source,
        named.target, named.found⟩ others
    | none =>
      have skipped : (db.addRule s t c text effect invert).toOption.getD db = db := by
        simp only [addRule, resolve, if_neg named.sourceNamed,
          if_neg named.targetNamed, if_neg named.classNamed, named.source, named.target,
          named.found, resolvePerm, if_neg textNamed, found, bind, Except.bind]
        rfl
      rw [skipped, filterMap_cons, found]
      exact ih named others

/-! ## Access vectors -/

/-- Everything but the nodes of one key is as before. -/
structure OnlyKey (key : AvtabKey) (before after : PolicyDb) : Prop where
  rest : after = { before with teAvtab := after.teAvtab }
  unchanged : ∀ other, other ≠ key → after.teAvtab.data other = before.teAvtab.data other

/-- An access vector has the same bit for every permission of its class. -/
def SameAv (index : SymbolIndex) (after : PolicyDb) (key : AvtabKey) (data : UInt32) : Prop :=
  ∀ cls, ofValue index.classData key.targetClass.toNat = some cls → ∀ entry ∈ cls.perms,
    (after.teAvtab.word key).toBitVec.getLsbD (entry.2.value - 1).toNat =
      data.toBitVec.getLsbD (entry.2.value - 1).toNat

/-- The names of the printed permissions are plain. -/
def PlainAv (index : SymbolIndex) (key : AvtabKey) (data : UInt32) : Prop :=
  ∀ cls, ofValue index.classData key.targetClass.toNat = some cls →
    ∀ name ∈ printedPerms cls (printedData key.specified data),
      ∃ text, utf8 text = name ∧ PlainName text

variable {specified : Specified}

/-- The action that makes an access vector. -/
theorem exists_avAction (isAv : specified.kind = .av) :
    ∃ action : AvAction, action.effect = specified ∧ action.token = specified.token ∧
      action.invert = decide (specified = .auditdeny) := by
  cases specified with
  | allowed => exact ⟨.allow, rfl, rfl, rfl⟩
  | auditallow => exact ⟨.auditallow, rfl, rfl, rfl⟩
  | auditdeny => exact ⟨.dontaudit, rfl, rfl, rfl⟩
  | _ => cases isAv

theorem perform_avCall (frame : KeyFrame) (others : PolicyDb → Call → Except Stop PolicyDb)
    (db : PolicyDb) (action : AvAction) (s t c p : List String) :
    db.perform frame others (action.call s t c p) =
      .ok (db.addRules action.effect action.invert s t c p) := by
  cases action <;> rfl

theorem addRules_names (effect : Specified) (invert : Bool) (db : PolicyDb) (s t c : String)
    (nonempty : texts ≠ []) :
    db.addRules effect invert [s] [t] [c] texts =
      texts.foldl (fun db p => (db.addRule s t c p effect invert).toOption.getD db) db := by
  simp only [addRules, expandAll, expand, cons_ne_nil, if_false, if_neg nonempty,
    foldl_cons, foldl_nil]

/-- The words of a printed access vector. -/
def avWords (specified : Specified) (s t c : String) (texts : List String) : List String :=
  specified.statement :: s :: t :: c :: "\x7b" :: (texts ++ ["\x7d"])

theorem isLine_avWords (specified : Specified) (sName : IsName s) (tName : IsName t)
    (cName : IsName c) (names : ∀ text ∈ texts, IsName text) :
    IsLine (avWords specified s t c texts) := by
  apply isLine_statement
  intro word mem
  simp only [mem_cons, mem_append, not_mem_nil, or_false] at mem
  rcases mem with rfl | rfl | rfl | rfl | mem | rfl
  · exact sName.isWord
  · exact tName.isWord
  · exact cName.isWord
  · exact isWord_brace.1
  · exact (names word mem).isWord
  · exact isWord_brace.2

theorem execStatement_avWords {action : AvAction} (token : action.token = specified.token)
    (sName : IsName s) (tName : IsName t) (cName : IsName c) (names : ∀ text ∈ texts, IsName text) :
    execStatement (lineTokens (avWords specified s t c texts)) =
      .ok (action.call [s] [t] [c] texts) := by
  have braces : extractToken "\x7b".toList = [.LB] ∧ extractToken "\x7d".toList = [.RB] :=
    ⟨extractToken_openBrace, extractToken_closeBrace⟩
  rw [execStatement_eq_ok_iff]
  refine ⟨.av action (.id s) (.id t) (.id c) (.braces (texts.map .id)), ?_, ?_⟩
  · rw [avWords, lineTokens_cons, lineTokens_cons, lineTokens_cons, lineTokens_cons,
      lineTokens_cons, lineTokens_append, lineTokens_cons, specified.extractToken_statement,
      sName.extractToken_eq, tName.extractToken_eq, cName.extractToken_eq, braces.1, braces.2,
      lineTokens_names names, ← token]
    simp only [StatementTree.tokens, StermTree.tokens, map_map]
    rfl
  · have noStar : NameItem.star ∉ texts.map NameItem.id := by
      simp
    have read : (texts.map NameItem.id).filterMap NameItem.name? = texts := by
      rw [filterMap_map]
      exact filterMap_some
    simp only [StatementTree.parsed, StatementTree.callWith, StermTree.parsed, if_neg noStar, read]

section Av

variable {index : SymbolIndex} {fresh : PolicyDb} {key : AvtabKey} {data : UInt32}
  {s t c : String} {cls : ClassDatum}

/-- What is printed for an access vector is one edit for each printed permission. -/
theorem loadRules_printAv (frame : KeyFrame) (others : PolicyDb → Call → Except Stop PolicyDb)
    (isAv : key.specified.kind = .av) (named : Named fresh s t c src tgt cls)
    (sameKey : avtabKey src tgt cls key.specified = key)
    (filed : ofValue index.classData key.targetClass.toNat = some cls) (sPlain : PlainName s)
    (tPlain : PlainName t) (cPlain : PlainName c)
    (encode : texts.map utf8 = printedPerms cls (printedData key.specified data))
    (plain : ∀ text ∈ texts, PlainName text) :
    fresh.loadRules frame others (printAv index key data (utf8 s) (utf8 t) (utf8 c)) =
      .ok { fresh with
        teAvtab := (texts.filterMap (findPerm cls)).foldl
          (fun avtab perm => avtab.editRule key (some perm)
            (decide (key.specified = .auditdeny))) fresh.teAvtab } := by
  rcases exists_avAction isAv with ⟨action, effect, token, invert⟩
  have names : ∀ text ∈ texts, IsName text := fun text mem => (plain text mem).isName
  simp only [printAv, filed, ← encode]
  by_cases empty : texts = []
  · subst empty
    rfl
  · have words : [utf8 key.specified.statement, utf8 s, utf8 t, utf8 c, utf8 "\x7b"] ++
        texts.map utf8 ++ [utf8 "\x7d"] = (avWords key.specified s t c texts).map utf8 := by
      simp [avWords]
    rw [if_neg (by simpa using empty), words, loadRules_line frame others
      (isLine_avWords key.specified sPlain.isName tPlain.isName cPlain.isName names)
      (execStatement_avWords token sPlain.isName tPlain.isName cPlain.isName names),
      perform_avCall, addRules_names _ _ _ _ _ _ empty,
      named.foldl_addRule _ _ fun text mem => (plain text mem).ne_empty, effect, sameKey, invert]

/-- The printed permissions are found under their names, and have the printed bits
as their values. -/
structure Resolves (cls : ClassDatum) (data : UInt32) (texts : List String) : Prop where
  values : ∀ perm ∈ texts.filterMap (PolicyDb.findPerm cls),
    1 ≤ perm.value.toNat ∧ perm.value.toNat ≤ 32
  bits : ∀ entry ∈ cls.perms, ((texts.filterMap (PolicyDb.findPerm cls)).any
    fun perm => perm.value.toNat = entry.2.value.toNat) =
      data.toBitVec.getLsbD (entry.2.value - 1).toNat

theorem resolves_printed (distinct : (cls.perms.map Prod.fst).Nodup)
    (values : ∀ entry ∈ cls.perms, 1 ≤ entry.2.value.toNat ∧ entry.2.value.toNat ≤ 32)
    (encode : texts.map utf8 = printedPerms cls data) (plain : ∀ text ∈ texts, PlainName text) :
    Resolves cls data texts := by
  have found : ∀ {text : String} {i : Nat}, PlainName text → cls.permNames i = some (utf8 text) →
      ∃ entry ∈ cls.perms, findPerm cls text = some entry.2 ∧ entry.2.value.toNat = i + 1 := by
    intro text i isPlain named
    rcases mem_of_fillNames named with ⟨entry, mem, sameName, sameBit⟩
    have value := values entry mem
    have stored := lookup_of_mem distinct mem
    rw [sameName, ← findPerm_eq isPlain] at stored
    rw [toNat_sub_one value.1] at sameBit
    exact ⟨entry, mem, stored, by omega⟩
  have resolved : ∀ perm ∈ texts.filterMap (findPerm cls), ∃ i < 32,
      data.toBitVec.getLsbD i = true ∧ perm.value.toNat = i + 1 := by
    intro perm mem
    rcases mem_filterMap.mp mem with ⟨text, textMem, isPerm⟩
    have printed : utf8 text ∈ printedPerms cls data := encode ▸ mem_map_of_mem textMem
    rcases mem_printedPerms_iff.mp printed with ⟨i, inside, bit, named⟩
    rcases found (plain text textMem) named with ⟨entry, _, stored, value⟩
    rw [isPerm, Option.some.injEq] at stored
    rw [← stored] at value
    exact ⟨i, inside, bit, value⟩
  constructor
  · intro perm mem
    rcases resolved perm mem with ⟨i, inside, _, value⟩
    omega
  · intro entry mem
    have position := toNat_sub_one (values entry mem).1
    have positive := values entry mem
    rw [Bool.eq_iff_iff, any_eq_true]
    simp only [decide_eq_true_eq]
    constructor
    · rintro ⟨perm, permMem, same⟩
      rcases resolved perm permMem with ⟨i, _, bit, value⟩
      rwa [position, show entry.2.value.toNat - 1 = i by omega]
    · intro bit
      rcases fillNames_isSome mem with ⟨name, named⟩
      have printed : name ∈ printedPerms cls data :=
        mem_printedPerms_iff.mpr ⟨_, by omega, bit, named⟩
      rw [← encode] at printed
      rcases mem_map.mp printed with ⟨text, textMem, rfl⟩
      rcases found (plain text textMem) named with ⟨other, _, stored, value⟩
      exact ⟨other.2, mem_filterMap.mpr ⟨text, textMem, stored⟩, by omega⟩

/-- Access vectors come back. -/
theorem recreated_av (frame : KeyFrame) (others : PolicyDb → Call → Except Stop PolicyDb)
    (describes : index.Describes fresh) (names : KeyNames index key s t c)
    (isAv : key.specified.kind = .av) (plain : PlainAv index key data)
    (absent : fresh.teAvtab.data key = []) :
    ∃ after, fresh.loadRules frame others (printAv index key data (utf8 s) (utf8 t) (utf8 c)) =
        .ok after ∧ SameAv index after key data ∧ OnlyKey key fresh after := by
  rcases names.named describes with ⟨src, tgt, cls, named, sameKey, filed⟩
  rcases ofValue_eq_some filed with ⟨position, _, filedAt⟩
  have distinct := describes.permNames position cls filedAt
  have values := describes.permValues position cls filedAt
  rcases exists_texts (plain cls filed) with ⟨texts, encode, arePlain⟩
  refine ⟨_, loadRules_printAv frame others isAv named sameKey filed names.sourcePlain
    names.targetPlain names.classPlain encode arePlain, ?_, rfl, ?_⟩
  · intro other otherFiled entry mem
    rw [filed, Option.some.injEq] at otherFiled
    subst other
    have resolves := resolves_printed distinct values encode arePlain
    have value := values entry mem
    have listed := resolves.bits entry mem
    have position := toNat_sub_one value.1
    generalize (entry.2.value - 1).toNat = bit at listed position ⊢
    have inside : bit < 32 := by omega
    have next : entry.2.value.toNat = bit + 1 := by omega
    have initial : fresh.teAvtab.word key = Avtab.initialWord key.specified := by
      rw [Avtab.word, absent]
    rw [next] at listed
    rw [Avtab.foldl_editRule_self key _ _ (by rw [absent]; exact Nat.zero_le 1),
      getLsbD_foldl_editWord resolves.values _ _ inside, listed, initial, Avtab.initialWord,
      printedData]
    by_cases inverted : key.specified = .auditdeny
    · have ones : (~~~0 : UInt32).toBitVec.getLsbD bit = true := by
        rw [UInt32.toBitVec_not, BitVec.getLsbD_not]
        simp [inside]
      rw [if_pos inverted, if_pos inverted, if_pos (decide_eq_true inverted), ones,
        UInt32.toBitVec_not]
      simp [inside]
    · simp [inverted]
  · intro other ne
    exact Avtab.data_foldl_editRule_of_ne ne _ _ _

end Av

/-! ## Type rules -/

theorem isLine_names (specified : Specified) (areNames : ∀ name ∈ names, IsName name) :
    IsLine (specified.statement :: names) :=
  isLine_statement specified fun name mem => (areNames name mem).isWord

/-- A printed type rule calls the operation that adds it. -/
theorem exists_typeCall (frame : KeyFrame) (others : PolicyDb → Call → Except Stop PolicyDb)
    (isType : specified.kind = .type) {d : String} (names : ∀ name ∈ [s, t, c, d], IsName name) :
    ∃ call, execStatement (lineTokens (specified.statement :: [s, t, c, d])) = .ok call ∧
      ∀ db : PolicyDb, db.perform frame others call =
        db.orWarn (db.addTypeRule s t c d specified) := by
  have tokens : lineTokens (specified.statement :: [s, t, c, d]) =
      [specified.token, .ID s, .ID t, .ID c, .ID d] := by
    rw [lineTokens_cons, specified.extractToken_statement, lineTokens_names names]
    rfl
  rw [tokens]
  cases specified with
  | transition =>
    exact ⟨_, execStatement_eq_ok_iff.mpr ⟨.transition s t c d none, rfl, rfl⟩, fun _ => rfl⟩
  | member =>
    exact ⟨_, execStatement_eq_ok_iff.mpr ⟨.typeRule .member s t c d, rfl, rfl⟩, fun _ => rfl⟩
  | change =>
    exact ⟨_, execStatement_eq_ok_iff.mpr ⟨.typeRule .change s t c d, rfl, rfl⟩, fun _ => rfl⟩
  | _ => cases isType

section TypeRules

variable {index : SymbolIndex} {fresh : PolicyDb} {key : AvtabKey} {data : UInt32}
  {s t c d : String}

/-- Type rules come back. -/
theorem recreated_type (frame : KeyFrame) (others : PolicyDb → Call → Except Stop PolicyDb)
    (describes : index.Describes fresh) (names : KeyNames index key s t c)
    (isType : key.specified.kind = .type)
    (default : ofValue index.typeNames data.toNat = some (utf8 d)) (plain : PlainName d)
    (absent : fresh.teAvtab.data key = []) :
    ∃ after, fresh.loadRules frame others (printType index key data (utf8 s) (utf8 t) (utf8 c)) =
        .ok after ∧ after.teAvtab.word key = data ∧ OnlyKey key fresh after := by
  rcases names.named describes with ⟨src, tgt, cls, named, sameKey, _⟩
  rcases describes.findType default plain with ⟨dflt, found, sameType⟩
  have areNames : ∀ name ∈ [s, t, c, d], IsName name := by
    simp only [mem_cons, not_mem_nil, or_false]
    rintro name (rfl | rfl | rfl | rfl)
    · exact names.sourcePlain.isName
    · exact names.targetPlain.isName
    · exact names.classPlain.isName
    · exact plain.isName
  rcases exists_typeCall frame others isType areNames with ⟨call, parsed, performed⟩
  have symbols : PolicyDb.NamesRule fresh s t c d src tgt cls dflt :=
    ⟨named.source, named.target, named.found, found⟩
  have added : fresh.orWarn (fresh.addTypeRule s t c d key.specified) =
      .ok { fresh with
        teAvtab := (fresh.teAvtab.getNode key).modifyNode key fun datum =>
          { datum with data := dflt.value } } := by
    rw [addTypeRule, symbols.findSymbols_eq]
    dsimp only
    rw [sameKey]
    rfl
  have loaded := loadRules_line frame others (isLine_names key.specified areNames) parsed fresh
  rw [performed, added] at loaded
  simp only [printType, default]
  refine ⟨_, loaded, ?_, rfl, ?_⟩
  · rw [Avtab.word, Avtab.data_modifyNode_self, Avtab.data_getNode_self, if_pos absent]
    exact UInt32.toNat_inj.mp sameType
  · intro other ne
    rw [Avtab.data_modifyNode_of_ne ne, Avtab.data_getNode_of_ne ne]

end TypeRules

end Magisk.SePolicy
