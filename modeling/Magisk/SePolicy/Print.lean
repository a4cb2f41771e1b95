import Magisk.SePolicy.Lexer

/-!
# Printing rules

`print_rules` writes every node of the access vector table and every filename
transition as statements.  Numbers of extended permissions are written in
hexadecimal, with neighbouring bits of the bitmap joined to a range; of a chain
of filename transitions only the first datum is written.
-/

namespace Magisk.SePolicy

open List Bytes Text

variable {value : UInt16} {digit : Nat}

/-! ## Numbers -/

/-- A digit of `%X`. -/
def upperDigit (digit : Nat) : Char :=
  Char.ofNat (if digit < 10 then 48 + digit else 55 + digit)

/-- `%04X` of a 16-bit number. -/
def hex4 (value : UInt16) : List Char :=
  [upperDigit (value.toNat / 4096), upperDigit (value.toNat / 256 % 16),
    upperDigit (value.toNat / 16 % 16), upperDigit (value.toNat % 16)]

/-- A number as it is printed. -/
def numberWord (value : UInt16) : List Char :=
  '0' :: 'x' :: hex4 value

/-- A range as it is printed. -/
def rangeWord (low high : UInt16) : String :=
  if low = high then String.ofList (numberWord low)
  else String.ofList (numberWord low ++ '-' :: numberWord high)

/-- What the lexer makes of a printed number. -/
def misread (value : UInt16) : UInt16 :=
  (parseU16 (hex4 value)).getD 0

theorem decimalDigit?_upperDigit (small : digit < 16) :
    decimalDigit? (upperDigit digit) = if digit < 10 then some digit else none := by
  interval_cases digit <;> decide

theorem upperDigit_notMem (small : digit < 16) :
    upperDigit digit ∉ ['+', '-', '\x7b', '\x7d', ','] ∧
      isWhitespace (upperDigit digit) = false := by
  interval_cases digit <;> decide

/-- A digit of a number that is read as a decimal one. -/
theorem parseDigits_upperDigit (small : digit < 16) (acc : Nat) (rest : List Char) :
    parseDigits acc (upperDigit digit :: rest) =
      if 10 ≤ digit ∨ 65535 < acc * 10 + digit then none
      else parseDigits (acc * 10 + digit) rest := by
  rw [parseDigits, decimalDigit?_upperDigit small]
  by_cases decimal : digit < 10
  · have notLetter : ¬ 10 ≤ digit := by omega
    simp only [if_pos decimal, notLetter, false_or]
  · have letter : 10 ≤ digit := by omega
    simp only [if_neg decimal, letter, true_or, if_true]

/-- The digits of a number that are printed. -/
structure HexDigits (value : UInt16) (a b c d : Nat) : Prop where
  sum : value.toNat = a * 4096 + b * 256 + c * 16 + d
  first : a < 16
  second : b < 16
  third : c < 16
  fourth : d < 16

theorem hexDigits_exist (value : UInt16) : ∃ a b c d, HexDigits value a b c d ∧
      hex4 value = [upperDigit a, upperDigit b, upperDigit c, upperDigit d] := by
  have bound := value.toNat_lt
  refine ⟨_, _, _, _, ⟨?_, ?_, ?_, ?_, ?_⟩, rfl⟩ <;> omega

theorem HexDigits.parseU16_eq {a b c d : Nat} (digits : HexDigits value a b c d) :
    parseU16 [upperDigit a, upperDigit b, upperDigit c, upperDigit d] =
      if 10 ≤ a ∨ 10 ≤ b ∨ 10 ≤ c ∨ 10 ≤ d then none
      else some (UInt16.ofNat (a * 1000 + b * 100 + c * 10 + d)) := by
  have ⟨_, first, second, third, fourth⟩ := digits
  have notPlus : upperDigit a ≠ '+' := by
    intro isPlus
    have free := (upperDigit_notMem first).1
    rw [isPlus] at free
    simp at free
  rw [parseU16, unsigned, if_neg notPlus, if_neg (cons_ne_nil _ _),
    parseDigits_upperDigit first, parseDigits_upperDigit second, parseDigits_upperDigit third,
    parseDigits_upperDigit fourth]
  by_cases letter : 10 ≤ a ∨ 10 ≤ b ∨ 10 ≤ c ∨ 10 ≤ d
  · split_ifs <;> first | rfl | omega
  · have total : ((((0 * 10 + a) * 10 + b) * 10 + c) * 10 + d) =
        a * 1000 + b * 100 + c * 10 + d := by
      omega
    rw [if_neg letter, if_neg (by omega), if_neg (by omega), if_neg (by omega),
      if_neg (by omega), total]
    rfl

/-- A number is read with its hexadecimal digits taken as decimal ones, and as zero
if one of them is a letter. -/
theorem misread_cases (value : UInt16) : ∃ a b c d, HexDigits value a b c d ∧
      ((misread value).toNat = 0 ∧ (10 ≤ a ∨ 10 ≤ b ∨ 10 ≤ c ∨ 10 ≤ d) ∨
        (misread value).toNat = a * 1000 + b * 100 + c * 10 + d ∧
          a < 10 ∧ b < 10 ∧ c < 10 ∧ d < 10) := by
  rcases hexDigits_exist value with ⟨a, b, c, d, digits, printed⟩
  refine ⟨a, b, c, d, digits, ?_⟩
  rw [misread, printed, digits.parseU16_eq]
  by_cases letter : 10 ≤ a ∨ 10 ≤ b ∨ 10 ≤ c ∨ 10 ≤ d
  · rw [if_pos letter]
    exact Or.inl ⟨rfl, letter⟩
  · rw [if_neg letter, Option.getD_some, UInt16.toNat_ofNat_of_lt' (by change _ < 65536; omega)]
    exact Or.inr ⟨rfl, by omega, by omega, by omega, by omega⟩

theorem misread_of_lt_ten (small : value.toNat < 10) : misread value = value := by
  rcases misread_cases value with ⟨a, b, c, d, digits, read⟩
  have sum := digits.sum
  apply UInt16.toNat_inj.mp
  omega

theorem misread_le (value : UInt16) : (misread value).toNat ≤ value.toNat := by
  rcases misread_cases value with ⟨a, b, c, d, digits, read⟩
  have sum := digits.sum
  omega

theorem misread_lt (large : 10 ≤ value.toNat) : (misread value).toNat < value.toNat := by
  rcases misread_cases value with ⟨a, b, c, d, digits, read⟩
  have sum := digits.sum
  omega

/-- A number beyond the first driver is read as one of an earlier driver. -/
theorem ioctlDriver_misread_lt (large : 256 ≤ value.toNat) :
    ioctlDriver (misread value) < ioctlDriver value := by
  rcases misread_cases value with ⟨a, b, c, d, digits, read⟩
  have sum := digits.sum
  rw [ioctlDriver_eq, ioctlDriver_eq]
  omega

/-- No keyword starts like a number. -/
theorem lookup_keywords_zero (rest : List Char) : keywords.lookup ('0' :: rest) = none := by
  rw [lookup_eq_none_iff]
  intro entry mem
  have head : ∀ entry ∈ keywords, entry.1.head? ≠ some '0' := by
    decide
  rw [bne_iff_ne]
  intro same
  exact head entry mem (by rw [← same, head?_cons])

theorem mem_numberWord {c : Char} (mem : c ∈ numberWord value) :
    c ∉ ['-', '\x7b', '\x7d', ','] ∧ isWhitespace c = false := by
  rcases hexDigits_exist value with ⟨a, b, d, e, digits, printed⟩
  rw [numberWord, printed] at mem
  simp only [mem_cons, not_mem_nil, or_false] at mem
  have digit : ∀ {digit : Nat}, digit < 16 → upperDigit digit ∉ ['-', '\x7b', '\x7d', ','] ∧
      isWhitespace (upperDigit digit) = false := by
    intro digit small
    have free := upperDigit_notMem small
    exact ⟨fun mem => free.1 (mem_cons_of_mem _ mem), free.2⟩
  rcases mem with rfl | rfl | rfl | rfl | rfl | rfl
  · decide
  · decide
  · exact digit digits.first
  · exact digit digits.second
  · exact digit digits.third
  · exact digit digits.fourth

theorem extractToken_numberWord (value : UInt16) :
    extractToken (numberWord value) = [.HX (misread value)] := by
  refine extractToken_of_solid (cons_ne_nil _ _) (lookup_keywords_zero _) ?_ (by simp [numberWord])
  intro mark mem inside
  have free := (mem_numberWord inside).1
  have isMark : ∀ mark ∈ delimiters, mark.1 ∈ ['-', '\x7b', '\x7d', ','] := by
    decide
  exact free (isMark mark mem)

/-- A printed range is read as a value or a range. -/
theorem extractToken_rangeWord (low high : UInt16) : extractToken (rangeWord low high).toList =
      (if low = high then IoctlItem.value (misread low)
        else IoctlItem.range (misread low) (misread high)).tokens := by
  unfold rangeWord
  split
  · rw [String.toList_ofList]
    exact extractToken_numberWord low
  · rw [String.toList_ofList, extractToken_append [('\x7b', .LB), ('\x7d', .RB), (',', .CM)] '-' .HP
      rfl (numberWord low) (numberWord high) (lookup_keywords_zero _), extractToken_numberWord,
      extractToken_numberWord]
    · rfl
    · intro mark mem inside
      have notHyphen : ∀ mark ∈ [('\x7b', Token.LB), ('\x7d', .RB), (',', .CM)],
          mark.1 ∈ ['\x7b', '\x7d', ','] ∧ mark.1 ≠ '-' := by
        decide
      rw [mem_append, mem_cons] at inside
      rcases inside with inside | isHyphen | inside
      · exact (mem_numberWord inside).1 (mem_cons_of_mem _ (notHyphen mark mem).1)
      · exact (notHyphen mark mem).2 isHyphen
      · exact (mem_numberWord inside).1 (mem_cons_of_mem _ (notHyphen mark mem).1)
    · intro inside
      exact (mem_numberWord inside).1 mem_cons_self

theorem isWord_rangeWord (low high : UInt16) : IsWord isWhitespace (rangeWord low high).toList := by
  unfold rangeWord
  split
  · rw [String.toList_ofList]
    exact ⟨cons_ne_nil _ _, fun c mem => (mem_numberWord mem).2⟩
  · rw [String.toList_ofList]
    refine ⟨by simp [numberWord], ?_⟩
    intro c mem
    rw [mem_append, mem_cons] at mem
    rcases mem with mem | rfl | mem
    · exact (mem_numberWord mem).2
    · decide
    · exact (mem_numberWord mem).2

/-! ## Bitmaps -/

/-- One turn of the loop over the bits of an extended permission: the ranges found,
and the start of the range that is still open. -/
def rangeStep (perms : BitVec 256) (state : List (Nat × Nat) × Option Nat) (i : Nat) :
    List (Nat × Nat) × Option Nat :=
  if perms.getLsbD i then
    let low := state.2.getD i
    (if i = 255 then state.1 ++ [(low, 255)] else state.1, some low)
  else
    match state.2 with
    | some low => (state.1 ++ [(low, i - 1)], none)
    | none => state

/-- The ranges of neighbouring bits. -/
def ranges (perms : BitVec 256) : List (Nat × Nat) :=
  ((List.range 256).foldl (rangeStep perms) ([], none)).1

/-- What is known after a number of turns of the loop over the bits. -/
structure Ranged (perms : BitVec 256) (count : Nat) (state : List (Nat × Nat) × Option Nat) :
    Prop where
  closed : ∀ range ∈ state.1, range.1 ≤ range.2 ∧ range.2 < count ∧
    perms.getLsbD range.1 = true ∧ perms.getLsbD range.2 = true
  pending : ∀ low, state.2 = some low → low < count ∧
    ∀ j, low ≤ j → j < count → perms.getLsbD j = true
  complete : ∀ j < count, perms.getLsbD j = true ↔
    (∃ range ∈ state.1, range.1 ≤ j ∧ j ≤ range.2) ∨ ∃ low, state.2 = some low ∧ low ≤ j
  last : 256 ≤ count → ∀ low, state.2 = some low → (low, 255) ∈ state.1

section Ranges

variable {perms : BitVec 256} {count : Nat} {state : List (Nat × Nat) × Option Nat}
  {range : Nat × Nat}

/-- A closed range stays closed. -/
theorem Ranged.closed_succ (ranged : Ranged perms count state) (mem : range ∈ state.1) :
    range.1 ≤ range.2 ∧ range.2 < count + 1 ∧
      perms.getLsbD range.1 = true ∧ perms.getLsbD range.2 = true := by
  have inside := ranged.closed range mem
  exact ⟨inside.1, by omega, inside.2.2⟩

section

variable (ranged : Ranged perms count state) (bit : perms.getLsbD count = true)
include ranged bit

/-- A set bit belongs to the open range, or opens one. -/
theorem Ranged.opens :
    state.2.getD count ≤ count ∧
      ∀ j, state.2.getD count ≤ j → j < count + 1 → perms.getLsbD j = true := by
  cases start : state.2 with
  | none =>
    refine ⟨le_rfl, fun j above below => ?_⟩
    rw [Option.getD_none] at above
    rwa [show j = count by omega]
  | some low =>
    have pending := ranged.pending low start
    refine ⟨by rw [Option.getD_some]; omega, fun j above below => ?_⟩
    by_cases now : j = count
    · rwa [now]
    · exact pending.2 j above (by omega)

/-- After a set bit, the set bits are those of the closed ranges and those from the
start of the open one on. -/
theorem Ranged.covers {j : Nat} (below : j < count + 1) :
    perms.getLsbD j = true ↔
      (∃ range ∈ state.1, range.1 ≤ j ∧ j ≤ range.2) ∨ state.2.getD count ≤ j := by
  have opens := ranged.opens bit
  constructor
  · intro isSet
    by_cases now : j = count
    · exact Or.inr (now ▸ opens.1)
    · rcases (ranged.complete j (by omega)).mp isSet with found | ⟨low, start, above⟩
      · exact Or.inl found
      · rw [start]
        exact Or.inr above
  · rintro (⟨range, mem, above, upTo⟩ | above)
    · have inside := ranged.closed range mem
      exact (ranged.complete j (by omega)).mpr (Or.inl ⟨range, mem, above, upTo⟩)
    · exact opens.2 j above below

theorem Ranged.step_set :
    Ranged perms (count + 1) (rangeStep perms state count) := by
  have opens := ranged.opens bit
  have covers := fun j => ranged.covers bit (j := j)
  have inBitmap : count < 256 := by
    by_contra outside
    rw [BitVec.getLsbD_of_ge perms count (by omega)] at bit
    cases bit
  unfold rangeStep
  rw [if_pos bit]
  generalize state.2.getD count = low at opens covers ⊢
  have members : ∀ range, range ∈ (if count = 255 then state.1 ++ [(low, 255)] else state.1) ↔
      range ∈ state.1 ∨ count = 255 ∧ range = (low, 255) := by
    intro range
    split
    · rename_i atEnd
      simp [atEnd]
    · rename_i before
      simp [before]
  refine ⟨?_, ?_, ?_, ?_⟩
  · intro range mem
    rcases (members range).mp mem with mem | ⟨atEnd, rfl⟩
    · exact ranged.closed_succ mem
    · exact ⟨by omega, by omega, opens.2 low le_rfl (by omega), atEnd ▸ bit⟩
  · rintro start ⟨⟩
    exact ⟨by omega, opens.2⟩
  · intro j below
    rw [covers j below]
    constructor
    · rintro (⟨range, mem, within⟩ | above)
      · exact Or.inl ⟨range, (members range).mpr (Or.inl mem), within⟩
      · exact Or.inr ⟨low, rfl, above⟩
    · rintro (⟨range, mem, within⟩ | ⟨start, ⟨⟩, above⟩)
      · rcases (members range).mp mem with mem | ⟨_, rfl⟩
        · exact Or.inl ⟨range, mem, within⟩
        · exact Or.inr within.1
      · exact Or.inr above
  · rintro atEnd start ⟨⟩
    exact (members _).mpr (Or.inr ⟨by omega, rfl⟩)

end

/-- A turn that leaves no range open adds no bit. -/
theorem Ranged.of_closed {found : List (Nat × Nat)} (clear : ¬ perms.getLsbD count = true)
    (closed : ∀ range ∈ found, range.1 ≤ range.2 ∧ range.2 < count ∧
      perms.getLsbD range.1 = true ∧ perms.getLsbD range.2 = true)
    (complete : ∀ j < count, perms.getLsbD j = true ↔
      ∃ range ∈ found, range.1 ≤ j ∧ j ≤ range.2) :
    Ranged perms (count + 1) (found, none) := by
  refine ⟨?_, nofun, ?_, nofun⟩
  · intro range mem
    have inside := closed range mem
    exact ⟨inside.1, by omega, inside.2.2⟩
  · intro j below
    have nothingOpen : ¬ ∃ low, (none : Option Nat) = some low ∧ low ≤ j := nofun
    rw [or_iff_left nothingOpen]
    by_cases now : j = count
    · subst now
      refine iff_of_false clear ?_
      rintro ⟨range, mem, _, upTo⟩
      have inside := closed range mem
      omega
    · exact complete j (by omega)

theorem Ranged.step_clear (ranged : Ranged perms count state) (bit : perms.getLsbD count = false) :
    Ranged perms (count + 1) (rangeStep perms state count) := by
  have notSet : ¬ perms.getLsbD count = true := by
    rw [bit]
    decide
  obtain ⟨found, start⟩ := state
  unfold rangeStep
  rw [if_neg notSet]
  cases start with
  | none =>
    refine .of_closed notSet ranged.closed fun j below => ?_
    rw [ranged.complete j below]
    exact or_iff_left nofun
  | some low =>
    have pending := ranged.pending low rfl
    refine .of_closed notSet ?_ fun j below => ?_
    · intro range mem
      rcases mem_append.mp mem with mem | mem
      · exact ranged.closed range mem
      · cases mem_singleton.mp mem
        exact ⟨by omega, by omega, pending.2 low le_rfl pending.1,
          pending.2 (count - 1) (by omega) (by omega)⟩
    · rw [ranged.complete j below]
      constructor
      · rintro (⟨range, mem, within⟩ | ⟨other, ⟨⟩, above⟩)
        · exact ⟨range, mem_append_left _ mem, within⟩
        · exact ⟨_, mem_append_right _ mem_cons_self, above, by omega⟩
      · rintro ⟨range, mem, within⟩
        rcases mem_append.mp mem with mem | mem
        · exact Or.inl ⟨range, mem, within⟩
        · cases mem_singleton.mp mem
          exact Or.inr ⟨low, rfl, within.1⟩

/-- The loop finds exactly the bits that are set. -/
theorem ranged_foldl (perms : BitVec 256) (count : Nat) :
    Ranged perms count ((List.range count).foldl (rangeStep perms) ([], none)) := by
  induction count with
  | zero =>
    refine ⟨?_, ?_, ?_, ?_⟩
    · intro range mem
      cases mem
    · intro low some
      cases some
    · intro j below
      omega
    · intro large
      omega
  | succ count ih =>
    rw [range_succ, foldl_append, foldl_cons]
    cases bit : perms.getLsbD count with
    | true => exact ih.step_set bit
    | false => exact ih.step_clear bit

theorem mem_ranges_iff (perms : BitVec 256) (j : Nat) :
    perms.getLsbD j = true ↔ ∃ range ∈ ranges perms, range.1 ≤ j ∧ j ≤ range.2 := by
  have ranged := ranged_foldl perms 256
  by_cases inside : j < 256
  · rw [ranged.complete j inside]
    constructor
    · rintro (found | ⟨low, start, above⟩)
      · exact found
      · exact ⟨(low, 255), ranged.last le_rfl low start, above, by omega⟩
    · exact Or.inl
  · rw [BitVec.getLsbD_of_ge perms j (by omega)]
    refine iff_of_false (by decide) ?_
    rintro ⟨range, mem, _, upTo⟩
    have closed := ranged.closed range mem
    omega

/-- A range starts and ends at bits that are set. -/
theorem ends_of_mem_ranges (mem : range ∈ ranges perms) :
    range.1 ≤ range.2 ∧ range.2 < 256 ∧ perms.getLsbD range.1 = true ∧
      perms.getLsbD range.2 = true :=
  (ranged_foldl perms 256).closed range mem

theorem ranges_eq_nil_iff (perms : BitVec 256) : ranges perms = [] ↔ perms = 0#256 := by
  constructor
  · intro empty
    apply BitVec.eq_of_getLsbD_eq
    intro j _
    rw [BitVec.getLsbD_zero, Bool.eq_false_iff]
    intro isSet
    rcases (mem_ranges_iff perms j).mp isSet with ⟨range, mem, _⟩
    rw [empty] at mem
    cases mem
  · rintro rfl
    rw [eq_nil_iff_forall_not_mem]
    intro range mem
    have isSet := (ends_of_mem_ranges mem).2.2.1
    rw [BitVec.getLsbD_zero] at isSet
    cases isSet

end Ranges

/-- `to_value`. -/
def ExtendedPerms.toValue (xperms : ExtendedPerms) (value : Nat) : UInt16 :=
  if xperms.specified = .ioctlFunction then UInt16.ofNat (xperms.driver.toNat <<< 8 ||| value)
  else UInt16.ofNat (value <<< 8)

/-! ## Rules -/

/-- The arrays in which libsepol keeps the names of types and classes, and the data
of classes, under their values counted from zero. -/
structure SymbolIndex where
  typeNames : Nat → Option (List UInt8)
  classNames : Nat → Option (List UInt8)
  classData : Nat → Option ClassDatum

/-- The entry of an array for a value that counts from one. -/
def ofValue {α : Type} (array : Nat → Option α) (value : Nat) : Option α :=
  if value = 0 then none else array (value - 1)

/-- The three kinds of nodes: `AVTAB_AV`, `AVTAB_TYPE` and `AVTAB_XPERMS`. -/
inductive RuleKind where
  | av
  | type
  | xperms
  deriving DecidableEq, Repr

/-- The kind of a node. -/
def Specified.kind : Specified → RuleKind
  | .allowed | .auditallow | .auditdeny => .av
  | .transition | .member | .change => .type
  | .xpermsAllowed | .xpermsAuditallow | .xpermsDontaudit => .xperms

/-- The name of the statement that makes a rule. -/
def Specified.statement : Specified → String
  | .allowed => "allow"
  | .auditallow => "auditallow"
  | .auditdeny => "dontaudit"
  | .transition => "type_transition"
  | .member => "type_member"
  | .change => "type_change"
  | .xpermsAllowed => "allowxperm"
  | .xpermsAuditallow => "auditallowxperm"
  | .xpermsDontaudit => "dontauditxperm"

/-- The permissions of a class and of its common class. -/
def ClassDatum.perms (cls : ClassDatum) : Symtab PermDatum :=
  cls.permissions ++ cls.comdatum.getD []

/-- The array of names that the entries of a table of permissions fill in turn. -/
def fillNames (entries : Symtab PermDatum) : Nat → Option (List UInt8) :=
  entries.foldl
    (fun names entry => Function.update names (entry.2.value - 1).toNat (some entry.1))
    fun _ => none

/-- The names of the permissions of a class. -/
def ClassDatum.permNames (cls : ClassDatum) : Nat → Option (List UInt8) :=
  fillNames cls.perms

/-- The bits that are printed: dontaudit rules list the cleared ones. -/
def printedData (specified : Specified) (data : UInt32) : UInt32 :=
  if specified = .auditdeny then ~~~data else data

/-- The names of the bits of an access vector. -/
def printedPerms (cls : ClassDatum) (data : UInt32) : List (List UInt8) :=
  (List.range 32).filterMap fun i => if data.toBitVec.getLsbD i then cls.permNames i else none

section Print

variable (index : SymbolIndex)

/-- An access vector node. -/
def printAv (key : AvtabKey) (data : UInt32) (src tgt cls : List UInt8) : List UInt8 :=
  match ofValue index.classData key.targetClass.toNat with
  | none => []
  | some clz =>
    let perms := printedPerms clz (printedData key.specified data)
    if perms = [] then []
    else line ([utf8 key.specified.statement, src, tgt, cls, utf8 "\x7b"] ++ perms ++ [utf8 "\x7d"])

/-- A type rule. -/
def printType (key : AvtabKey) (data : UInt32) (src tgt cls : List UInt8) : List UInt8 :=
  match ofValue index.typeNames data.toNat with
  | none => []
  | some dflt => line [utf8 key.specified.statement, src, tgt, cls, dflt]

/-- An extended permission node. -/
def printXperms (key : AvtabKey) (xperms : Option ExtendedPerms) (src tgt cls : List UInt8) :
    List UInt8 :=
  match xperms with
  | none => []
  | some xperms =>
    let words := (ranges xperms.perms).map fun range =>
      utf8 (rangeWord (xperms.toValue range.1) (xperms.toValue range.2))
    if words = [] then []
    else line ([utf8 key.specified.statement, src, tgt, cls, utf8 "ioctl", utf8 "\x7b"] ++ words ++
      [utf8 "\x7d"])

/-- `print_avtab`. -/
def printAvtab (key : AvtabKey) (datum : AvtabDatum) : List UInt8 :=
  match ofValue index.typeNames key.sourceType.toNat, ofValue index.typeNames key.targetType.toNat,
    ofValue index.classNames key.targetClass.toNat with
  | some src, some tgt, some cls =>
    match key.specified.kind with
    | .av => printAv index key datum.data src tgt cls
    | .type => printType index key datum.data src tgt cls
    | .xperms => printXperms key datum.xperms src tgt cls
  | _, _, _ => []

/-- `print_filename_trans` for a node whose chain starts with `trans`. -/
def printFilenameTrans (key : FilenameTransKey) (trans : FilenameTransDatum) : List UInt8 :=
  match ofValue index.typeNames key.ttype.toNat, ofValue index.classNames key.tclass.toNat,
    ofValue index.typeNames trans.otype.toNat with
  | some tgt, some cls, some dflt =>
    (List.range trans.stypes.size).flatMap fun i =>
      if trans.stypes.testBit i then
        match index.typeNames i with
        | some src => line [utf8 "type_transition", src, tgt, cls, dflt, key.name]
        | none => []
      else []
  | _, _, _ => []

end Print

end Magisk.SePolicy
