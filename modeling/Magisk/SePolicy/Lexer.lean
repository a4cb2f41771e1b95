import Magisk.SePolicy.Parser
import Magisk.SePolicy.Transition
import Magisk.Text.Words

/-!
# From text to policy operations

`parse_statement` cuts a line into words at white space and every word into
tokens: a keyword is a token of its own, braces, commas and hyphens separate
tokens, a tilde in front is a token, and what starts with `0x` is a number.  The
number is read as a decimal one, and as zero if that fails.
-/

namespace Magisk.SePolicy

open List Bytes Text

variable {s a b : List Char} {c : Char} {token : Token} {marks : List (Char × Token)}
  {name : String}

/-! ## Words -/

/-- The characters that `split_whitespace` and `trim` take as white space. -/
def isWhitespace (c : Char) : Bool :=
  (9 ≤ c.toNat && c.toNat ≤ 13) || (0x2000 ≤ c.toNat && c.toNat ≤ 0x200A) ||
    [0x20, 0x85, 0xA0, 0x1680, 0x2028, 0x2029, 0x202F, 0x205F, 0x3000].contains c.toNat

/-- The words that are tokens. -/
def keywords : List (List Char × Token) :=
  [("allow".toList, .AL), ("deny".toList, .DN), ("auditallow".toList, .AA),
    ("dontaudit".toList, .DA), ("allowxperm".toList, .AX), ("auditallowxperm".toList, .AY),
    ("dontauditxperm".toList, .DX), ("permissive".toList, .PM), ("enforce".toList, .EF),
    ("typeattribute".toList, .TA), ("type".toList, .TY), ("attribute".toList, .AT),
    ("type_transition".toList, .TT), ("type_change".toList, .TC), ("type_member".toList, .TM),
    ("genfscon".toList, .GF), ("*".toList, .ST)]

/-- The characters that separate tokens, in the order they are looked for: the
two braces, the comma and the hyphen. -/
def delimiters : List (Char × Token) :=
  [('\x7b', .LB), ('\x7d', .RB), (',', .CM), ('-', .HP)]

/-! ## Numbers -/

/-- The value of a decimal digit. -/
def decimalDigit? (c : Char) : Option Nat :=
  if '0' ≤ c ∧ c ≤ '9' then some (c.toNat - '0'.toNat) else none

/-- Accumulate decimal digits onto `acc`, up to the largest `u16`. -/
def parseDigits : Nat → List Char → Option Nat
  | acc, [] => some acc
  | acc, c :: rest =>
    match decimalDigit? c with
    | none => none
    | some digit =>
      if 65535 < acc * 10 + digit then none else parseDigits (acc * 10 + digit) rest

/-- The digits behind an optional sign. -/
def unsigned : List Char → List Char
  | [] => []
  | c :: rest => if c = '+' then rest else c :: rest

/-- `str::parse::<u16>`. -/
def parseU16 (s : List Char) : Option UInt16 :=
  if unsigned s = [] then none else (parseDigits 0 (unsigned s)).map UInt16.ofNat

/-! ## Tokens -/

/-- What stands before and after the first occurrence of a character. -/
def cutAt (c : Char) : List Char → Option (List Char × List Char)
  | [] => none
  | a :: rest =>
    if a = c then some ([], rest) else (cutAt c rest).map fun parts => (a :: parts.1, parts.2)

/-- Cut at the first delimiter of the list that occurs at all. -/
def firstCut (s : List Char) : List (Char × Token) → Option (List Char × Token × List Char)
  | [] => none
  | (c, token) :: more =>
    match cutAt c s with
    | some (a, b) => some (a, token, b)
    | none => firstCut s more

theorem length_of_cutAt (cut : cutAt c s = some (a, b)) :
    a.length < s.length ∧ b.length < s.length := by
  induction s generalizing a with
  | nil => cases cut
  | cons first rest ih =>
    rw [cutAt] at cut
    split at cut
    · cases cut
      exact ⟨Nat.succ_pos _, Nat.lt_succ_self _⟩
    · rw [Option.map_eq_some_iff] at cut
      rcases cut with ⟨⟨before, after⟩, inner, equal⟩
      cases equal
      have shorter := ih inner
      exact ⟨Nat.succ_lt_succ shorter.1, Nat.lt_succ_of_lt shorter.2⟩

theorem length_of_firstCut (cut : firstCut s marks = some (a, token, b)) :
    a.length < s.length ∧ b.length < s.length := by
  induction marks with
  | nil => cases cut
  | cons mark marks ih =>
    rw [firstCut] at cut
    split at cut
    · rename_i here
      cases cut
      exact length_of_cutAt here
    · exact ih cut

/-- What a word without delimiters and without a tilde in front is. -/
def lastToken : List Char → Token
  | '0' :: 'x' :: digits => .HX ((parseU16 digits).getD 0)
  | s => .ID (String.ofList s)

/-- `extract_token`. -/
def extractToken (s : List Char) : List Token :=
  match keywords.lookup s with
  | some token => [token]
  | none =>
    match s with
    | [] => []
    | c :: rest =>
      match _cut : firstCut (c :: rest) delimiters with
      | some (a, token, b) => extractToken a ++ token :: extractToken b
      | none => if c = '~' then .TL :: extractToken rest else [lastToken (c :: rest)]
termination_by s.length
decreasing_by
  · exact (length_of_firstCut _cut).1
  · exact (length_of_firstCut _cut).2
  · exact Nat.lt_succ_self _

/-- `tokenize_statement`. -/
def tokenizeStatement (statement : List Char) : List Token :=
  (words isWhitespace statement).flatMap extractToken

/-! ## Statements -/

section Load

variable (frame : KeyFrame) (others : PolicyDb → Call → Except Stop PolicyDb)

/-- The operation a statement calls.  Those that do not touch rules are given as
`others`. -/
def PolicyDb.perform (db : PolicyDb) : Call → Except Stop PolicyDb
  | .typeTransition s t c d o => db.typeTransition frame s t c d o
  | .typeChange s t c d => db.typeChange s t c d
  | .typeMember s t c d => db.typeMember s t c d
  | call =>
    match db.editAvtab call with
    | some after => .ok after
    | none => others db call

/-- `parse_statement`; a syntax error is only logged. -/
def PolicyDb.parseStatement (db : PolicyDb) (statement : List Char) : Except Stop PolicyDb :=
  let statement := trim isWhitespace statement
  if statement = [] ∨ statement.head? = some '#' then .ok db
  else
    match execStatement (tokenizeStatement statement) with
    | .ok call => db.perform frame others call
    | .error _ => .ok db

/-- The loop of `for_each_line`, which ends at a line that is not UTF-8. -/
def PolicyDb.loadLines (db : PolicyDb) : List (List UInt8) → Except Stop PolicyDb
  | [] => .ok db
  | line :: lines =>
    match fromUtf8 line with
    | none => .ok db
    | some text =>
      match db.parseStatement frame others text.toList with
      | .ok after => after.loadLines lines
      | .error stop => .error stop

/-- `load_rules`. -/
def PolicyDb.loadRules (db : PolicyDb) (rules : List UInt8) : Except Stop PolicyDb :=
  db.loadLines frame others (splitLines 10 rules)

end Load

/-! ## Single words -/

theorem cutAt_eq_none (free : c ∉ s) : cutAt c s = none := by
  induction s with
  | nil => rfl
  | cons a rest ih =>
    rw [mem_cons, not_or] at free
    rw [cutAt, if_neg (Ne.symm free.1), ih free.2]
    rfl

theorem cutAt_append (free : c ∉ a) (b : List Char) : cutAt c (a ++ c :: b) = some (a, b) := by
  induction a with
  | nil => rw [nil_append, cutAt, if_pos rfl]
  | cons first rest ih =>
    rw [mem_cons, not_or] at free
    rw [cons_append, cutAt, if_neg (Ne.symm free.1), ih free.2]
    rfl

theorem firstCut_eq_none (free : ∀ mark ∈ marks, mark.1 ∉ s) : firstCut s marks = none := by
  induction marks with
  | nil => rfl
  | cons mark marks ih =>
    rw [firstCut, cutAt_eq_none (free mark mem_cons_self)]
    exact ih fun other mem => free other (mem_cons_of_mem mark mem)

theorem cutAt_eq_some (cut : cutAt c s = some (a, b)) : s = a ++ c :: b := by
  induction s generalizing a with
  | nil => cases cut
  | cons first rest ih =>
    rw [cutAt] at cut
    split at cut
    · rename_i here
      cases cut
      rw [here, nil_append]
    · rw [Option.map_eq_some_iff] at cut
      rcases cut with ⟨⟨before, after⟩, inner, equal⟩
      cases equal
      rw [ih inner, cons_append]

theorem notMem_of_cutAt (uncut : cutAt c s = none) : c ∉ s := by
  intro mem
  obtain ⟨a, b, rfl, free⟩ := eq_append_cons_of_mem mem
  rw [cutAt_append free] at uncut
  cases uncut

theorem notMem_of_firstCut (uncut : firstCut s marks = none) : ∀ mark ∈ marks, mark.1 ∉ s := by
  induction marks with
  | nil => nofun
  | cons first marks ih =>
    rw [firstCut] at uncut
    split at uncut
    · cases uncut
    · rename_i none
      exact forall_mem_cons.mpr ⟨notMem_of_cutAt none, ih uncut⟩

theorem exists_of_firstCut (cut : firstCut s marks = some (a, token, b)) :
    ∃ c, (c, token) ∈ marks ∧ s = a ++ c :: b := by
  induction marks with
  | nil => cases cut
  | cons mark marks ih =>
    rw [firstCut] at cut
    split at cut
    · rename_i here
      cases cut
      exact ⟨mark.1, mem_cons_self, cutAt_eq_some here⟩
    · rcases ih cut with ⟨c, mem, equal⟩
      exact ⟨c, mem_cons_of_mem mark mem, equal⟩

theorem extractToken_of_keyword (found : keywords.lookup s = some token) :
    extractToken s = [token] := by
  rw [extractToken.eq_def, found]

theorem lastToken_of_not_number (notNumber : ¬ ['0', 'x'] <+: s) :
    lastToken s = .ID (String.ofList s) := by
  unfold lastToken
  split
  · exact absurd ⟨_, rfl⟩ notNumber
  · rfl

/-- A word that is neither a keyword nor divided by a delimiter is one token. -/
theorem extractToken_of_solid (nonempty : s ≠ []) (notKeyword : keywords.lookup s = none)
    (free : ∀ mark ∈ delimiters, mark.1 ∉ s) (notTilde : s.head? ≠ some '~') :
    extractToken s = [lastToken s] := by
  cases s with
  | nil => exact absurd rfl nonempty
  | cons c rest =>
    have solid := firstCut_eq_none free
    rw [head?_cons, ne_eq, Option.some.injEq] at notTilde
    rw [extractToken.eq_def, notKeyword]
    dsimp only
    split
    · rename_i cut
      rw [solid] at cut
      cases cut
    · rw [if_neg notTilde]

/-- A word is divided where it is cut. -/
theorem extractToken_of_cut (nonempty : s ≠ []) (notKeyword : keywords.lookup s = none)
    (cut : firstCut s delimiters = some (a, token, b)) :
    extractToken s = extractToken a ++ token :: extractToken b := by
  cases s with
  | nil => exact absurd rfl nonempty
  | cons first rest =>
    rw [extractToken.eq_def, notKeyword]
    dsimp only
    split
    · rename_i found
      rw [cut] at found
      cases found
      rfl
    · rename_i none
      rw [cut] at none
      cases none

/-- A tilde in front of a word without delimiters is a token. -/
theorem extractToken_of_tilde {rest : List Char} (notKeyword : keywords.lookup ('~' :: rest) = none)
    (solid : firstCut ('~' :: rest) delimiters = none) :
    extractToken ('~' :: rest) = .TL :: extractToken rest := by
  rw [extractToken.eq_def, notKeyword]
  dsimp only
  split
  · rename_i cut
    rw [solid] at cut
    cases cut
  · rw [if_pos rfl]

/-- A delimiter divides a word whose parts have no delimiter before it. -/
theorem extractToken_append (before : List (Char × Token)) (c : Char) (token : Token)
    {after : List (Char × Token)} (marks : delimiters = before ++ (c, token) :: after)
    (a b : List Char) (notKeyword : keywords.lookup (a ++ c :: b) = none)
    (free : ∀ mark ∈ before, mark.1 ∉ a ++ c :: b) (notIn : c ∉ a) :
    extractToken (a ++ c :: b) = extractToken a ++ token :: extractToken b := by
  have cut : firstCut (a ++ c :: b) delimiters = some (a, token, b) := by
    rw [marks]
    clear marks
    induction before with
    | nil => rw [nil_append, firstCut, cutAt_append notIn]
    | cons mark before ih =>
      rw [cons_append, firstCut, cutAt_eq_none (free mark mem_cons_self)]
      exact ih fun other mem => free other (mem_cons_of_mem mark mem)
  exact extractToken_of_cut (by simp) notKeyword cut

/-- A name that the lexer takes as one: not empty, not a keyword, without white
space and delimiters, and without the marks of a complement or a number in
front. -/
structure IsName (name : String) : Prop where
  nonempty : name.toList ≠ []
  notKeyword : keywords.lookup name.toList = none
  solid : ∀ c ∈ name.toList, isWhitespace c = false
  free : ∀ mark ∈ delimiters, mark.1 ∉ name.toList
  notTilde : name.toList.head? ≠ some '~'
  notNumber : ¬ ['0', 'x'] <+: name.toList

theorem IsName.extractToken_eq (isName : IsName name) : extractToken name.toList = [.ID name] := by
  rw [extractToken_of_solid isName.nonempty isName.notKeyword isName.free isName.notTilde,
    lastToken_of_not_number isName.notNumber, String.ofList_toList]

theorem IsName.isWord (isName : IsName name) : IsWord isWhitespace name.toList :=
  ⟨isName.nonempty, isName.solid⟩

theorem extractToken_nil : extractToken [] = [] := by
  rw [extractToken.eq_def]
  rfl

theorem extractToken_openBrace : extractToken ['\x7b'] = [.LB] := by
  have cut := extractToken_append [] '\x7b' .LB rfl [] [] (by decide) (by simp) (by simp)
  rw [extractToken_nil] at cut
  exact cut

theorem extractToken_closeBrace : extractToken ['\x7d'] = [.RB] := by
  have cut := extractToken_append [('\x7b', .LB)] '\x7d' .RB rfl [] [] (by decide) (by decide)
    (by simp)
  rw [extractToken_nil] at cut
  exact cut

/-! ## Lines -/

/-- A printed line: words joined by spaces, and a line end. -/
def line (words : List (List UInt8)) : List UInt8 :=
  unwords 0x20 words ++ [10]

section Line

variable {frame : KeyFrame} {others : PolicyDb → Call → Except Stop PolicyDb} {words : List String}

/-- The text of a line. -/
def lineText (words : List String) : String :=
  String.ofList (unwords ' ' (words.map String.toList) ++ ['\n'])

theorem utf8_unwords (words : List String) :
    utf8 (String.ofList (unwords ' ' (words.map String.toList))) =
      unwords 0x20 (words.map utf8) := by
  have joined := translate_unwords (fun chars => utf8 (String.ofList chars)) ' ' 0x20 (by decide)
    (fun left right => by rw [String.ofList_append, utf8_append]) (by decide)
    (words.map String.toList)
  have texts : (fun chars => utf8 (String.ofList chars)) ∘ String.toList = utf8 := by
    funext text
    rw [Function.comp_apply, String.ofList_toList]
  rw [map_map, texts] at joined
  exact joined

theorem utf8_lineText (words : List String) : utf8 (lineText words) = line (words.map utf8) := by
  have single : utf8 (String.ofList ['\n']) = [10] := by decide
  rw [lineText, String.ofList_append, utf8_append, utf8_unwords, single, line]

/-- The tokens of a line. -/
def lineTokens (words : List String) : List Token :=
  words.flatMap fun word => extractToken word.toList

/-- Words that make a statement: they are words, and the first is no comment. -/
structure IsLine (words : List String) : Prop where
  areWords : ∀ word ∈ words, IsWord isWhitespace word.toList
  starts : ∃ c, (words.head?.bind fun word => word.toList.head?) = some c ∧ c ≠ '#'

section

variable (isLine : IsLine words)
include isLine

theorem IsLine.ne_nil : words ≠ [] := by
  rintro rfl
  rcases isLine.starts with ⟨c, found, _⟩
  cases found

theorem IsLine.areWords_map :
    ∀ word ∈ words.map String.toList, IsWord isWhitespace word := by
  intro word mem
  rcases mem_map.mp mem with ⟨text, textMem, rfl⟩
  exact isLine.areWords text textMem

/-- A line is trimmed to its words. -/
theorem IsLine.trim_eq :
    trim isWhitespace (lineText words).toList = unwords ' ' (words.map String.toList) := by
  rw [lineText, String.toList_ofList]
  refine trim_unwords_append (by decide) ?_ isLine.areWords_map
  rw [ne_eq, map_eq_nil_iff]
  exact isLine.ne_nil

/-- The words of a line are what is parsed. -/
theorem IsLine.parseStatement_eq (db : PolicyDb) :
    db.parseStatement frame others (lineText words).toList =
      match execStatement (lineTokens words) with
      | .ok call => db.perform frame others call
      | .error _ => .ok db := by
  have tokens : tokenizeStatement (unwords ' ' (words.map String.toList)) = lineTokens words := by
    rw [tokenizeStatement, words_unwords (by decide) isLine.areWords_map, flatMap_map]
    rfl
  have starts : ∃ c tail, unwords ' ' (words.map String.toList) = c :: tail ∧ c ≠ '#' := by
    rcases isLine.starts with ⟨c, found, notComment⟩
    cases words with
    | nil => cases found
    | cons word rest =>
      rcases unwords_cons_eq_append ' ' word.toList (rest.map String.toList) with ⟨tail, equal⟩
      have isWord := isLine.areWords word mem_cons_self
      rcases isWord.head?_append tail with ⟨a, after, starts, _, head⟩
      rw [head?_cons, Option.bind_some, head, Option.some.injEq] at found
      subst a
      exact ⟨c, after, equal.trans starts, notComment⟩
  rcases starts with ⟨c, tail, equal, notComment⟩
  rw [PolicyDb.parseStatement, isLine.trim_eq, tokens, equal, if_neg]
  simpa using notComment

/-- A line in front of a text is performed before the rest. -/
theorem IsLine.loadRules_append (db : PolicyDb) (rest : List UInt8) :
    db.loadRules frame others (line (words.map utf8) ++ rest) =
      match db.parseStatement frame others (lineText words).toList with
      | .ok after => after.loadRules frame others rest
      | .error stop => .error stop := by
  have inside : 10 ∉ unwords 0x20 (words.map utf8) := by
    intro mem
    rw [← utf8_unwords] at mem
    have newline : '\n' ∈ unwords ' ' (words.map String.toList) :=
      mem_of_ascii_mem_utf8 (by decide) mem
    rcases mem_unwords newline with space | ⟨word, wordMem, mem⟩
    · cases space
    · have solid := (isLine.areWords_map word wordMem).solid _ mem
      cases solid
  rw [PolicyDb.loadRules, line, append_assoc, singleton_append,
    splitLines_append inside, ← line, ← utf8_lineText, PolicyDb.loadLines, fromUtf8_utf8]
  rfl

end

end Line

end Magisk.SePolicy
