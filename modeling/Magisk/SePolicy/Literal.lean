import Magisk.Bytes.Hex
import Magisk.SePolicy.Lexer

/-!
# Ioctl literals

An ioctl is written as `0x` and one to four hexadecimal digits.  The lexer cuts a
word at all its delimiters, in whatever order it looks for them, so that such a
literal always becomes a token of its own.  Its digits are then read as decimal
ones, and what cannot be read counts as zero.
-/

namespace Magisk.SePolicy

open List Bytes Text

variable {c : Char} {part s : List Char} {value : UInt16}

/-! ## Words with delimiters -/

variable {token : Token}

/-- No keyword has a delimiter. -/
theorem lookup_keywords_of_delimiter (mark : (c, token) ∈ delimiters) (mem : c ∈ s) :
    keywords.lookup s = none := by
  have free : ∀ entry ∈ keywords, ∀ mark ∈ delimiters, mark.1 ∉ entry.1 := by decide
  rw [lookup_eq_none_iff]
  intro entry entryMem
  rw [bne_iff_ne]
  rintro rfl
  exact free entry entryMem _ mark mem

theorem lookup_keywords_of_head (others : ∀ entry ∈ keywords, entry.1.head? ≠ some c)
    (rest : List Char) : keywords.lookup (c :: rest) = none := by
  rw [lookup_eq_none_iff]
  intro entry mem
  rw [bne_iff_ne]
  intro same
  apply others entry mem
  rw [← same, head?_cons]

/-- A word with a delimiter is cut at some delimiter. -/
theorem exists_extractToken_eq (mark : (c, token) ∈ delimiters) (mem : c ∈ s) :
    ∃ a d other b, (d, other) ∈ delimiters ∧ s = a ++ d :: b ∧
      extractToken s = extractToken a ++ other :: extractToken b := by
  cases cut : firstCut s delimiters with
  | none => exact absurd mem (notMem_of_firstCut cut _ mark)
  | some parts =>
    rcases parts with ⟨a, other, b⟩
    rcases exists_of_firstCut cut with ⟨d, otherMark, equal⟩
    refine ⟨a, d, other, b, otherMark, equal, ?_⟩
    rw [extractToken.eq_def, lookup_keywords_of_delimiter mark mem]
    cases s with
    | nil => cases mem
    | cons first rest =>
      dsimp only
      split
      · rename_i found
        rw [cut] at found
        cases found
        rfl
      · rename_i none
        rw [cut] at none
        cases none

theorem token_of_delimiter {first second : Token} (mark : (c, first) ∈ delimiters)
    (other : (c, second) ∈ delimiters) : first = second := by
  have unique : ∀ mark ∈ delimiters, ∀ other ∈ delimiters, mark.1 = other.1 → mark.2 = other.2 := by
    decide
  exact unique _ mark _ other rfl

/-- Every delimiter of a word divides it, whichever is looked for first. -/
theorem extractToken_delimiter (mark : (c, token) ∈ delimiters) (a b : List Char) :
    extractToken (a ++ c :: b) = extractToken a ++ token :: extractToken b := by
  induction size : (a ++ c :: b).length using Nat.strong_induction_on generalizing a b c token with
  | _ size ih =>
    have inside : c ∈ a ++ c :: b := mem_append_right a mem_cons_self
    rcases exists_extractToken_eq mark inside with ⟨p, d, other, q, otherMark, equal, cut⟩
    subst size
    rw [cut]
    rcases append_eq_append_iff.mp equal with ⟨middle, isP, isB⟩ | ⟨middle, isA, isQ⟩
    · rcases cons_eq_append_iff.mp isB with ⟨rfl, same⟩ | ⟨inner, rfl, rfl⟩
      · cases same
        rw [isP, append_nil, token_of_delimiter mark otherMark]
      · have shorter : (a ++ c :: inner).length < (a ++ c :: (inner ++ d :: q)).length := by
          simp
        have later : (inner ++ d :: q).length < (a ++ c :: (inner ++ d :: q)).length := by
          simp
          omega
        rw [isP, ih _ shorter mark a inner rfl, ih _ later otherMark inner q rfl,
          append_assoc, cons_append]
    · rcases cons_eq_append_iff.mp isQ with ⟨rfl, same⟩ | ⟨inner, rfl, rfl⟩
      · cases same
        rw [isA, append_nil, token_of_delimiter mark otherMark]
      · subst isA
        have shorter : (p ++ d :: inner).length < (p ++ d :: inner ++ c :: b).length := by
          simp
        have later : (inner ++ c :: b).length < (p ++ d :: inner ++ c :: b).length := by
          simp
          omega
        rw [ih _ shorter otherMark p inner rfl, ih _ later mark inner b rfl, append_assoc,
          cons_append]

/-! ## Places of a token -/

/-- Nothing but tildes stands between the last delimiter and the token. -/
def Opens (before : List Char) : Prop :=
  ∃ outer count, before = outer ++ replicate count '~' ∧
    (outer = [] ∨ ∃ rest mark, mark ∈ delimiters ∧ outer = rest ++ [mark.1])

/-- The word ends or goes on with a delimiter. -/
def Closes (after : List Char) : Prop :=
  after = [] ∨ ∃ mark rest, mark ∈ delimiters ∧ after = mark.1 :: rest

/-- A text without delimiters. -/
def Undivided (part : List Char) : Prop :=
  ∀ mark ∈ delimiters, mark.1 ∉ part

theorem extractToken_tilde (undivided : Undivided part) :
    extractToken ('~' :: part) = .TL :: extractToken part := by
  have uncut : firstCut ('~' :: part) delimiters = none := by
    apply firstCut_eq_none
    intro mark mem
    have notTilde : ∀ mark ∈ delimiters, mark.1 ≠ '~' := by decide
    rw [mem_cons, not_or]
    exact ⟨notTilde mark mem, undivided mark mem⟩
  rw [extractToken.eq_def, lookup_keywords_of_head (by decide)]
  dsimp only
  split
  · rename_i cut
    rw [uncut] at cut
    cases cut
  · rw [if_pos rfl]

theorem undivided_replicate_append (count : Nat) (undivided : Undivided part) :
    Undivided (replicate count '~' ++ part) := by
  have notTilde : ∀ mark ∈ delimiters, mark.1 ≠ '~' := by decide
  intro mark mem inside
  rcases mem_append.mp inside with tilde | inside
  · exact notTilde mark mem (eq_of_mem_replicate tilde)
  · exact undivided mark mem inside

theorem extractToken_tildes (count : Nat) (undivided : Undivided part) :
    extractToken (replicate count '~' ++ part) = replicate count .TL ++ extractToken part := by
  induction count with
  | zero => rfl
  | succ count ih =>
    rw [replicate_succ, cons_append,
      extractToken_tilde (undivided_replicate_append count undivided), ih, replicate_succ,
      cons_append]

/-- A part between delimiters is read on its own. -/
theorem extractToken_place {before after : List Char} (opens : Opens before)
    (undivided : Undivided part) (closes : Closes after) :
    extractToken (before ++ part ++ after) =
      extractToken before ++ extractToken part ++ extractToken after := by
  have front : extractToken (before ++ part) = extractToken before ++ extractToken part := by
    rcases opens with ⟨outer, count, rfl, outside⟩
    have tildes := extractToken_tildes count undivided
    have alone := extractToken_tildes count fun _ _ => not_mem_nil
    rw [append_nil, extractToken_nil, append_nil] at alone
    rcases outside with rfl | ⟨rest, mark, mem, rfl⟩
    · rw [nil_append, tildes, alone]
    · rw [append_assoc, append_assoc, append_assoc, singleton_append,
        singleton_append, extractToken_delimiter mem, extractToken_delimiter mem, tildes,
        alone, append_assoc, cons_append]
  rcases closes with rfl | ⟨mark, rest, mem, rfl⟩
  · rw [append_nil, front, extractToken_nil, append_nil]
  · have back := extractToken_delimiter mem [] rest
    rw [nil_append, extractToken_nil, nil_append] at back
    rw [extractToken_delimiter mem, front, back]

variable {digits : List Char}

/-- What stands behind `0x` is one number. -/
theorem extractToken_number (undivided : Undivided digits) :
    extractToken ('0' :: 'x' :: digits) = [.HX ((parseU16 digits).getD 0)] := by
  apply extractToken_of_solid
  · nofun
  · exact lookup_keywords_of_head (by decide) _
  · have others : ∀ mark ∈ delimiters, mark.1 ≠ '0' ∧ mark.1 ≠ 'x' := by decide
    intro mark mem
    rw [mem_cons, mem_cons, not_or, not_or]
    exact ⟨(others mark mem).1, (others mark mem).2, undivided mark mem⟩
  · rw [head?_cons]
    decide

/-! ## Values of literals -/

/-- The value of one to four hexadecimal digits. -/
def literalValue (digits : List Char) : Option UInt16 :=
  if 1 ≤ digits.length ∧ digits.length ≤ 4 then (readHex 0 digits).map UInt16.ofNat else none

theorem decimalDigit?_of_hexDigit? {digit : Nat} (hexadecimal : hexDigit? c = some digit) :
    decimalDigit? c = if digit < 10 then some digit else none := by
  have nine : '9'.toNat = 57 := rfl
  have zero : '0'.toNat = 48 := rfl
  rw [hexDigit?] at hexadecimal
  rw [decimalDigit?]
  split at hexadecimal
  · rename_i decimal
    have high : c.toNat ≤ '9'.toNat := decimal.2
    cases hexadecimal
    rw [if_pos decimal, if_pos (by omega)]
  · rename_i notDecimal
    rw [if_neg notDecimal]
    split at hexadecimal
    · cases hexadecimal
      rw [if_neg (by omega)]
    · split at hexadecimal
      · cases hexadecimal
        rw [if_neg (by omega)]
      · cases hexadecimal

/-- The decimal reading of digits behind a positive number is less than the
hexadecimal one. -/
theorem lt_of_parseDigits {low acc read value : Nat} (decimal : parseDigits low digits = some read)
    (hexadecimal : readHex acc digits = some value) (le : low ≤ acc) :
    read ≤ value ∧ (low < acc ∨ 0 < acc ∧ digits ≠ [] → read < value) := by
  induction digits generalizing low acc with
  | nil =>
    cases decimal
    cases hexadecimal
    refine ⟨le, ?_⟩
    rintro (lt | ⟨_, nonempty⟩)
    · exact lt
    · exact absurd rfl nonempty
  | cons c rest ih =>
    rw [readHex] at hexadecimal
    rw [parseDigits] at decimal
    split at hexadecimal
    · cases hexadecimal
    · rename_i digit isDigit
      rw [decimalDigit?_of_hexDigit? isDigit] at decimal
      by_cases small : digit < 10
      · rw [if_pos small] at decimal
        dsimp only at decimal
        split at decimal
        · cases decimal
        · have further := ih decimal hexadecimal (by omega)
          exact ⟨further.1, fun _ => further.2 (Or.inl (by omega))⟩
      · rw [if_neg small] at decimal
        cases decimal

/-- The two readings agree on numbers below ten only. -/
theorem parseDigits_eq_iff {value : Nat} (hexadecimal : readHex 0 digits = some value) :
    (parseDigits 0 digits).getD 0 = value ↔ value < 10 := by
  induction digits with
  | nil =>
    cases hexadecimal
    decide
  | cons c rest ih =>
    rw [readHex] at hexadecimal
    rw [parseDigits]
    split at hexadecimal
    · cases hexadecimal
    · rename_i digit isDigit
      have least := le_of_readHex hexadecimal
      rw [Nat.zero_add] at hexadecimal least
      rw [decimalDigit?_of_hexDigit? isDigit]
      by_cases small : digit < 10
      · simp only [if_pos small, Nat.zero_mul, Nat.zero_add]
        rw [if_neg (by omega)]
        rcases Nat.eq_zero_or_pos digit with rfl | positive
        · exact ih hexadecimal
        · cases rest with
          | nil =>
            cases hexadecimal
            rw [parseDigits, Option.getD_some]
            omega
          | cons next rest =>
            have large : 10 ≤ value := by
              rw [readHex] at hexadecimal
              split at hexadecimal
              · cases hexadecimal
              · have further := le_of_readHex hexadecimal
                omega
            cases decimal : parseDigits digit (next :: rest) with
            | none =>
              rw [Option.getD_none]
              omega
            | some read =>
              have less := (lt_of_parseDigits decimal hexadecimal le_rfl).2
                (Or.inr ⟨positive, by simp⟩)
              rw [Option.getD_some]
              omega
      · simp only [if_neg small, Option.getD_none]
        omega

/-- A literal is read right exactly if its value is below ten. -/
theorem parseU16_eq_iff (literal : literalValue digits = some value) :
    (parseU16 digits).getD 0 = value ↔ value < 10 := by
  rw [literalValue, Option.ite_none_right_eq_some, Option.map_eq_some_iff] at literal
  rcases literal with ⟨⟨nonempty, short⟩, number, hexadecimal, rfl⟩
  have fits : number < 65536 := by
    calc number < (0 + 1) * 16 ^ digits.length := lt_of_readHex hexadecimal
      _ = 16 ^ digits.length := Nat.one_mul _
      _ ≤ 16 ^ 4 := Nat.pow_le_pow_right (by decide) short
  have unsignedDigits : unsigned digits = digits := by
    cases digits with
    | nil => rfl
    | cons c rest =>
      rw [unsigned, if_neg]
      rintro rfl
      cases hexadecimal
  have notEmpty : digits ≠ [] := ne_nil_of_length_pos nonempty
  have toNat : (UInt16.ofNat number).toNat = number := UInt16.toNat_ofNat_of_lt' fits
  have agree := parseDigits_eq_iff hexadecimal
  rw [parseU16, unsignedDigits, if_neg notEmpty, UInt16.lt_iff_toNat_lt, ← UInt16.toNat_inj, toNat]
  change _ ↔ number < 10
  rw [← agree]
  cases decimal : parseDigits 0 digits with
  | none => rfl
  | some read =>
    have le := (lt_of_parseDigits decimal hexadecimal le_rfl).1
    rw [Option.map_some, Option.getD_some, Option.getD_some,
      UInt16.toNat_ofNat_of_lt' (lt_of_le_of_lt le fits)]

/-! ## Statements with numbers -/

/-- A token without the value of its number. -/
def Token.blank : Token → Token
  | .HX _ => .HX 0
  | token => token

/-- Tokens that are no numbers. -/
def Unnumbered (tokens : List Token) : Prop :=
  ∀ value, .HX value ∉ tokens

theorem eq_of_blank {other : Token} (same : token.blank = other.blank)
    (unnumbered : ∀ value, other ≠ .HX value) : token = other := by
  cases other with
  | HX value => exact absurd rfl (unnumbered value)
  | _ => cases token <;> simp_all [Token.blank]

theorem exists_of_blank (same : token.blank = (Token.HX value).blank) :
    ∃ other, token = .HX other := by
  cases token with
  | HX other => exact ⟨other, rfl⟩
  | _ => cases same

variable {tokens : List Token}

theorem eq_of_map_blank {others : List Token}
    (same : tokens.map Token.blank = others.map Token.blank) (unnumbered : Unnumbered others) :
    tokens = others := by
  induction others generalizing tokens with
  | nil => exact map_eq_nil_iff.mp same
  | cons other others ih =>
    rcases map_eq_cons_iff.mp same with ⟨token, rest, rfl, head, tail⟩
    have first := eq_of_blank head fun value isNumber =>
      unnumbered value (isNumber ▸ mem_cons_self)
    rw [first, ih tail fun value mem => unnumbered value (mem_cons_of_mem other mem)]

theorem exists_items_of_map_blank {items : List IoctlItem}
    (same : tokens.map Token.blank = (items.flatMap IoctlItem.tokens).map Token.blank) :
    ∃ others : List IoctlItem, tokens = others.flatMap IoctlItem.tokens ∧
      others.length = items.length := by
  induction items generalizing tokens with
  | nil => exact ⟨[], map_eq_nil_iff.mp same, rfl⟩
  | cons item items ih =>
    rw [flatMap_cons, map_append] at same
    rcases map_eq_append_iff.mp same with ⟨front, rest, rfl, head, tail⟩
    rcases ih tail with ⟨others, rfl, length⟩
    cases item with
    | value low =>
      rcases map_eq_cons_iff.mp head with ⟨token, none, rfl, isLow, empty⟩
      rcases exists_of_blank isLow with ⟨other, rfl⟩
      refine ⟨.value other :: others, ?_, by rw [length_cons, length, length_cons]⟩
      rw [map_eq_nil_iff.mp empty]
      rfl
    | range low high =>
      rcases map_eq_cons_iff.mp head with ⟨token, behind, rfl, isLow, behindLow⟩
      rcases map_eq_cons_iff.mp behindLow with ⟨hyphen, last, rfl, isHyphen, behindHyphen⟩
      rcases map_eq_cons_iff.mp behindHyphen with ⟨token, none, rfl, isHigh, empty⟩
      rcases exists_of_blank isLow with ⟨first, rfl⟩
      rcases exists_of_blank isHigh with ⟨second, rfl⟩
      refine ⟨.range first second :: others, ?_, by rw [length_cons, length, length_cons]⟩
      rw [map_eq_nil_iff.mp empty, eq_of_blank isHyphen nofun]
      rfl

theorem XpermsTree.exists_of_map_blank (tree : XpermsTree)
    (same : tokens.map Token.blank = tree.tokens.map Token.blank) :
    ∃ other : XpermsTree, tokens = other.tokens := by
  cases tree with
  | value low =>
    rcases map_eq_cons_iff.mp same with ⟨token, none, rfl, isLow, empty⟩
    rcases exists_of_blank isLow with ⟨other, rfl⟩
    exact ⟨.value other, by rw [map_eq_nil_iff.mp empty, XpermsTree.tokens]⟩
  | list complement first rest =>
    rw [XpermsTree.tokens, map_append] at same
    rcases map_eq_append_iff.mp same with ⟨tilde, braces, rfl, head, tail⟩
    rcases map_eq_cons_iff.mp tail with ⟨brace, inner, rfl, isBrace, behind⟩
    rw [map_append] at behind
    rcases map_eq_append_iff.mp behind with ⟨items, close, rfl, isItems, isClose⟩
    rcases exists_items_of_map_blank isItems with ⟨others, rfl, length⟩
    cases others with
    | nil => cases length
    | cons other others =>
      refine ⟨.list complement other others, ?_⟩
      rw [XpermsTree.tokens, eq_of_map_blank head, eq_of_blank isBrace (by simp),
        eq_of_map_blank isClose]
      · simp [Unnumbered]
      · cases complement <;> simp [Unnumbered]
  | star => exact ⟨.star, eq_of_map_blank same (by simp [Unnumbered, XpermsTree.tokens])⟩

theorem Unnumbered.append {front back : List Token} (first : Unnumbered front)
    (second : Unnumbered back) : Unnumbered (front ++ back) := by
  intro value mem
  rcases mem_append.mp mem with mem | mem
  · exact first value mem
  · exact second value mem

theorem StermTree.unnumbered (tree : StermTree) : Unnumbered tree.tokens := by
  intro value
  cases tree with
  | id name => simp [StermTree.tokens]
  | star => simp [StermTree.tokens]
  | braces items =>
    have other : ∀ item : NameItem, item.token ≠ .HX value := by
      rintro (name | _) <;> simp [NameItem.token]
    simp [StermTree.tokens, other]

theorem TermTree.unnumbered (tree : TermTree) : Unnumbered tree.tokens := by
  intro value
  cases tree <;> simp [TermTree.tokens]

theorem Unnumbered.cons {rest : List Token} (first : ∀ value, token ≠ .HX value)
    (others : Unnumbered rest) : Unnumbered (token :: rest) := by
  intro value mem
  rcases mem_cons.mp mem with same | mem
  · exact first value same.symm
  · exact others value mem

/-- Only extended permissions have numbers. -/
theorem StatementTree.unnumbered_or (tree : StatementTree) : Unnumbered tree.tokens ∨
      ∃ front p, Unnumbered front ∧ tree.tokens = front ++ XpermsTree.tokens p ∧
        ∀ q : XpermsTree, ∃ other : StatementTree, other.tokens = front ++ q.tokens := by
  cases tree with
  | av action s t c p =>
    left
    refine Unnumbered.cons ?_ ?_
    · cases action <;> nofun
    · exact s.unnumbered.append (t.unnumbered.append (c.unnumbered.append p.unnumbered))
  | xperm action s t c p =>
    right
    refine ⟨action.token :: (s.tokens ++ (t.tokens ++ (c.tokens ++ [.ID "ioctl"]))), p, ?_, ?_,
      fun q => ⟨.xperm action s t c q, ?_⟩⟩
    · refine Unnumbered.cons ?_ ?_
      · cases action <;> nofun
      · exact s.unnumbered.append (t.unnumbered.append (c.unnumbered.append
          (Unnumbered.cons nofun fun _ => not_mem_nil)))
    · simp only [StatementTree.tokens, cons_append, append_assoc, nil_append]
    · simp only [StatementTree.tokens, cons_append, append_assoc, nil_append]
  | state action t =>
    left
    refine Unnumbered.cons ?_ t.unnumbered
    cases action <;> nofun
  | typeattribute t a => exact Or.inl (Unnumbered.cons nofun (t.unnumbered.append a.unnumbered))
  | type t a =>
    left
    refine Unnumbered.cons nofun (Unnumbered.cons nofun ?_)
    cases a with
    | none => exact fun _ => not_mem_nil
    | some a => exact a.unnumbered
  | newAttr t => exact Or.inl (by simp [Unnumbered, StatementTree.tokens])
  | transition s t c d o =>
    left
    cases o <;> simp [Unnumbered, StatementTree.tokens]
  | typeRule action s t c d =>
    left
    refine Unnumbered.cons ?_ (by simp [Unnumbered])
    cases action <;> nofun
  | genfscon s t c => exact Or.inl (by simp [Unnumbered, StatementTree.tokens])

/-- Which numbers stand in a statement does not matter for its form. -/
theorem StatementTree.exists_of_map_blank (tree : StatementTree)
    (same : tokens.map Token.blank = tree.tokens.map Token.blank) :
    ∃ other : StatementTree, tokens = other.tokens := by
  rcases tree.unnumbered_or with unnumbered | ⟨front, p, unnumbered, isTree, others⟩
  · exact ⟨tree, eq_of_map_blank same unnumbered⟩
  · rw [isTree, map_append] at same
    rcases map_eq_append_iff.mp same with ⟨head, tail, rfl, isFront, isTail⟩
    rcases p.exists_of_map_blank isTail with ⟨q, rfl⟩
    rcases others q with ⟨other, equal⟩
    exact ⟨other, by rw [equal, eq_of_map_blank isFront unnumbered]⟩

/-! ## Literals in a statement -/

/-- A string behind `0x` that stands in a statement between delimiters: the words
around its own word, and what its own word has in front of it and behind it. -/
structure Occurrence (statement : List Char) where
  left : List (List Char)
  before : List Char
  digits : List Char
  after : List Char
  right : List (List Char)
  words_eq : words isWhitespace statement =
    left ++ (before ++ '0' :: 'x' :: digits ++ after) :: right
  opens : Opens before
  undivided : Undivided digits
  closes : Closes after

namespace Occurrence

variable {statement : List Char}

/-- The tokens of the statement with some number at the place. -/
def tokensWith (place : Occurrence statement) (value : UInt16) : List Token :=
  place.left.flatMap extractToken ++ extractToken place.before ++
    .HX value :: (extractToken place.after ++ place.right.flatMap extractToken)

/-- A literal becomes the number it stands for, and anything else has the
statement rejected. -/
def Honoured (place : Occurrence statement) : Prop :=
  (∀ value, literalValue place.digits = some value →
    tokenizeStatement statement = place.tokensWith value) ∧
  (literalValue place.digits = none →
    ∃ error, execStatement (tokenizeStatement statement) = .error error)

theorem tokenizeStatement_eq (place : Occurrence statement) :
    tokenizeStatement statement = place.tokensWith ((parseU16 place.digits).getD 0) := by
  have undivided : Undivided ('0' :: 'x' :: place.digits) := by
    have others : ∀ mark ∈ delimiters, mark.1 ≠ '0' ∧ mark.1 ≠ 'x' := by decide
    intro mark mem
    rw [mem_cons, mem_cons, not_or, not_or]
    exact ⟨(others mark mem).1, (others mark mem).2, place.undivided mark mem⟩
  rw [tokenizeStatement, place.words_eq, flatMap_append, flatMap_cons,
    extractToken_place place.opens undivided place.closes, extractToken_number place.undivided,
    tokensWith]
  simp only [append_assoc, cons_append, nil_append]

theorem tokensWith_injective (place : Occurrence statement) :
    Function.Injective place.tokensWith := by
  intro first second same
  have tails := append_cancel_left same
  rw [List.cons.injEq, Token.HX.injEq] at tails
  exact tails.1

/-- Whether a statement is accepted does not depend on the number at the place. -/
theorem exists_execStatement_eq_ok (place : Occurrence statement) {first : UInt16} {call : Call}
    (accepted : execStatement (place.tokensWith first) = .ok call) (second : UInt16) :
    ∃ other, execStatement (place.tokensWith second) = .ok other := by
  rcases execStatement_eq_ok_iff.mp accepted with ⟨tree, isTree, _⟩
  have same : (place.tokensWith second).map Token.blank = tree.tokens.map Token.blank := by
    rw [← isTree, tokensWith, tokensWith]
    simp only [map_append, map_cons, Token.blank]
  rcases tree.exists_of_map_blank same with ⟨other, isOther⟩
  exact ⟨other.parsed, execStatement_eq_ok_iff.mpr ⟨other, isOther, rfl⟩⟩

/-- A literal is honoured exactly if its value is below ten, and any other string
behind `0x` exactly if no statement can have a number at its place. -/
theorem honoured_iff (place : Occurrence statement) : place.Honoured ↔
      (∀ value, literalValue place.digits = some value → value < 10) ∧
      (literalValue place.digits = none →
        ∀ value call, execStatement (place.tokensWith value) ≠ .ok call) := by
  rw [Honoured, place.tokenizeStatement_eq]
  apply and_congr
  · apply forall_congr'
    intro value
    apply imp_congr_right
    intro literal
    rw [place.tokensWith_injective.eq_iff]
    exact parseU16_eq_iff literal
  · apply imp_congr_right
    intro _
    constructor
    · rintro ⟨error, rejected⟩ value call accepted
      rcases place.exists_execStatement_eq_ok accepted ((parseU16 place.digits).getD 0) with
        ⟨other, executed⟩
      rw [rejected] at executed
      cases executed
    · intro never
      cases executed : execStatement (place.tokensWith ((parseU16 place.digits).getD 0)) with
      | error error => exact ⟨error, rfl⟩
      | ok call => exact absurd executed (never _ call)

/-- A place at the end of a rule for one source, target and class. -/
def atEnd (digits : List Char) (undivided : Undivided digits)
    (solid : words isWhitespace ("allowxperm s t c ioctl 0x".toList ++ digits) =
      ["allowxperm".toList, "s".toList, "t".toList, "c".toList, "ioctl".toList,
        '0' :: 'x' :: digits]) :
    Occurrence ("allowxperm s t c ioctl 0x".toList ++ digits) where
  left := ["allowxperm".toList, "s".toList, "t".toList, "c".toList, "ioctl".toList]
  before := []
  digits := digits
  after := []
  right := []
  words_eq := by rw [solid, append_nil]; rfl
  opens := ⟨[], 0, rfl, Or.inl rfl⟩
  undivided := undivided
  closes := Or.inl rfl

theorem isName_sample : ∀ name ∈ ["s", "t", "c", "ioctl"], IsName name := by
  have all : ∀ name ∈ ["s", "t", "c", "ioctl"], name.toList ≠ [] ∧
      keywords.lookup name.toList = none ∧
      (name.toList.all fun c => !isWhitespace c) = true ∧
      (∀ mark ∈ delimiters, mark.1 ∉ name.toList) ∧ name.toList.head? ≠ some '~' ∧
      ¬ ['0', 'x'] <+: name.toList := by
    decide
  intro name mem
  obtain ⟨nonempty, notKeyword, solid, free, notTilde, notNumber⟩ := all name mem
  exact ⟨nonempty, notKeyword, (isWord_of_all nonempty solid).solid, free, notTilde, notNumber⟩

section AtEnd

variable {digits : List Char} (undivided : Undivided digits)
  (solid : words isWhitespace ("allowxperm s t c ioctl 0x".toList ++ digits) =
    ["allowxperm".toList, "s".toList, "t".toList, "c".toList, "ioctl".toList,
      '0' :: 'x' :: digits])

theorem tokensWith_atEnd (value : UInt16) : (atEnd digits undivided solid).tokensWith value =
      (StatementTree.xperm .allowxperm (.id "s") (.id "t") (.id "c") (.value value)).tokens := by
  have action : extractToken "allowxperm".toList = [.AX] := extractToken_of_keyword (by decide)
  have names := fun name mem => (isName_sample name mem).extractToken_eq
  simp only [tokensWith, atEnd, flatMap_cons, action, extractToken_nil,
    names "s" (by decide), names "t" (by decide), names "c" (by decide),
    names "ioctl" (by decide)]
  rfl

theorem not_honoured_of_literal (literal : literalValue digits = some value)
    (other : (parseU16 digits).getD 0 ≠ value) : ¬ (atEnd digits undivided solid).Honoured := by
  intro honoured
  have read := honoured.1 value literal
  rw [(atEnd digits undivided solid).tokenizeStatement_eq] at read
  exact other (tokensWith_injective _ read)

theorem not_honoured_of_noLiteral (noLiteral : literalValue digits = none) :
    ¬ (atEnd digits undivided solid).Honoured := by
  intro honoured
  rcases honoured.2 noLiteral with ⟨error, rejected⟩
  rw [(atEnd digits undivided solid).tokenizeStatement_eq, tokensWith_atEnd] at rejected
  cases rejected.symm.trans (execStatement_eq_ok_iff.mpr ⟨_, rfl, rfl⟩)

end AtEnd

/-- The first number of the help text's example is read as another one, and a
string with too many digits is read as some number. -/
theorem not_honoured_samples :
    (∃ place : Occurrence ("allowxperm s t c ioctl 0x".toList ++ "8910".toList),
      literalValue place.digits = some 0x8910 ∧ ¬ place.Honoured) ∧
    ∃ place : Occurrence ("allowxperm s t c ioctl 0x".toList ++ "10000".toList),
      literalValue place.digits = none ∧ ¬ place.Honoured := by
  constructor
  · have literal : literalValue "8910".toList = some 0x8910 := by decide
    exact ⟨atEnd "8910".toList (by unfold Undivided; decide) (by decide), literal,
      not_honoured_of_literal _ _ literal (by decide)⟩
  · have noLiteral : literalValue "10000".toList = none := by decide
    exact ⟨atEnd "10000".toList (by unfold Undivided; decide) (by decide), noLiteral,
      not_honoured_of_noLiteral _ _ noLiteral⟩

end Occurrence

end Magisk.SePolicy
