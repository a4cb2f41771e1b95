import Magisk.SePolicy.Print

/-!
# The texts of tokens

The lexer loses nothing of a word but the spelling of its numbers: where no piece between
delimiters is a number, the texts of the tokens are the word.
-/

namespace Magisk.SePolicy

open List

/-- The text of a token, `Display` of `Token`. -/
def Token.text : Token → List Char
  | .AL => "allow".toList
  | .DN => "deny".toList
  | .AA => "auditallow".toList
  | .DA => "dontaudit".toList
  | .AX => "allowxperm".toList
  | .AY => "auditallowxperm".toList
  | .DX => "dontauditxperm".toList
  | .PM => "permissive".toList
  | .EF => "enforce".toList
  | .TA => "typeattribute".toList
  | .TY => "type".toList
  | .AT => "attribute".toList
  | .TT => "type_transition".toList
  | .TC => "type_change".toList
  | .TM => "type_member".toList
  | .GF => "genfscon".toList
  | .LB => ['\x7b']
  | .RB => ['\x7d']
  | .CM => [',']
  | .ST => ['*']
  | .TL => ['~']
  | .HP => ['-']
  | .HX value => '0' :: '0' :: hex4 value
  | .ID name => name.toList

theorem Token.text_ID (name : String) : (Token.ID name).text = name.toList :=
  rfl

/-- The characters that separate tokens. -/
def isDelimiter (c : Char) : Bool :=
  delimiters.any fun mark => mark.1 = c

/-- The maximal pieces of a word without delimiters. -/
def pieces (s : List Char) : List (List Char) :=
  s.splitOnP isDelimiter

/-- A piece that is a number, behind any number of tildes. -/
def IsNumber (piece : List Char) : Prop :=
  ['0', 'x'] <+: piece.dropWhile (· = '~')

instance (piece : List Char) : Decidable (IsNumber piece) :=
  inferInstanceAs (Decidable (['0', 'x'] <+: piece.dropWhile (· = '~')))

/-- What the lexer takes as a name: not empty, no keyword and no match-all operator, without
a tilde in front and without delimiters. -/
structure IsIdentifier (name : List Char) : Prop where
  nonempty : name ≠ []
  notKeyword : keywords.lookup name = none
  notTilde : name.head? ≠ some '~'
  free : ∀ c ∈ ['\x7b', '\x7d', ',', '-'], c ∉ name

/-- Tokens that say the same as a word, with proper names. -/
structure Spells (tokens : List Token) (s : List Char) : Prop where
  text : tokens.flatMap Token.text = s
  names : ∀ name, .ID name ∈ tokens → IsIdentifier name.toList

namespace Spells

theorem nil : Spells [] [] :=
  ⟨rfl, fun _ mem => nomatch mem⟩

theorem cons {token : Token} {tokens : List Token} {s : List Char}
    (notName : ∀ name, token ≠ .ID name) (spells : Spells tokens s) :
    Spells (token :: tokens) (token.text ++ s) := by
  refine ⟨by rw [flatMap_cons, spells.text], fun name mem => ?_⟩
  rcases mem_cons.mp mem with isToken | mem
  · exact absurd isToken.symm (notName name)
  · exact spells.names name mem

theorem append {first second : List Token} {a b : List Char} (one : Spells first a)
    (two : Spells second b) : Spells (first ++ second) (a ++ b) := by
  refine ⟨by rw [flatMap_append, one.text, two.text], fun name mem => ?_⟩
  rcases mem_append.mp mem with mem | mem
  · exact one.names name mem
  · exact two.names name mem

theorem name {s : List Char} (isIdentifier : IsIdentifier s) : Spells [.ID (String.ofList s)] s := by
  refine ⟨?_, fun name mem => ?_⟩
  · rw [flatMap_singleton, Token.text_ID, String.toList_ofList]
  · rw [Token.ID.inj (mem_singleton.mp mem), String.toList_ofList]
    exact isIdentifier

end Spells

/-! ## The tables -/

theorem text_of_keyword {s : List Char} {token : Token} (found : keywords.lookup s = some token) :
    token.text = s ∧ ∀ name, token ≠ .ID name := by
  have table : ∀ entry ∈ keywords, entry.2.text = entry.1 ∧ ∀ name, entry.2 ≠ .ID name := by
    intro entry mem
    fin_cases mem <;> exact ⟨rfl, nofun⟩
  obtain ⟨before, after, entries, -⟩ := lookup_eq_some_iff.mp found
  exact table (s, token) (entries ▸ mem_append_right before mem_cons_self)

theorem text_of_delimiter {mark : Char × Token} (mem : mark ∈ delimiters) :
    mark.2.text = [mark.1] ∧ isDelimiter mark.1 = true ∧ ∀ name, mark.2 ≠ .ID name := by
  fin_cases mem <;> exact ⟨rfl, rfl, nofun⟩

/-! ## Words -/

section Pieces

variable {s : List Char}

theorem pieces_append {c : Char} (delimiter : isDelimiter c = true) (a b : List Char) :
    pieces (a ++ c :: b) = pieces a ++ pieces b :=
  @splitOnP_append_cons _ isDelimiter a b c delimiter

theorem pieces_of_free (free : ∀ mark ∈ delimiters, mark.1 ∉ s) : pieces s = [s] := by
  apply splitOnP_eq_singleton
  intro c mem
  rw [isDelimiter, any_eq_false]
  intro mark isMark same
  rw [decide_eq_true_eq] at same
  exact free mark isMark (same ▸ mem)

end Pieces

/-- The lexer is lossless on words without numbers, and what it takes as names are names. -/
theorem extractToken_spells (s : List Char) (noNumber : ∀ piece ∈ pieces s, ¬ IsNumber piece) :
    Spells (extractToken s) s := by
  induction s using extractToken.induct with
  | case1 s token found =>
    obtain ⟨text, notName⟩ := text_of_keyword found
    have spells := Spells.nil.cons notName
    rwa [append_nil, text, ← extractToken_of_keyword found] at spells
  | case2 notKeyword =>
    rw [extractToken_nil]
    exact Spells.nil
  | case3 c rest a token b cut notKeyword ihA ihB =>
    obtain ⟨delimiter, mem, parts⟩ := exists_of_firstCut cut
    obtain ⟨text, isDelimiter, notName⟩ := text_of_delimiter mem
    rw [parts, pieces_append isDelimiter] at noNumber
    have before := ihA fun piece mem => noNumber piece (mem_append_left _ mem)
    have after := ihB fun piece mem => noNumber piece (mem_append_right _ mem)
    have spells := before.append (after.cons notName)
    rw [text, singleton_append, ← parts] at spells
    rwa [extractToken_of_cut (cons_ne_nil c rest) notKeyword cut]
  | case4 rest solid notKeyword ih =>
    have free := notMem_of_firstCut solid
    have freeRest : ∀ mark ∈ delimiters, mark.1 ∉ rest :=
      fun mark isMark mem => free mark isMark (mem_cons_of_mem _ mem)
    rw [pieces_of_free free, forall_mem_singleton] at noNumber
    rw [pieces_of_free freeRest, forall_mem_singleton] at ih
    have notName : ∀ name, Token.TL ≠ .ID name := nofun
    rw [extractToken_of_tilde notKeyword solid]
    exact (ih noNumber).cons notName
  | case5 c rest solid notTilde notKeyword =>
    have free := notMem_of_firstCut solid
    have headNotTilde : (c :: rest).head? ≠ some '~' := by simpa using notTilde
    rw [pieces_of_free free, forall_mem_singleton, IsNumber,
      dropWhile_cons_of_neg (by simpa using notTilde)] at noNumber
    rw [extractToken_of_solid (cons_ne_nil c rest) notKeyword free headNotTilde,
      lastToken_of_not_number noNumber]
    exact Spells.name ⟨cons_ne_nil c rest, notKeyword, headNotTilde, by simpa [delimiters] using free⟩

theorem extractToken_spells_statement :
    Spells (extractToken "\x7ballow-~type,a*b\x7d".toList) "\x7ballow-~type,a*b\x7d".toList :=
  extractToken_spells _ (by decide)

end Magisk.SePolicy
