import Magisk.Result.Core
import Magisk.SePolicy.Grammar

/-!
# The parser against the grammar

Every parser of `statement.rs` accepts exactly the tokens of the trees of its
kind and returns the value of the tree.  It follows the grammar on a token list
unless that list is the text of an irregular statement: one with empty braces,
with names after a match-all token that is still in force, or with the value
zero as its only extended permission.
-/

namespace Magisk.SePolicy

open StermTree List Result

/-! ## Parsers -/

section Reads

variable {α β γ : Type} {parse : List Token → Except ParseError (β × List Token)}
  {tokens : α → List Token} {value : α → β}

/-- A parser reads the tokens of trees of a kind, and returns their values. -/
def Reads (parse : List Token → ParseResult β) (tokens : α → List Token) (value : α → β) : Prop :=
  ∀ input result rest, parse input = .ok (result, rest) ↔
    ∃ tree, input = tokens tree ++ rest ∧ result = value tree

theorem Reads.of_shape (ran : ∀ tree rest, parse (tokens tree ++ rest) = .ok (value tree, rest))
    (shape : ∀ input result rest, parse input = .ok (result, rest) →
      ∃ tree, input = tokens tree ++ rest) : Reads parse tokens value := by
  intro input result rest
  constructor
  · intro parsed
    rcases shape input result rest parsed with ⟨tree, rfl⟩
    rw [ran, Except.ok.injEq, Prod.mk.injEq] at parsed
    exact ⟨tree, rfl, parsed.1.symm⟩
  · rintro ⟨tree, rfl, rfl⟩
    exact ran tree rest

theorem Reads.bind (reads : Reads parse tokens value) {input : List Token}
    {next : β × List Token → Except ParseError γ} {result : γ} :
    (parse input >>= next) = .ok result ↔
      ∃ tree rest, input = tokens tree ++ rest ∧ next (value tree, rest) = .ok result := by
  rw [bind_eq_ok_iff]
  constructor
  · rintro ⟨⟨parsed, rest⟩, ran, after⟩
    rcases (reads input parsed rest).mp ran with ⟨tree, rfl, rfl⟩
    exact ⟨tree, rest, rfl, after⟩
  · rintro ⟨tree, rest, rfl, after⟩
    exact ⟨_, (reads _ _ rest).mpr ⟨tree, rfl, rfl⟩, after⟩

end Reads

/-! ## Terms -/

theorem parseStarNames_none (items : List NameItem) (rest : List Token) :
    parseStarNames none (items.map NameItem.token ++ .RB :: rest) = .ok ([], rest) := by
  induction items with
  | nil => rfl
  | cons item items ih =>
    cases item with
    | id name => exact ih
    | star => exact ih

theorem parseStarNames_some (names : List String) (items : List NameItem) (rest : List Token) :
    parseStarNames (some names) (items.map NameItem.token ++ .RB :: rest) =
      .ok (if .star ∈ items then [] else names ++ items.filterMap NameItem.name?, rest) := by
  induction items generalizing names with
  | nil =>
    rw [filterMap_nil, append_nil]
    rfl
  | cons item items ih =>
    cases item with
    | id name =>
      have step := ih (names ++ [name])
      simpa [NameItem.token, NameItem.name?, parseStarNames] using step
    | star =>
      exact parseStarNames_none items rest

theorem exists_items_of_parseStarNames {start : Option (List String)} {tokens rest : List Token}
    {names : List String} (ran : parseStarNames start tokens = .ok (names, rest)) :
    ∃ items : List NameItem, tokens = items.map NameItem.token ++ .RB :: rest := by
  induction tokens generalizing start with
  | nil => cases ran
  | cons token tokens ih =>
    cases token with
    | ID name =>
      rcases ih ran with ⟨items, rfl⟩
      exact ⟨.id name :: items, rfl⟩
    | ST =>
      rcases ih ran with ⟨items, rfl⟩
      exact ⟨.star :: items, rfl⟩
    | RB =>
      cases ran
      exact ⟨[], rfl⟩
    | _ => cases ran

theorem StermTree.reads : Reads parseSterm tokens parsed := by
  refine .of_shape (fun tree rest => ?_) fun input result rest ran => ?_
  · cases tree with
    | id name => rfl
    | star => rfl
    | braces items =>
      have inner := parseStarNames_some [] items rest
      simpa [tokens, parsed, parseSterm] using inner
  · unfold parseSterm at ran
    split at ran
    · cases ran
      exact ⟨.id _, rfl⟩
    · cases ran
      exact ⟨.star, rfl⟩
    · rcases exists_items_of_parseStarNames ran with ⟨items, rfl⟩
      exact ⟨.braces items, by simp [tokens]⟩
    · cases ran

theorem parseNames_append (before names : List String) (rest : List Token) :
    parseNames before (names.map Token.ID ++ .RB :: rest) = .ok (before ++ names, rest) := by
  induction names generalizing before with
  | nil =>
    rw [append_nil]
    rfl
  | cons name names ih =>
    have step := ih (before ++ [name])
    rw [append_assoc] at step
    exact step

theorem exists_names_of_parseNames {before names : List String} {tokens rest : List Token}
    (ran : parseNames before tokens = .ok (names, rest)) :
    ∃ added : List String, tokens = added.map Token.ID ++ .RB :: rest := by
  induction tokens generalizing before with
  | nil => cases ran
  | cons token tokens ih =>
    cases token with
    | ID name =>
      rcases ih ran with ⟨added, rfl⟩
      exact ⟨name :: added, rfl⟩
    | RB =>
      cases ran
      exact ⟨[], rfl⟩
    | _ => cases ran

theorem TermTree.reads : Reads parseTerm TermTree.tokens TermTree.names := by
  refine .of_shape (fun tree rest => ?_) fun input result rest ran => ?_
  · cases tree with
    | id name => rfl
    | braces names => simpa [tokens, TermTree.names, parseTerm] using parseNames_append [] names rest
  · unfold parseTerm at ran
    split at ran
    · cases ran
      exact ⟨.id _, rfl⟩
    · rcases exists_names_of_parseNames ran with ⟨added, rfl⟩
      exact ⟨.braces added, by simp [TermTree.tokens]⟩
    · cases ran

/-! ## Extended permissions -/

theorem exists_item_of_parseXperm {tokens rest : List Token} {xperm : Xperm}
    (ran : parseXperm tokens = .ok (xperm, rest)) :
    ∃ item : IoctlItem, tokens = item.tokens ++ rest := by
  unfold parseXperm at ran
  split at ran
  · cases ran
    exact ⟨.range _ _, rfl⟩
  · cases ran
  · cases ran
    exact ⟨.value _, rfl⟩
  · cases ran

theorem exists_items_of_parseXpermList {reset : Bool} {before xperms : List Xperm}
    {tokens rest : List Token} (ran : parseXpermList reset before tokens = .ok (xperms, rest)) :
    ∃ (first : IoctlItem) (items : List IoctlItem),
      tokens = (first :: items).flatMap IoctlItem.tokens ++ .RB :: rest := by
  fun_induction parseXpermList reset before tokens with
  | case1 => cases ran
  | case2 before tokens xperm after parsed =>
    cases ran
    rcases exists_item_of_parseXperm parsed with ⟨item, rfl⟩
    exact ⟨item, [], by simp⟩
  | case3 before tokens xperm after notClosed parsed ih =>
    rcases exists_item_of_parseXperm parsed with ⟨item, rfl⟩
    rcases ih ran with ⟨first, items, rfl⟩
    exact ⟨item, first :: items, by simp⟩

theorem XpermsTree.reads : Reads parseXperms XpermsTree.tokens XpermsTree.parsed := by
  refine .of_shape (fun tree rest => ?_) fun input result rest ran => ?_
  · cases tree with
    | value low =>
      by_cases positive : low > 0
      · simp [tokens, parsed, parseXperms, parseXpermsBody, positive]
      · simp [tokens, parsed, parseXperms, parseXpermsBody, positive]
    | star => rfl
    | list complement first more =>
      have inner := parseXpermList_items complement [] (cons_ne_nil first more) rest
      cases complement with
      | false => simpa [tokens, parsed, items, parseXperms, parseXpermsBody] using inner
      | true => simpa [tokens, parsed, items, parseXperms, parseXpermsBody] using inner
  · unfold parseXperms at ran
    split at ran
    · rcases exists_items_of_parseXpermList ran with ⟨first, items, rfl⟩
      exact ⟨.list true first items, by simp [XpermsTree.tokens]⟩
    · cases ran
    · unfold parseXpermsBody at ran
      split at ran
      · rcases exists_items_of_parseXpermList ran with ⟨first, items, rfl⟩
        exact ⟨.list false first items, by simp [XpermsTree.tokens]⟩
      · cases ran
        exact ⟨.star, rfl⟩
      · split at ran
        · cases ran
          exact ⟨.value _, rfl⟩
        · cases ran
          exact ⟨.value _, rfl⟩
      · cases ran

/-! ## Arguments -/

theorem reads_parseId : Reads parseId (fun name => [.ID name]) id := by
  refine .of_shape (fun name rest => rfl) fun input result rest ran => ?_
  unfold parseId at ran
  split at ran
  · cases ran
    exact ⟨_, rfl⟩
  · cases ran

theorem reads_matchString (pattern : String) :
    Reads (matchString pattern) (fun _ : Unit => [.ID pattern]) id := by
  refine .of_shape (fun _ rest => if_pos rfl) fun input result rest ran => ?_
  unfold matchString at ran
  split at ran
  · split at ran
    · rename_i same
      cases ran
      exact ⟨(), by rw [same]; rfl⟩
    · cases ran
  · cases ran

section Args

variable {tokens : List Token} {result : Call} {blame : ParseError → ParseError}

theorem mapError_eq_ok_iff {run : Except ParseError Call} :
    run.mapError blame = .ok result ↔ run = .ok result := by
  cases run with
  | error error => simp [Except.mapError]
  | ok value => simp [Except.mapError]

theorem check_eq_ok_iff {call : Call} :
    (checkAdditionalArgs tokens >>= fun _ => pure call) = .ok result ↔
      tokens = [] ∧ result = call := by
  unfold checkAdditionalArgs
  split
  · rename_i empty
    simp [empty, Except.pure, eq_comm]
  · rename_i more
    simp [more, Except.bind]

/-- The last argument may be missing. -/
theorem Reads.optional {α β : Type} {parse : List Token → Except ParseError (β × List Token)}
    {texts : α → List Token} {value : α → β} (reads : Reads parse texts value)
    (filled : ∀ tree, texts tree ≠ []) {default : β} {call : β → Call} :
    (if tokens = [] then do
        let x ← Except.ok (default, tokens)
        checkAdditionalArgs x.2
        pure (call x.1)
      else do
        let x ← parse tokens
        checkAdditionalArgs x.2
        pure (call x.1)) = .ok result ↔
      ∃ tree : Option α, tokens = (tree.map texts).getD [] ∧
        result = call ((tree.map value).getD default) := by
  split
  · rename_i empty
    rw [ok_bind, check_eq_ok_iff]
    refine ⟨fun ran => ⟨none, ran⟩, ?_⟩
    rintro ⟨- | tree, isText, rfl⟩
    · exact ⟨empty, rfl⟩
    · exact absurd (isText.symm.trans empty) (filled tree)
  · rename_i more
    simp only [reads.bind, check_eq_ok_iff]
    constructor
    · rintro ⟨tree, _, rfl, rfl, rfl⟩
      exact ⟨some tree, append_nil _, rfl⟩
    · rintro ⟨- | tree, rfl, rfl⟩
      · exact absurd rfl more
      · exact ⟨tree, [], (append_nil _).symm, rfl, rfl⟩

theorem parseAvArgs_eq_ok_iff {call : List String → List String → List String → List String → Call} :
    (parseAvArgs call tokens).mapError blame = .ok result ↔
      ∃ s t c p : StermTree, tokens = s.tokens ++ (t.tokens ++ (c.tokens ++ p.tokens)) ∧
        result = call s.parsed t.parsed c.parsed p.parsed := by
  simp only [mapError_eq_ok_iff, parseAvArgs, reads.bind, check_eq_ok_iff]
  constructor
  · rintro ⟨s, _, rfl, t, _, rfl, c, _, rfl, p, _, rfl, rfl, rfl⟩
    exact ⟨s, t, c, p, by rw [append_nil], rfl⟩
  · rintro ⟨s, t, c, p, rfl, rfl⟩
    exact ⟨s, _, rfl, t, _, rfl, c, _, rfl, p, [], (append_nil _).symm, rfl, rfl⟩

theorem parseXpermArgs_eq_ok_iff
    {call : List String → List String → List String → List Xperm → Call} :
    (parseXpermArgs call tokens).mapError blame = .ok result ↔
      ∃ (s t c : StermTree) (p : XpermsTree),
        tokens = s.tokens ++ (t.tokens ++ (c.tokens ++ (.ID "ioctl" :: p.tokens))) ∧
        result = call s.parsed t.parsed c.parsed p.parsed := by
  simp only [mapError_eq_ok_iff, parseXpermArgs, reads.bind,
    (reads_matchString _).bind, XpermsTree.reads.bind, check_eq_ok_iff]
  constructor
  · rintro ⟨s, _, rfl, t, _, rfl, c, _, rfl, _, _, rfl, p, _, rfl, rfl, rfl⟩
    exact ⟨s, t, c, p, by rw [append_nil]; rfl, rfl⟩
  · rintro ⟨s, t, c, p, rfl, rfl⟩
    exact ⟨s, _, rfl, t, _, rfl, c, _, rfl, (), _, rfl, p, [], (append_nil _).symm, rfl, rfl⟩

theorem parseStateArgs_eq_ok_iff {call : List String → Call} :
    (parseStateArgs call tokens).mapError blame = .ok result ↔
      ∃ t : StermTree, tokens = t.tokens ∧ result = call t.parsed := by
  simp only [mapError_eq_ok_iff, parseStateArgs, reads.bind, check_eq_ok_iff]
  constructor
  · rintro ⟨t, _, rfl, rfl, rfl⟩
    exact ⟨t, append_nil _, rfl⟩
  · rintro ⟨t, rfl, rfl⟩
    exact ⟨t, [], (append_nil _).symm, rfl, rfl⟩

theorem parseTypeAttrArgs_eq_ok_iff : (parseTypeAttrArgs tokens).mapError blame = .ok result ↔
      ∃ t a : TermTree, tokens = t.tokens ++ a.tokens ∧
        result = .typeattribute t.names a.names := by
  simp only [mapError_eq_ok_iff, parseTypeAttrArgs, TermTree.reads.bind, check_eq_ok_iff]
  constructor
  · rintro ⟨t, _, rfl, a, _, rfl, rfl, rfl⟩
    exact ⟨t, a, by rw [append_nil], rfl⟩
  · rintro ⟨t, a, rfl, rfl⟩
    exact ⟨t, _, rfl, a, [], (append_nil _).symm, rfl, rfl⟩

theorem TermTree.tokens_ne_nil (tree : TermTree) : tree.tokens ≠ [] := by
  cases tree <;> simp [TermTree.tokens]

theorem parseTypeArgs_eq_ok_iff : (parseTypeArgs tokens).mapError blame = .ok result ↔
      ∃ (t : String) (a : Option TermTree), tokens = .ID t :: (a.map TermTree.tokens).getD [] ∧
          result = .type t ((a.map TermTree.names).getD []) := by
  simp only [mapError_eq_ok_iff, parseTypeArgs, reads_parseId.bind,
    TermTree.reads.optional TermTree.tokens_ne_nil]
  constructor
  · rintro ⟨t, _, rfl, a, rfl, rfl⟩
    exact ⟨t, a, rfl, rfl⟩
  · rintro ⟨t, a, rfl, rfl⟩
    exact ⟨t, _, rfl, a, rfl, rfl⟩

theorem parseAttributeArgs_eq_ok_iff : (parseAttributeArgs tokens).mapError blame = .ok result ↔
      ∃ t : String, tokens = [.ID t] ∧ result = .attribute t := by
  simp only [mapError_eq_ok_iff, parseAttributeArgs, reads_parseId.bind, check_eq_ok_iff]
  constructor
  · rintro ⟨t, _, rfl, rfl, rfl⟩
    exact ⟨t, rfl, rfl⟩
  · rintro ⟨t, rfl, rfl⟩
    exact ⟨t, _, rfl, rfl, rfl⟩

theorem parseTypeRuleArgs_eq_ok_iff {call : String → String → String → String → Call} :
    (parseTypeRuleArgs call tokens).mapError blame = .ok result ↔
      ∃ s t c d : String, tokens = [.ID s, .ID t, .ID c, .ID d] ∧ result = call s t c d := by
  simp only [mapError_eq_ok_iff, parseTypeRuleArgs, reads_parseId.bind, check_eq_ok_iff]
  constructor
  · rintro ⟨s, _, rfl, t, _, rfl, c, _, rfl, d, _, rfl, rfl, rfl⟩
    exact ⟨s, t, c, d, rfl, rfl⟩
  · rintro ⟨s, t, c, d, rfl, rfl⟩
    exact ⟨s, _, rfl, t, _, rfl, c, _, rfl, d, _, rfl, rfl, rfl⟩

theorem parseTransitionArgs_eq_ok_iff : (parseTransitionArgs tokens).mapError blame = .ok result ↔
      ∃ (s t c d : String) (o : Option String),
        tokens = [.ID s, .ID t, .ID c, .ID d] ++ (o.map Token.ID).toList ∧
          result = .typeTransition s t c d (o.getD "") := by
  simp only [mapError_eq_ok_iff, parseTransitionArgs, reads_parseId.bind,
    reads_parseId.optional fun _ => cons_ne_nil _ _]
  constructor
  · rintro ⟨s, _, rfl, t, _, rfl, c, _, rfl, d, _, rfl, o, rfl, rfl⟩
    exact ⟨s, t, c, d, o, by cases o <;> rfl, by cases o <;> rfl⟩
  · rintro ⟨s, t, c, d, o, rfl, rfl⟩
    exact ⟨s, _, rfl, t, _, rfl, c, _, rfl, d, _, rfl, o, by cases o <;> rfl, by cases o <;> rfl⟩

theorem parseGenfsArgs_eq_ok_iff : (parseGenfsArgs tokens).mapError blame = .ok result ↔
      ∃ s t c : String, tokens = [.ID s, .ID t, .ID c] ∧ result = .genfscon s t c := by
  simp only [mapError_eq_ok_iff, parseGenfsArgs, reads_parseId.bind, check_eq_ok_iff]
  constructor
  · rintro ⟨s, _, rfl, t, _, rfl, c, _, rfl, rfl, rfl⟩
    exact ⟨s, t, c, rfl, rfl⟩
  · rintro ⟨s, t, c, rfl, rfl⟩
    exact ⟨s, _, rfl, t, _, rfl, c, _, rfl, rfl, rfl⟩

end Args

/-! ## Statements -/

/-- The parser accepts exactly the tokens of statements, and makes their call. -/
theorem execStatement_eq_ok_iff {tokens : List Token} {call : Call} :
    execStatement tokens = .ok call ↔
      ∃ tree : StatementTree, tokens = tree.tokens ∧ call = tree.parsed := by
  constructor
  · intro ran
    cases tokens with
    | nil => cases ran
    | cons action tokens =>
      cases action with
      | AL =>
        rcases parseAvArgs_eq_ok_iff.mp ran with ⟨s, t, c, p, rfl, rfl⟩
        exact ⟨.av .allow s t c p, rfl, rfl⟩
      | DN =>
        rcases parseAvArgs_eq_ok_iff.mp ran with ⟨s, t, c, p, rfl, rfl⟩
        exact ⟨.av .deny s t c p, rfl, rfl⟩
      | AA =>
        rcases parseAvArgs_eq_ok_iff.mp ran with ⟨s, t, c, p, rfl, rfl⟩
        exact ⟨.av .auditallow s t c p, rfl, rfl⟩
      | DA =>
        rcases parseAvArgs_eq_ok_iff.mp ran with ⟨s, t, c, p, rfl, rfl⟩
        exact ⟨.av .dontaudit s t c p, rfl, rfl⟩
      | AX =>
        rcases parseXpermArgs_eq_ok_iff.mp ran with
          ⟨s, t, c, p, rfl, rfl⟩
        exact ⟨.xperm .allowxperm s t c p, rfl, rfl⟩
      | AY =>
        rcases parseXpermArgs_eq_ok_iff.mp ran with
          ⟨s, t, c, p, rfl, rfl⟩
        exact ⟨.xperm .auditallowxperm s t c p, rfl, rfl⟩
      | DX =>
        rcases parseXpermArgs_eq_ok_iff.mp ran with
          ⟨s, t, c, p, rfl, rfl⟩
        exact ⟨.xperm .dontauditxperm s t c p, rfl, rfl⟩
      | PM =>
        rcases parseStateArgs_eq_ok_iff.mp ran with ⟨t, rfl, rfl⟩
        exact ⟨.state .permissive t, rfl, rfl⟩
      | EF =>
        rcases parseStateArgs_eq_ok_iff.mp ran with ⟨t, rfl, rfl⟩
        exact ⟨.state .enforce t, rfl, rfl⟩
      | TA =>
        rcases parseTypeAttrArgs_eq_ok_iff.mp ran with ⟨t, a, rfl, rfl⟩
        exact ⟨.typeattribute t a, rfl, rfl⟩
      | TY =>
        rcases parseTypeArgs_eq_ok_iff.mp ran with ⟨t, a, rfl, rfl⟩
        exact ⟨.type t a, rfl, rfl⟩
      | AT =>
        rcases parseAttributeArgs_eq_ok_iff.mp ran with ⟨t, rfl, rfl⟩
        exact ⟨.newAttr t, rfl, rfl⟩
      | TC =>
        rcases parseTypeRuleArgs_eq_ok_iff.mp ran with
          ⟨s, t, c, d, rfl, rfl⟩
        exact ⟨.typeRule .change s t c d, rfl, rfl⟩
      | TM =>
        rcases parseTypeRuleArgs_eq_ok_iff.mp ran with
          ⟨s, t, c, d, rfl, rfl⟩
        exact ⟨.typeRule .member s t c d, rfl, rfl⟩
      | TT =>
        rcases parseTransitionArgs_eq_ok_iff.mp ran with
          ⟨s, t, c, d, o, rfl, rfl⟩
        exact ⟨.transition s t c d o, rfl, rfl⟩
      | GF =>
        rcases parseGenfsArgs_eq_ok_iff.mp ran with
          ⟨s, t, c, rfl, rfl⟩
        exact ⟨.genfscon s t c, rfl, rfl⟩
      | _ => cases ran
  · rintro ⟨tree, rfl, rfl⟩
    cases tree with
    | av action s t c p =>
      cases action <;>
        exact parseAvArgs_eq_ok_iff.mpr ⟨s, t, c, p, rfl, rfl⟩
    | xperm action s t c p =>
      cases action <;>
        exact parseXpermArgs_eq_ok_iff.mpr ⟨s, t, c, p, rfl, rfl⟩
    | state action t =>
      cases action <;> exact parseStateArgs_eq_ok_iff.mpr ⟨t, rfl, rfl⟩
    | typeattribute t a =>
      exact parseTypeAttrArgs_eq_ok_iff.mpr ⟨t, a, rfl, rfl⟩
    | type t a => exact parseTypeArgs_eq_ok_iff.mpr ⟨t, a, rfl, rfl⟩
    | newAttr t => rfl
    | transition s t c d o =>
      exact parseTransitionArgs_eq_ok_iff.mpr ⟨s, t, c, d, o, rfl, rfl⟩
    | typeRule action s t c d => cases action <;> rfl
    | genfscon s t c => rfl

/-! ## A token list is the text of one tree -/

theorem map_append_cons_inj {α β : Type} {f : α → β} (injective : Function.Injective f) {close : β}
    (isOpen : ∀ a, f a ≠ close) {first second : List α} {rest rest' : List β}
    (same : first.map f ++ close :: rest = second.map f ++ close :: rest') :
    first = second ∧ rest = rest' := by
  induction first generalizing second with
  | nil =>
    cases second with
    | nil =>
      cases same
      exact ⟨rfl, rfl⟩
    | cons b second =>
      have head := (List.cons.inj same).1
      exact absurd head.symm (isOpen b)
  | cons a first ih =>
    cases second with
    | nil =>
      have head := (List.cons.inj same).1
      exact absurd head (isOpen a)
    | cons b second =>
      rcases List.cons.inj same with ⟨head, tail⟩
      rcases ih tail with ⟨rfl, rfl⟩
      exact ⟨by rw [injective head], rfl⟩

theorem StermTree.tokens_append_inj {first second : StermTree} {rest rest' : List Token}
    (same : first.tokens ++ rest = second.tokens ++ rest') : first = second ∧ rest = rest' := by
  cases first with
  | id name => cases second <;> simp_all [tokens]
  | star => cases second <;> simp_all [tokens]
  | braces items =>
    cases second with
    | id name => simp [tokens] at same
    | star => simp [tokens] at same
    | braces items' =>
      simp only [tokens, cons_append, append_assoc, List.cons.injEq, true_and] at same
      rcases map_append_cons_inj NameItem.token_injective NameItem.token_ne_rb same with
        ⟨rfl, rfl⟩
      exact ⟨rfl, rfl⟩

theorem TermTree.tokens_append_inj {first second : TermTree} {rest rest' : List Token}
    (same : first.tokens ++ rest = second.tokens ++ rest') : first = second ∧ rest = rest' := by
  cases first with
  | id name => cases second <;> simp_all [tokens]
  | braces names =>
    cases second with
    | id name => simp [tokens] at same
    | braces names' =>
      simp only [tokens, cons_append, append_assoc, List.cons.injEq, true_and] at same
      rcases map_append_cons_inj (fun _ _ => Token.ID.inj) (by simp) same with ⟨rfl, rfl⟩
      exact ⟨rfl, rfl⟩

/-- A list of items never continues with a hyphen. -/
theorem head?_items_ne_hp (items : List IoctlItem) (rest : List Token) :
    (items.flatMap IoctlItem.tokens ++ .RB :: rest).head? ≠ some .HP := by
  cases items with
  | nil => simp
  | cons item items =>
    rw [flatMap_cons, append_assoc, head?_tokens_append]
    simp

theorem IoctlItem.tokens_injective : Function.Injective IoctlItem.tokens := by
  intro first second same
  cases first <;> cases second <;> simp_all [tokens]

theorem items_append_inj {first second : List IoctlItem} {rest rest' : List Token}
    (same : first.flatMap IoctlItem.tokens ++ .RB :: rest =
      second.flatMap IoctlItem.tokens ++ .RB :: rest') : first = second ∧ rest = rest' := by
  induction first generalizing second with
  | nil =>
    cases second with
    | nil =>
      cases same
      exact ⟨rfl, rfl⟩
    | cons item second => cases item <;> simp [IoctlItem.tokens] at same
  | cons item first ih =>
    cases second with
    | nil => cases item <;> simp [IoctlItem.tokens] at same
    | cons item' second =>
      have parsed := parseXperm_item item (head?_items_ne_hp first rest)
      have parsed' := parseXperm_item item' (head?_items_ne_hp second rest')
      rw [flatMap_cons, flatMap_cons, append_assoc, append_assoc] at same
      rw [same, parsed', Except.ok.injEq, Prod.mk.injEq] at parsed
      rcases ih parsed.2.symm with ⟨rfl, rfl⟩
      have sameItem := IoctlItem.tokens_injective (append_cancel_right same)
      exact ⟨by rw [sameItem], rfl⟩

theorem XpermsTree.tokens_injective : Function.Injective XpermsTree.tokens := by
  intro first second same
  cases first with
  | value low => rcases second with _ | ⟨_ | _, _, _⟩ | _ <;> simp_all [tokens]
  | star => rcases second with _ | ⟨_ | _, _, _⟩ | _ <;> simp_all [tokens]
  | list complement item items =>
    rcases second with _ | ⟨complement', item', items'⟩ | _
    · cases complement <;> simp [tokens] at same
    · have sameSign : complement = complement' := by
        cases complement <;> cases complement' <;> simp [tokens] at same ⊢
      subst complement'
      have inner := append_cancel_left same
      rw [List.cons.injEq] at inner
      rcases items_append_inj inner.2 with ⟨sameItems, _⟩
      cases sameItems
      rfl
    · cases complement <;> simp [tokens] at same

/-- The sixteen kinds of statements. -/
inductive StatementForm where
  | av (action : AvAction)
  | xperm (action : XpermAction)
  | state (action : StateAction)
  | typeattribute
  | type
  | newAttr
  | transition
  | typeRule (action : TypeAction)
  | genfscon

/-- The token a kind of statement starts with. -/
def StatementForm.token : StatementForm → Token
  | .av action => action.token
  | .xperm action => action.token
  | .state action => action.token
  | .typeattribute => .TA
  | .type => .TY
  | .newAttr => .AT
  | .transition => .TT
  | .typeRule action => action.token
  | .genfscon => .GF

theorem StatementForm.token_injective : Function.Injective StatementForm.token := by
  intro first second same
  rcases first with (_ | _ | _ | _) | (_ | _ | _) | (_ | _) | _ | _ | _ | _ | (_ | _) | _ <;>
    rcases second with (_ | _ | _ | _) | (_ | _ | _) | (_ | _) | _ | _ | _ | _ | (_ | _) | _ <;>
      first | rfl | cases same

namespace StatementTree

/-- The kind of a statement. -/
def form : StatementTree → StatementForm
  | .av action _ _ _ _ => .av action
  | .xperm action _ _ _ _ => .xperm action
  | .state action _ => .state action
  | .typeattribute _ _ => .typeattribute
  | .type _ _ => .type
  | .newAttr _ => .newAttr
  | .transition _ _ _ _ _ => .transition
  | .typeRule action _ _ _ _ => .typeRule action
  | .genfscon _ _ _ => .genfscon

theorem head?_tokens (tree : StatementTree) : tree.tokens.head? = some tree.form.token := by
  cases tree <;> rfl

theorem tokens_injective : Function.Injective tokens := by
  intro first second same
  have sameForm : first.form = second.form := by
    apply StatementForm.token_injective
    apply Option.some.inj
    rw [← first.head?_tokens, same, second.head?_tokens]
  cases first <;> cases second <;> cases sameForm
  case av.av.refl s t c p s' t' c' p' action =>
    rcases tokens_append_inj (List.cons.inj same).2 with ⟨rfl, fromT⟩
    rcases tokens_append_inj fromT with ⟨rfl, fromC⟩
    rcases tokens_append_inj fromC with ⟨rfl, fromP⟩
    rcases tokens_append_inj (congrArg (· ++ []) fromP) with ⟨rfl, _⟩
    rfl
  case xperm.xperm.refl s t c p s' t' c' p' action =>
    rcases tokens_append_inj (List.cons.inj same).2 with ⟨rfl, fromT⟩
    rcases tokens_append_inj fromT with ⟨rfl, fromC⟩
    rcases tokens_append_inj fromC with ⟨rfl, fromP⟩
    rw [XpermsTree.tokens_injective (List.cons.inj fromP).2]
  case state.state.refl t t' action =>
    rcases tokens_append_inj (congrArg (· ++ []) (List.cons.inj same).2) with ⟨rfl, _⟩
    rfl
  case typeattribute.typeattribute.refl t a t' a' =>
    rcases TermTree.tokens_append_inj (List.cons.inj same).2 with ⟨rfl, fromA⟩
    rcases TermTree.tokens_append_inj (congrArg (· ++ []) fromA) with ⟨rfl, _⟩
    rfl
  case type.type.refl t a t' a' =>
    rcases List.cons.inj (List.cons.inj same).2 with ⟨sameName, attrs⟩
    cases sameName
    rcases a with - | tree <;> rcases a' with - | tree'
    · rfl
    · exact absurd attrs.symm tree'.tokens_ne_nil
    · exact absurd attrs tree.tokens_ne_nil
    · rcases TermTree.tokens_append_inj (congrArg (· ++ []) attrs) with ⟨rfl, _⟩
      rfl
  case transition.transition.refl s t c d o s' t' c' d' o' =>
    cases o <;> cases o' <;> cases same <;> rfl
  all_goals
    cases (List.cons.inj same).2
    rfl

end StatementTree

/-! ## Regular statements -/

theorem foldl_derive_of_star_notMem {items : List NameItem} (starless : .star ∉ items)
    (names : List String) :
    items.foldl NameItem.derive names = names ++ items.filterMap NameItem.name? := by
  induction items generalizing names with
  | nil => rw [filterMap_nil, append_nil, foldl_nil]
  | cons item items ih =>
    rw [mem_cons, not_or] at starless
    cases item with
    | star => exact absurd rfl starless.1
    | id name =>
      rw [foldl_cons, ih starless.2, NameItem.derive, append_assoc]
      rfl

/-- With a match-all token among the items, the grammar comes to no names
exactly when the last item is one. -/
theorem foldl_derive_eq_nil_iff {items : List NameItem} (star : .star ∈ items) :
    items.foldl NameItem.derive [] = [] ↔ items.getLast? = some .star := by
  induction items using reverseRecOn with
  | nil => cases star
  | append_singleton items item _ =>
    cases item with
    | id name => simp [NameItem.derive]
    | star => simp [NameItem.derive]

theorem StermTree.regular_iff (tree : StermTree) :
    tree.Regular ↔ tree.Filled ∧ tree.derived = tree.parsed := by
  cases tree with
  | id name => exact iff_of_true trivial ⟨trivial, rfl⟩
  | star => exact iff_of_true trivial ⟨trivial, rfl⟩
  | braces items =>
    change items ≠ [] ∧ _ ↔ items ≠ [] ∧ items.foldl NameItem.derive [] = ite _ _ _
    apply and_congr_right
    intro _
    by_cases star : .star ∈ items
    · rw [if_pos star, foldl_derive_eq_nil_iff star]
      exact ⟨fun last => last star, fun last _ => last⟩
    · rw [if_neg star, foldl_derive_of_star_notMem star]
      exact iff_of_true (fun mem => absurd mem star) rfl

theorem XpermsTree.regular_iff (tree : XpermsTree) : tree.Regular ↔ tree.derived = tree.parsed := by
  cases tree with
  | value low =>
    rw [derived, parsed]
    by_cases positive : low > 0
    · rw [if_pos positive, if_pos positive]
      exact iff_of_true positive rfl
    · rw [if_neg positive, if_neg positive]
      exact iff_of_false positive (by simp)
  | list complement first rest => exact iff_of_true trivial rfl
  | star => exact iff_of_true trivial rfl

theorem AvAction.call_inj (action : AvAction) {s t c p s' t' c' p' : List String} :
    action.call s t c p = action.call s' t' c' p' ↔ s = s' ∧ t = t' ∧ c = c' ∧ p = p' := by
  cases action <;> simp [AvAction.call]

theorem XpermAction.call_inj (action : XpermAction) {s t c s' t' c' : List String}
    {p p' : List Xperm} :
    action.call s t c p = action.call s' t' c' p' ↔ s = s' ∧ t = t' ∧ c = c' ∧ p = p' := by
  cases action <;> simp [XpermAction.call]

theorem StateAction.call_inj (action : StateAction) {t t' : List String} :
    action.call t = action.call t' ↔ t = t' := by
  cases action <;> simp [StateAction.call]

/-- A statement is regular when the grammar has it and computes what the parser
returns. -/
theorem StatementTree.regular_iff (tree : StatementTree) :
    tree.Regular ↔ tree.Filled ∧ tree.derived = tree.parsed := by
  unfold Regular Filled derived parsed
  cases tree with
  | av action s t c p =>
    simp only [All, callWith, AvAction.call_inj, StermTree.regular_iff]
    tauto
  | xperm action s t c p =>
    simp only [All, callWith, XpermAction.call_inj, StermTree.regular_iff, XpermsTree.regular_iff]
    tauto
  | state action t => simp only [All, callWith, StateAction.call_inj, StermTree.regular_iff]
  | _ => simp [All, callWith]

/-! ## Executing a token list -/

/-- Execute a token list on a policy, given what the operations do. -/
def execOn {σ : Type} (perform : σ → Call → σ) (policy : σ) (tokens : List Token) :
    σ × Option ParseError :=
  match execStatement tokens with
  | .ok call => (perform policy call, none)
  | .error error => (policy, some error)

/-- Whatever the operations do: a derivable token list calls the operation the
grammar computes, any other is rejected and leaves the policy alone. -/
def FollowsGrammar (tokens : List Token) : Prop :=
  ∀ (σ : Type) (perform : σ → Call → σ) (policy : σ),
    (∀ call, Grammar.Statement tokens call →
      execOn perform policy tokens = (perform policy call, none)) ∧
    ((∀ call, ¬ Grammar.Statement tokens call) →
      ∃ error, execOn perform policy tokens = (policy, some error))

theorem execOn_tokens {σ : Type} (perform : σ → Call → σ) (policy : σ) (tree : StatementTree) :
    execOn perform policy tree.tokens = (perform policy tree.parsed, none) := by
  rw [execOn, execStatement_eq_ok_iff.mpr ⟨tree, rfl, rfl⟩]

theorem regular_of_followsGrammar (tree : StatementTree) (follows : FollowsGrammar tree.tokens) :
    tree.Regular := by
  rw [tree.regular_iff]
  by_cases derivable : ∃ call, Grammar.Statement tree.tokens call
  · rcases derivable with ⟨call, derivation⟩
    rcases Grammar.statement_iff.mp derivation with ⟨other, filled, sameTokens, rfl⟩
    rw [← StatementTree.tokens_injective sameTokens] at filled derivation
    have executed := (follows (List Call) (fun calls call => calls ++ [call]) []).1 _ derivation
    rw [execOn_tokens] at executed
    simp only [nil_append, Prod.mk.injEq, List.cons.injEq, and_true] at executed
    exact ⟨filled, executed.symm⟩
  · rcases (follows Unit (fun _ _ => ()) ()).2 (not_exists.mp derivable) with ⟨error, executed⟩
    rw [execOn_tokens] at executed
    cases executed

/-- The parser follows the grammar on a token list exactly when this is not the
text of an irregular statement. -/
theorem followsGrammar_iff (tokens : List Token) : FollowsGrammar tokens ↔
      ∀ tree : StatementTree, tokens = tree.tokens → tree.Regular := by
  constructor
  · rintro follows tree rfl
    exact regular_of_followsGrammar tree follows
  · intro regular σ perform policy
    constructor
    · intro call derivation
      rcases Grammar.statement_iff.mp derivation with ⟨tree, _, rfl, rfl⟩
      rw [execOn_tokens, (tree.regular_iff.mp (regular tree rfl)).2]
    · intro underivable
      unfold execOn
      cases executed : execStatement tokens with
      | error error => exact ⟨error, rfl⟩
      | ok call =>
        rcases execStatement_eq_ok_iff.mp executed with ⟨tree, rfl, rfl⟩
        have filled := (tree.regular_iff.mp (regular tree rfl)).1
        exact absurd (Grammar.statement_iff.mpr ⟨tree, filled, rfl, rfl⟩) (underivable _)

/-- Empty braces are read as the match-all token, names before a last name are
lost to a match-all token, and a lone zero does not reset. -/
theorem not_followsGrammar_samples : ¬ FollowsGrammar [.AL, .LB, .RB, .ID "t", .ID "c", .ID "p"] ∧
      ¬ FollowsGrammar [.AL, .LB, .ST, .ID "s", .RB, .ID "t", .ID "c", .ID "p"] ∧
      ¬ FollowsGrammar [.AX, .ID "s", .ID "t", .ID "c", .ID "ioctl", .HX 0] := by
  refine ⟨fun follows => ?_, fun follows => ?_, fun follows => ?_⟩
  · have regular := regular_of_followsGrammar
      (.av .allow (.braces []) (.id "t") (.id "c") (.id "p")) follows
    exact regular.1.1 rfl
  · have regular := regular_of_followsGrammar
      (.av .allow (.braces [.star, .id "s"]) (.id "t") (.id "c") (.id "p")) follows
    have last := regular.1.2 (by decide)
    cases last
  · have regular := regular_of_followsGrammar
      (.xperm .allowxperm (.id "s") (.id "t") (.id "c") (.value 0)) follows
    have positive : (0 : UInt16) > 0 := regular.2.2.2
    exact absurd positive (by decide)

end Magisk.SePolicy
