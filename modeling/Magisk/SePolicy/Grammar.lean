import Magisk.SePolicy.AccessVector
import Magisk.SePolicy.Complement

/-!
# The grammar of policy statements

The productions that the comments of `statement.rs` list, with the values their
actions compute, as relations between token lists and values.  The rules for
lists are left recursive there, and so they are here.

The parser is compared with the grammar through syntax trees.  A tree gives the
tokens it is written with, the value the parser returns for them and the value
the grammar computes; the parser accepts all trees, the grammar only those
without empty braces.
-/

namespace Magisk.SePolicy

open List

/-! ## Productions -/

namespace Grammar

/-- `names` of a `term`. -/
inductive TermNames : List Token → List String → Prop
  | id (name : String) : TermNames [.ID name] [name]
  | push {tokens : List Token} {names : List String} (name : String) :
      TermNames tokens names → TermNames (tokens ++ [.ID name]) (names ++ [name])

/-- `term`. -/
inductive Term : List Token → List String → Prop
  | id (name : String) : Term [.ID name] [name]
  | braces {tokens : List Token} {names : List String} :
      TermNames tokens names → Term (.LB :: (tokens ++ [.RB])) names

/-- `names` of an `sterm`. -/
inductive StermNames : List Token → List String → Prop
  | star : StermNames [.ST] []
  | id (name : String) : StermNames [.ID name] [name]
  | push {tokens : List Token} {names : List String} (name : String) :
      StermNames tokens names → StermNames (tokens ++ [.ID name]) (names ++ [name])
  | forget {tokens : List Token} {names : List String} :
      StermNames tokens names → StermNames (tokens ++ [.ST]) []

/-- `sterm`. -/
inductive Sterm : List Token → List String → Prop
  | star : Sterm [.ST] []
  | id (name : String) : Sterm [.ID name] [name]
  | braces {tokens : List Token} {names : List String} :
      StermNames tokens names → Sterm (.LB :: (tokens ++ [.RB])) names

/-- `xperm`. -/
inductive XpermRule : List Token → Xperm → Prop
  | value (low : UInt16) : XpermRule [.HX low] ⟨low, low, false⟩
  | range (low high : UInt16) : XpermRule [.HX low, .HP, .HX high] ⟨low, high, false⟩

/-- `xperm_list`. -/
inductive XpermList : List Token → List Xperm → Prop
  | single {tokens : List Token} {xperm : Xperm} :
      XpermRule tokens xperm → XpermList tokens [xperm]
  | push {tokens more : List Token} {xperms : List Xperm} {xperm : Xperm} :
      XpermList tokens xperms → XpermRule more xperm →
        XpermList (tokens ++ more) (xperms ++ [xperm])

/-- `xperms`. -/
inductive Xperms : List Token → List Xperm → Prop
  | value (low : UInt16) :
      Xperms [.HX low] (if low > 0 then [⟨low, low, false⟩] else [⟨0x0000, 0xFFFF, true⟩])
  | list {tokens : List Token} {xperms : List Xperm} :
      XpermList tokens xperms → Xperms (.LB :: (tokens ++ [.RB])) xperms
  | complement {tokens : List Token} {xperms : List Xperm} :
      XpermList tokens xperms →
        Xperms (.TL :: .LB :: (tokens ++ [.RB])) (xperms.map fun x => { x with reset := true })
  | star : Xperms [.ST] [⟨0x0000, 0xFFFF, false⟩]

end Grammar

/-! ## Actions -/

/-- The token of an access vector action. -/
def AvAction.token : AvAction → Token
  | .allow => .AL
  | .deny => .DN
  | .auditallow => .AA
  | .dontaudit => .DA

/-- The operation of an access vector action. -/
def AvAction.call : AvAction → List String → List String → List String → List String → Call
  | .allow => .allow
  | .deny => .deny
  | .auditallow => .auditallow
  | .dontaudit => .dontaudit

/-- The extended permission actions. -/
inductive XpermAction where
  | allowxperm
  | auditallowxperm
  | dontauditxperm
  deriving DecidableEq, Repr

/-- The token of an extended permission action. -/
def XpermAction.token : XpermAction → Token
  | .allowxperm => .AX
  | .auditallowxperm => .AY
  | .dontauditxperm => .DX

/-- The operation of an extended permission action. -/
def XpermAction.call : XpermAction → List String → List String → List String → List Xperm → Call
  | .allowxperm => .allowxperm
  | .auditallowxperm => .auditallowxperm
  | .dontauditxperm => .dontauditxperm

/-- The type state actions. -/
inductive StateAction where
  | permissive
  | enforce
  deriving DecidableEq, Repr

/-- The token of a type state action. -/
def StateAction.token : StateAction → Token
  | .permissive => .PM
  | .enforce => .EF

/-- The operation of a type state action. -/
def StateAction.call : StateAction → List String → Call
  | .permissive => .permissive
  | .enforce => .enforce

/-- The type rules that take no object name. -/
inductive TypeAction where
  | change
  | member
  deriving DecidableEq, Repr

/-- The token of a type rule. -/
def TypeAction.token : TypeAction → Token
  | .change => .TC
  | .member => .TM

/-- The operation of a type rule. -/
def TypeAction.call : TypeAction → String → String → String → String → Call
  | .change => .typeChange
  | .member => .typeMember

/-- `statement`, with the operation its action calls. -/
inductive Grammar.Statement : List Token → Call → Prop
  | av (action : AvAction) {ss ts cs ps : List Token} {s t c p : List String} :
      Grammar.Sterm ss s → Grammar.Sterm ts t → Grammar.Sterm cs c → Grammar.Sterm ps p →
        Statement (action.token :: (ss ++ (ts ++ (cs ++ ps)))) (action.call s t c p)
  | xperm (action : XpermAction) {ss ts cs ps : List Token} {s t c : List String}
      {p : List Xperm} :
      Grammar.Sterm ss s → Grammar.Sterm ts t → Grammar.Sterm cs c → Grammar.Xperms ps p →
        Statement (action.token :: (ss ++ (ts ++ (cs ++ (.ID "ioctl" :: ps)))))
          (action.call s t c p)
  | state (action : StateAction) {ts : List Token} {t : List String} :
      Grammar.Sterm ts t → Statement (action.token :: ts) (action.call t)
  | typeattribute {ts as : List Token} {t a : List String} :
      Grammar.Term ts t → Grammar.Term as a → Statement (.TA :: (ts ++ as)) (.typeattribute t a)
  | type (t : String) : Statement [.TY, .ID t] (.type t [])
  | typeWith (t : String) {as : List Token} {a : List String} :
      Grammar.Term as a → Statement (.TY :: .ID t :: as) (.type t a)
  | newAttr (t : String) : Statement [.AT, .ID t] (.attribute t)
  | transition (s t c d : String) :
      Statement [.TT, .ID s, .ID t, .ID c, .ID d] (.typeTransition s t c d "")
  | transitionNamed (s t c d o : String) :
      Statement [.TT, .ID s, .ID t, .ID c, .ID d, .ID o] (.typeTransition s t c d o)
  | typeRule (action : TypeAction) (s t c d : String) :
      Statement [action.token, .ID s, .ID t, .ID c, .ID d] (action.call s t c d)
  | genfscon (s t c : String) : Statement [.GF, .ID s, .ID t, .ID c] (.genfscon s t c)

/-! ## Syntax trees -/

/-- What stands between the braces of an `sterm`. -/
inductive NameItem where
  | id (name : String)
  | star
  deriving DecidableEq, Repr

namespace NameItem

/-- The token of an item. -/
def token : NameItem → Token
  | .id name => .ID name
  | .star => .ST

/-- The name of an item that has one. -/
def name? : NameItem → Option String
  | .id name => some name
  | .star => none

/-- The action of the grammar for one more item. -/
def derive (names : List String) : NameItem → List String
  | .id name => names ++ [name]
  | .star => []

theorem token_ne_rb (item : NameItem) : item.token ≠ .RB := by
  cases item <;> simp [token]

theorem token_injective : Function.Injective token := by
  intro first second same
  cases first <;> cases second <;> simp_all [token]

end NameItem

/-- An `sterm`. -/
inductive StermTree where
  | id (name : String)
  | star
  | braces (items : List NameItem)
  deriving DecidableEq, Repr

namespace StermTree

/-- The tokens of an `sterm`. -/
def tokens : StermTree → List Token
  | .id name => [.ID name]
  | .star => [.ST]
  | .braces items => .LB :: (items.map NameItem.token ++ [.RB])

/-- What the parser returns: one match-all token empties the list for good. -/
def parsed : StermTree → List String
  | .id name => [name]
  | .star => []
  | .braces items => if .star ∈ items then [] else items.filterMap NameItem.name?

/-- What the grammar computes: names after a match-all token are pushed again. -/
def derived : StermTree → List String
  | .id name => [name]
  | .star => []
  | .braces items => items.foldl NameItem.derive []

/-- The grammar has no empty braces. -/
def Filled : StermTree → Prop
  | .braces items => items ≠ []
  | _ => True

/-- Braces hold something, and end in the match-all token if they have one. -/
def Regular : StermTree → Prop
  | .braces items => items ≠ [] ∧ (.star ∈ items → items.getLast? = some .star)
  | _ => True

end StermTree

/-- A `term`. -/
inductive TermTree where
  | id (name : String)
  | braces (names : List String)
  deriving DecidableEq, Repr

namespace TermTree

/-- The tokens of a `term`. -/
def tokens : TermTree → List Token
  | .id name => [.ID name]
  | .braces names => .LB :: (names.map Token.ID ++ [.RB])

/-- The names of a `term`. -/
def names : TermTree → List String
  | .id name => [name]
  | .braces names => names

/-- The grammar has no empty braces. -/
def Filled : TermTree → Prop
  | .braces names => names ≠ []
  | _ => True

end TermTree

/-- An `xperms`. -/
inductive XpermsTree where
  | value (low : UInt16)
  | list (complement : Bool) (first : IoctlItem) (rest : List IoctlItem)
  | star
  deriving DecidableEq, Repr

namespace XpermsTree

/-- The tokens of an `xperms`. -/
def tokens : XpermsTree → List Token
  | .value low => [.HX low]
  | .list complement first rest =>
    (if complement then [.TL] else []) ++
      .LB :: ((first :: rest).flatMap IoctlItem.tokens ++ [.RB])
  | .star => [.ST]

/-- The value of a list of items. -/
def items (complement : Bool) (first : IoctlItem) (rest : List IoctlItem) : List Xperm :=
  (first :: rest).map fun item => ⟨item.low, item.high, complement⟩

/-- What the parser returns. -/
def parsed : XpermsTree → List Xperm
  | .value low => if low > 0 then [⟨low, low, false⟩] else [⟨0x0000, 0xFFFF, false⟩]
  | .list complement first rest => items complement first rest
  | .star => [⟨0x0000, 0xFFFF, false⟩]

/-- What the grammar computes: the value zero resets. -/
def derived : XpermsTree → List Xperm
  | .value low => if low > 0 then [⟨low, low, false⟩] else [⟨0x0000, 0xFFFF, true⟩]
  | .list complement first rest => items complement first rest
  | .star => [⟨0x0000, 0xFFFF, false⟩]

/-- A value alone is not zero. -/
def Regular : XpermsTree → Prop
  | .value low => low > 0
  | _ => True

end XpermsTree

/-! ## Trees and derivations -/

namespace Grammar

variable {tokens : List Token} {names : List String}

theorem stermNames_iff : StermNames tokens names ↔
      ∃ items : List NameItem, items ≠ [] ∧ tokens = items.map NameItem.token ∧
        names = items.foldl NameItem.derive [] := by
  constructor
  · intro derivation
    induction derivation with
    | star => exact ⟨[.star], by simp, rfl, rfl⟩
    | id name => exact ⟨[.id name], by simp, rfl, rfl⟩
    | push name _ ih =>
      rcases ih with ⟨items, _, rfl, rfl⟩
      refine ⟨items ++ [.id name], by simp, ?_, ?_⟩
      · rw [map_append]
        rfl
      · rw [foldl_append]
        rfl
    | forget _ ih =>
      rcases ih with ⟨items, _, rfl, rfl⟩
      refine ⟨items ++ [.star], by simp, ?_, ?_⟩
      · rw [map_append]
        rfl
      · rw [foldl_append]
        rfl
  · rintro ⟨items, nonempty, rfl, rfl⟩
    induction items using reverseRecOn with
    | nil => exact absurd rfl nonempty
    | append_singleton items item ih =>
      rw [map_append, foldl_append]
      by_cases empty : items = []
      · subst items
        cases item with
        | id name => exact .id name
        | star => exact .star
      · cases item with
        | id name => exact .push name (ih empty)
        | star => exact .forget (ih empty)

theorem sterm_iff : Sterm tokens names ↔
      ∃ tree : StermTree, tree.Filled ∧ tokens = tree.tokens ∧ names = tree.derived := by
  constructor
  · intro derivation
    cases derivation with
    | star => exact ⟨.star, trivial, rfl, rfl⟩
    | id name => exact ⟨.id name, trivial, rfl, rfl⟩
    | braces inner =>
      rcases stermNames_iff.mp inner with ⟨items, nonempty, rfl, rfl⟩
      exact ⟨.braces items, nonempty, rfl, rfl⟩
  · rintro ⟨tree, filled, rfl, rfl⟩
    cases tree with
    | id name => exact .id name
    | star => exact .star
    | braces items => exact .braces (stermNames_iff.mpr ⟨items, filled, rfl, rfl⟩)

theorem termNames_iff : TermNames tokens names ↔ names ≠ [] ∧ tokens = names.map Token.ID := by
  constructor
  · intro derivation
    induction derivation with
    | id name => exact ⟨by simp, rfl⟩
    | push name _ ih =>
      rcases ih with ⟨_, rfl⟩
      refine ⟨by simp, ?_⟩
      rw [map_append]
      rfl
  · rintro ⟨nonempty, rfl⟩
    induction names using reverseRecOn with
    | nil => exact absurd rfl nonempty
    | append_singleton names name ih =>
      rw [map_append]
      by_cases empty : names = []
      · subst names
        exact .id name
      · exact .push name (ih empty)

theorem term_iff : Term tokens names ↔
      ∃ tree : TermTree, tree.Filled ∧ tokens = tree.tokens ∧ names = tree.names := by
  constructor
  · intro derivation
    cases derivation with
    | id name => exact ⟨.id name, trivial, rfl, rfl⟩
    | braces inner =>
      rcases termNames_iff.mp inner with ⟨nonempty, rfl⟩
      exact ⟨.braces names, nonempty, rfl, rfl⟩
  · rintro ⟨tree, filled, rfl, rfl⟩
    cases tree with
    | id name => exact .id name
    | braces names => exact .braces (termNames_iff.mpr ⟨filled, rfl⟩)

theorem xpermRule_iff {xperm : Xperm} : XpermRule tokens xperm ↔
      ∃ item : IoctlItem, tokens = item.tokens ∧ xperm = ⟨item.low, item.high, false⟩ := by
  constructor
  · intro derivation
    cases derivation with
    | value low => exact ⟨.value low, rfl, rfl⟩
    | range low high => exact ⟨.range low high, rfl, rfl⟩
  · rintro ⟨item, rfl, rfl⟩
    cases item with
    | value low => exact .value low
    | range low high => exact .range low high

theorem xpermList_iff {xperms : List Xperm} : XpermList tokens xperms ↔
      ∃ items : List IoctlItem, items ≠ [] ∧ tokens = items.flatMap IoctlItem.tokens ∧
        xperms = items.map fun item => ⟨item.low, item.high, false⟩ := by
  constructor
  · intro derivation
    induction derivation with
    | single inner =>
      rcases xpermRule_iff.mp inner with ⟨item, rfl, rfl⟩
      exact ⟨[item], by simp, by simp, rfl⟩
    | push _ inner ih =>
      rcases ih with ⟨items, _, rfl, rfl⟩
      rcases xpermRule_iff.mp inner with ⟨item, rfl, rfl⟩
      exact ⟨items ++ [item], by simp, by simp, by simp⟩
  · rintro ⟨items, nonempty, rfl, rfl⟩
    induction items using reverseRecOn with
    | nil => exact absurd rfl nonempty
    | append_singleton items item ih =>
      have last : XpermRule item.tokens ⟨item.low, item.high, false⟩ :=
        xpermRule_iff.mpr ⟨item, rfl, rfl⟩
      rw [flatMap_append, map_append, flatMap_singleton]
      by_cases empty : items = []
      · subst items
        exact .single last
      · exact .push (ih empty) last

theorem xperms_iff {xperms : List Xperm} : Xperms tokens xperms ↔
      ∃ tree : XpermsTree, tokens = tree.tokens ∧ xperms = tree.derived := by
  constructor
  · intro derivation
    cases derivation with
    | value low => exact ⟨.value low, rfl, rfl⟩
    | list inner =>
      rcases xpermList_iff.mp inner with ⟨items, nonempty, rfl, rfl⟩
      rcases exists_cons_of_ne_nil nonempty with ⟨first, rest, rfl⟩
      exact ⟨.list false first rest, rfl, rfl⟩
    | complement inner =>
      rcases xpermList_iff.mp inner with ⟨items, nonempty, rfl, rfl⟩
      rcases exists_cons_of_ne_nil nonempty with ⟨first, rest, rfl⟩
      refine ⟨.list true first rest, rfl, ?_⟩
      rw [map_map]
      rfl
    | star => exact ⟨.star, rfl, rfl⟩
  · rintro ⟨tree, rfl, rfl⟩
    cases tree with
    | value low => exact .value low
    | star => exact .star
    | list complement first rest =>
      have inner := xpermList_iff.mpr ⟨first :: rest, cons_ne_nil first rest, rfl, rfl⟩
      cases complement with
      | false => exact .list inner
      | true =>
        have whole := Xperms.complement inner
        rw [map_map] at whole
        exact whole

end Grammar

/-! ## Statements -/

/-- A `statement`. -/
inductive StatementTree where
  | av (action : AvAction) (s t c p : StermTree)
  | xperm (action : XpermAction) (s t c : StermTree) (p : XpermsTree)
  | state (action : StateAction) (t : StermTree)
  | typeattribute (t a : TermTree)
  | type (t : String) (a : Option TermTree)
  | newAttr (t : String)
  | transition (s t c d : String) (o : Option String)
  | typeRule (action : TypeAction) (s t c d : String)
  | genfscon (s t c : String)
  deriving DecidableEq, Repr

namespace StatementTree

/-- The tokens of a `statement`. -/
def tokens : StatementTree → List Token
  | .av action s t c p => action.token :: (s.tokens ++ (t.tokens ++ (c.tokens ++ p.tokens)))
  | .xperm action s t c p =>
    action.token :: (s.tokens ++ (t.tokens ++ (c.tokens ++ (.ID "ioctl" :: p.tokens))))
  | .state action t => action.token :: t.tokens
  | .typeattribute t a => .TA :: (t.tokens ++ a.tokens)
  | .type t a => .TY :: .ID t :: (a.map TermTree.tokens).getD []
  | .newAttr t => [.AT, .ID t]
  | .transition s t c d o => [.TT, .ID s, .ID t, .ID c, .ID d] ++ (o.map Token.ID).toList
  | .typeRule action s t c d => [action.token, .ID s, .ID t, .ID c, .ID d]
  | .genfscon s t c => [.GF, .ID s, .ID t, .ID c]

/-- The call of a statement, given how its lists are read. -/
def callWith (names : StermTree → List String) (xperms : XpermsTree → List Xperm) :
    StatementTree → Call
  | .av action s t c p => action.call (names s) (names t) (names c) (names p)
  | .xperm action s t c p => action.call (names s) (names t) (names c) (xperms p)
  | .state action t => action.call (names t)
  | .typeattribute t a => .typeattribute t.names a.names
  | .type t a => .type t ((a.map TermTree.names).getD [])
  | .newAttr t => .attribute t
  | .transition s t c d o => .typeTransition s t c d (o.getD "")
  | .typeRule action s t c d => action.call s t c d
  | .genfscon s t c => .genfscon s t c

/-- The call the parser makes. -/
def parsed : StatementTree → Call :=
  callWith StermTree.parsed XpermsTree.parsed

/-- The call the grammar computes. -/
def derived : StatementTree → Call :=
  callWith StermTree.derived XpermsTree.derived

/-- All parts of a statement, under conditions on its lists. -/
def All (sterm : StermTree → Prop) (term : TermTree → Prop) (xperms : XpermsTree → Prop) :
    StatementTree → Prop
  | .av _ s t c p => sterm s ∧ sterm t ∧ sterm c ∧ sterm p
  | .xperm _ s t c p => sterm s ∧ sterm t ∧ sterm c ∧ xperms p
  | .state _ t => sterm t
  | .typeattribute t a => term t ∧ term a
  | .type _ a => ∀ tree ∈ a, term tree
  | _ => True

/-- No braces are empty. -/
def Filled : StatementTree → Prop :=
  All StermTree.Filled TermTree.Filled fun _ => True

/-- No braces are empty, braces with the match-all token end in it, and an
extended permission alone is not zero. -/
def Regular : StatementTree → Prop :=
  All StermTree.Regular TermTree.Filled XpermsTree.Regular

end StatementTree

theorem Grammar.statement_iff {tokens : List Token} {call : Call} : Grammar.Statement tokens call ↔
      ∃ tree : StatementTree, tree.Filled ∧ tokens = tree.tokens ∧ call = tree.derived := by
  constructor
  · intro derivation
    cases derivation with
    | av action ofS ofT ofC ofP =>
      rcases Grammar.sterm_iff.mp ofS with ⟨s, filledS, rfl, rfl⟩
      rcases Grammar.sterm_iff.mp ofT with ⟨t, filledT, rfl, rfl⟩
      rcases Grammar.sterm_iff.mp ofC with ⟨c, filledC, rfl, rfl⟩
      rcases Grammar.sterm_iff.mp ofP with ⟨p, filledP, rfl, rfl⟩
      exact ⟨.av action s t c p, ⟨filledS, filledT, filledC, filledP⟩, rfl, rfl⟩
    | xperm action ofS ofT ofC ofP =>
      rcases Grammar.sterm_iff.mp ofS with ⟨s, filledS, rfl, rfl⟩
      rcases Grammar.sterm_iff.mp ofT with ⟨t, filledT, rfl, rfl⟩
      rcases Grammar.sterm_iff.mp ofC with ⟨c, filledC, rfl, rfl⟩
      rcases Grammar.xperms_iff.mp ofP with ⟨p, rfl, rfl⟩
      exact ⟨.xperm action s t c p, ⟨filledS, filledT, filledC, trivial⟩, rfl, rfl⟩
    | state action ofT =>
      rcases Grammar.sterm_iff.mp ofT with ⟨t, filled, rfl, rfl⟩
      exact ⟨.state action t, filled, rfl, rfl⟩
    | typeattribute ofT ofA =>
      rcases Grammar.term_iff.mp ofT with ⟨t, filledT, rfl, rfl⟩
      rcases Grammar.term_iff.mp ofA with ⟨a, filledA, rfl, rfl⟩
      exact ⟨.typeattribute t a, ⟨filledT, filledA⟩, rfl, rfl⟩
    | type t => exact ⟨.type t none, by simp [StatementTree.Filled, StatementTree.All], rfl, rfl⟩
    | typeWith t ofA =>
      rcases Grammar.term_iff.mp ofA with ⟨a, filled, rfl, rfl⟩
      exact ⟨.type t (some a), by simpa [StatementTree.Filled, StatementTree.All] using filled,
        rfl, rfl⟩
    | newAttr t => exact ⟨.newAttr t, trivial, rfl, rfl⟩
    | transition s t c d => exact ⟨.transition s t c d none, trivial, rfl, rfl⟩
    | transitionNamed s t c d o => exact ⟨.transition s t c d (some o), trivial, rfl, rfl⟩
    | typeRule action s t c d => exact ⟨.typeRule action s t c d, trivial, rfl, rfl⟩
    | genfscon s t c => exact ⟨.genfscon s t c, trivial, rfl, rfl⟩
  · rintro ⟨tree, filled, rfl, rfl⟩
    cases tree with
    | av action s t c p =>
      exact .av action (Grammar.sterm_iff.mpr ⟨s, filled.1, rfl, rfl⟩)
        (Grammar.sterm_iff.mpr ⟨t, filled.2.1, rfl, rfl⟩)
        (Grammar.sterm_iff.mpr ⟨c, filled.2.2.1, rfl, rfl⟩)
        (Grammar.sterm_iff.mpr ⟨p, filled.2.2.2, rfl, rfl⟩)
    | xperm action s t c p =>
      exact .xperm action (Grammar.sterm_iff.mpr ⟨s, filled.1, rfl, rfl⟩)
        (Grammar.sterm_iff.mpr ⟨t, filled.2.1, rfl, rfl⟩)
        (Grammar.sterm_iff.mpr ⟨c, filled.2.2.1, rfl, rfl⟩)
        (Grammar.xperms_iff.mpr ⟨p, rfl, rfl⟩)
    | state action t => exact .state action (Grammar.sterm_iff.mpr ⟨t, filled, rfl, rfl⟩)
    | typeattribute t a =>
      exact .typeattribute (Grammar.term_iff.mpr ⟨t, filled.1, rfl, rfl⟩)
        (Grammar.term_iff.mpr ⟨a, filled.2, rfl, rfl⟩)
    | type t a =>
      cases a with
      | none => exact .type t
      | some a => exact .typeWith t (Grammar.term_iff.mpr ⟨a, filled a rfl, rfl, rfl⟩)
    | newAttr t => exact .newAttr t
    | transition s t c d o =>
      cases o with
      | none => exact .transition s t c d
      | some o => exact .transitionNamed s t c d o
    | typeRule action s t c d => exact .typeRule action s t c d
    | genfscon s t c => exact .genfscon s t c

end Magisk.SePolicy
