import Magisk.SePolicy.Xperm

/-!
# Policy statements

The recursive descent parser of `statement.rs` on a token list.  A parser
returns what it recognised together with the remaining tokens; a statement
becomes the one policy operation it calls.
-/

namespace Magisk.SePolicy

variable {xperm : Xperm} {reset : Bool} {xperms : List Xperm}

/-- The tokens of a statement. -/
inductive Token where
  | AL | DN | AA | DA | AX | AY | DX | PM | EF | TA | TY | AT | TT | TC | TM | GF
  | LB | RB | CM | ST | TL | HP
  | HX (value : UInt16)
  | ID (name : String)
  deriving DecidableEq, Repr

/-- Why a statement is rejected. -/
inductive ParseError where
  | general
  | avtabAv (action : Token)
  | avtabXperms (action : Token)
  | avtabType (action : Token)
  | typeState (action : Token)
  | typeAttr
  | typeTrans
  | newType
  | newAttr
  | genfsCon
  | showHelp
  | unknownAction (action : Token)
  deriving DecidableEq, Repr

/-- A recognised value and the tokens after it. -/
abbrev ParseResult (α : Type) := Except ParseError (α × List Token)

/-! ## Terms -/

/-- `parse_id`. -/
def parseId : List Token → ParseResult String
  | .ID name :: tokens => .ok (name, tokens)
  | _ => .error .general

/-- The names of a braced term, up to the closing brace. -/
def parseNames (names : List String) : List Token → ParseResult (List String)
  | .ID name :: tokens => parseNames (names ++ [name]) tokens
  | .RB :: tokens => .ok (names, tokens)
  | _ => .error .general

/-- `parse_term`. -/
def parseTerm : List Token → ParseResult (List String)
  | .ID name :: tokens => .ok ([name], tokens)
  | .LB :: tokens => parseNames [] tokens
  | _ => .error .general

/-- The names of a braced term that may contain the match-all token, which
forgets all names before and after it. -/
def parseStarNames (names : Option (List String)) : List Token → ParseResult (List String)
  | .ID name :: tokens => parseStarNames (names.map (· ++ [name])) tokens
  | .ST :: tokens => parseStarNames none tokens
  | .RB :: tokens => .ok (names.getD [], tokens)
  | _ => .error .general

/-- `parse_sterm`. -/
def parseSterm : List Token → ParseResult (List String)
  | .ID name :: tokens => .ok ([name], tokens)
  | .ST :: tokens => .ok ([], tokens)
  | .LB :: tokens => parseStarNames (some []) tokens
  | _ => .error .general

/-! ## Extended permissions -/

/-- `parse_xperm`. -/
def parseXperm : List Token → ParseResult Xperm
  | .HX low :: .HP :: .HX high :: tokens => .ok (⟨low, high, false⟩, tokens)
  | .HX _ :: .HP :: _ => .error .general
  | .HX low :: tokens => .ok (⟨low, low, false⟩, tokens)
  | _ => .error .general

variable {tokens rest : List Token}

theorem length_lt_of_parseXperm (parsed : parseXperm tokens = .ok (xperm, rest)) :
    rest.length < tokens.length := by
  unfold parseXperm at parsed
  split at parsed
  · cases parsed
    simp only [List.length_cons]
    omega
  · cases parsed
  · cases parsed
    exact Nat.lt_succ_self _
  · cases parsed

/-- The values and ranges of a braced list. -/
def parseXpermList (reset : Bool) (xperms : List Xperm) (tokens : List Token) :
    ParseResult (List Xperm) :=
  match _parsed : parseXperm tokens with
  | .error error => .error error
  | .ok (xperm, .RB :: rest) => .ok (xperms ++ [{ xperm with reset := reset }], rest)
  | .ok (xperm, rest) => parseXpermList reset (xperms ++ [{ xperm with reset := reset }]) rest
termination_by tokens.length
decreasing_by exact length_lt_of_parseXperm _parsed

theorem parseXpermList_of_close (parsed : parseXperm tokens = .ok (xperm, .RB :: rest)) :
    parseXpermList reset xperms tokens = .ok (xperms ++ [{ xperm with reset := reset }], rest) := by
  rw [parseXpermList]
  split <;> simp_all

theorem parseXpermList_of_more (parsed : parseXperm tokens = .ok (xperm, rest))
    (more : rest.head? ≠ some .RB) :
    parseXpermList reset xperms tokens =
      parseXpermList reset (xperms ++ [{ xperm with reset := reset }]) rest := by
  rw [parseXpermList]
  split
  · simp_all
  · rename_i closed
    rw [parsed] at closed
    cases closed
    exact absurd rfl more
  · simp_all

/-- `parse_xperms` after the optional complement token. -/
def parseXpermsBody (reset : Bool) : List Token → ParseResult (List Xperm)
  | .LB :: tokens => parseXpermList reset [] tokens
  | .ST :: tokens => .ok ([⟨0x0000, 0xFFFF, reset⟩], tokens)
  | .HX low :: tokens =>
    if low > 0 then .ok ([⟨low, low, reset⟩], tokens)
    else .ok ([⟨0x0000, 0xFFFF, reset⟩], tokens)
  | _ => .error .general

/-- `parse_xperms`. -/
def parseXperms : List Token → ParseResult (List Xperm)
  | .TL :: .LB :: tokens => parseXpermsBody true (.LB :: tokens)
  | .TL :: _ => .error .general
  | tokens => parseXpermsBody false tokens

/-- `match_string`. -/
def matchString (pattern : String) : List Token → ParseResult Unit
  | .ID name :: tokens => if name = pattern then .ok ((), tokens) else .error .general
  | _ => .error .general

/-- `check_additional_args`. -/
def checkAdditionalArgs (tokens : List Token) : Except ParseError Unit :=
  if tokens = [] then .ok () else .error .general

/-! ## Statements -/

/-- The policy operation a statement calls. -/
inductive Call where
  | allow (s t c p : List String)
  | deny (s t c p : List String)
  | auditallow (s t c p : List String)
  | dontaudit (s t c p : List String)
  | allowxperm (s t c : List String) (p : List Xperm)
  | auditallowxperm (s t c : List String) (p : List Xperm)
  | dontauditxperm (s t c : List String) (p : List Xperm)
  | permissive (t : List String)
  | enforce (t : List String)
  | typeattribute (t a : List String)
  | type (t : String) (a : List String)
  | attribute (t : String)
  | typeTransition (s t c d o : String)
  | typeChange (s t c d : String)
  | typeMember (s t c d : String)
  | genfscon (s t c : String)
  deriving DecidableEq, Repr

/-- Arguments of an access vector statement. -/
def parseAvArgs (call : List String → List String → List String → List String → Call)
    (tokens : List Token) : Except ParseError Call := do
  let (s, tokens) ← parseSterm tokens
  let (t, tokens) ← parseSterm tokens
  let (c, tokens) ← parseSterm tokens
  let (p, tokens) ← parseSterm tokens
  checkAdditionalArgs tokens
  return call s t c p

/-- Arguments of an extended permission statement. -/
def parseXpermArgs (call : List String → List String → List String → List Xperm → Call)
    (tokens : List Token) : Except ParseError Call := do
  let (s, tokens) ← parseSterm tokens
  let (t, tokens) ← parseSterm tokens
  let (c, tokens) ← parseSterm tokens
  let (_, tokens) ← matchString "ioctl" tokens
  let (p, tokens) ← parseXperms tokens
  checkAdditionalArgs tokens
  return call s t c p

/-- Arguments of a type state statement. -/
def parseStateArgs (call : List String → Call) (tokens : List Token) :
    Except ParseError Call := do
  let (t, tokens) ← parseSterm tokens
  checkAdditionalArgs tokens
  return call t

/-- Arguments of `typeattribute`. -/
def parseTypeAttrArgs (tokens : List Token) : Except ParseError Call := do
  let (t, tokens) ← parseTerm tokens
  let (a, tokens) ← parseTerm tokens
  checkAdditionalArgs tokens
  return .typeattribute t a

/-- Arguments of `type`; attributes are optional. -/
def parseTypeArgs (tokens : List Token) : Except ParseError Call := do
  let (t, tokens) ← parseId tokens
  let (a, tokens) ← if tokens = [] then .ok ([], tokens) else parseTerm tokens
  checkAdditionalArgs tokens
  return .type t a

/-- Arguments of `attribute`. -/
def parseAttributeArgs (tokens : List Token) : Except ParseError Call := do
  let (t, tokens) ← parseId tokens
  checkAdditionalArgs tokens
  return .attribute t

/-- Arguments of a type rule. -/
def parseTypeRuleArgs (call : String → String → String → String → Call) (tokens : List Token) :
    Except ParseError Call := do
  let (s, tokens) ← parseId tokens
  let (t, tokens) ← parseId tokens
  let (c, tokens) ← parseId tokens
  let (d, tokens) ← parseId tokens
  checkAdditionalArgs tokens
  return call s t c d

/-- Arguments of `type_transition`; the object name is optional. -/
def parseTransitionArgs (tokens : List Token) : Except ParseError Call := do
  let (s, tokens) ← parseId tokens
  let (t, tokens) ← parseId tokens
  let (c, tokens) ← parseId tokens
  let (d, tokens) ← parseId tokens
  let (o, tokens) ← if tokens = [] then .ok ("", tokens) else parseId tokens
  checkAdditionalArgs tokens
  return .typeTransition s t c d o

/-- Arguments of `genfscon`. -/
def parseGenfsArgs (tokens : List Token) : Except ParseError Call := do
  let (s, tokens) ← parseId tokens
  let (t, tokens) ← parseId tokens
  let (c, tokens) ← parseId tokens
  checkAdditionalArgs tokens
  return .genfscon s t c

/-- `exec_statement`, up to the call it makes; the error of an argument is
replaced by the usage of its action. -/
def execStatement : List Token → Except ParseError Call
  | [] => .error .showHelp
  | action :: tokens =>
    match action with
    | .AL => (parseAvArgs .allow tokens).mapError fun _ => .avtabAv action
    | .DN => (parseAvArgs .deny tokens).mapError fun _ => .avtabAv action
    | .AA => (parseAvArgs .auditallow tokens).mapError fun _ => .avtabAv action
    | .DA => (parseAvArgs .dontaudit tokens).mapError fun _ => .avtabAv action
    | .AX => (parseXpermArgs .allowxperm tokens).mapError fun _ => .avtabXperms action
    | .AY => (parseXpermArgs .auditallowxperm tokens).mapError fun _ => .avtabXperms action
    | .DX => (parseXpermArgs .dontauditxperm tokens).mapError fun _ => .avtabXperms action
    | .PM => (parseStateArgs .permissive tokens).mapError fun _ => .typeState action
    | .EF => (parseStateArgs .enforce tokens).mapError fun _ => .typeState action
    | .TA => (parseTypeAttrArgs tokens).mapError fun _ => .typeAttr
    | .TY => (parseTypeArgs tokens).mapError fun _ => .newType
    | .AT => (parseAttributeArgs tokens).mapError fun _ => .newAttr
    | .TC => (parseTypeRuleArgs .typeChange tokens).mapError fun _ => .avtabType action
    | .TM => (parseTypeRuleArgs .typeMember tokens).mapError fun _ => .avtabType action
    | .TT => (parseTransitionArgs tokens).mapError fun _ => .typeTrans
    | .GF => (parseGenfsArgs tokens).mapError fun _ => .genfsCon
    | _ => .error (.unknownAction action)

end Magisk.SePolicy
