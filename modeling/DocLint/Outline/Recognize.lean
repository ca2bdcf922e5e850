import DocLint.Outline.Bracket
import DocLint.Outline.Declaration

/-!
# Recognising declarations

What a token declares, seen from its place in the file: the tokens around it, the bodies that are
open there and the documentation that waits for a declaration. A recogniser answers with the
declarations, the body that they open and the index before which no other declaration is looked
for.

* `classLikeAt`, `functionAt`, `constantsAt`, `propertiesAt`, `defineAt`.
* `recognize`: the recogniser that the token calls for.
-/

namespace DocLint.Outline

/-- What a body belongs to. -/
inductive ScopeKind where
  | classLike
  | function
  deriving DecidableEq, Repr

/-- The braced body of a class or a function. -/
structure Scope where
  kind : ScopeKind
  name : Text
  opening : Nat
  closing : Nat
  deriving DecidableEq, Repr

/-- The token at an index lies inside the body. -/
def Scope.holds (s : Scope) (i : Nat) : Bool := decide (s.opening < i) && decide (i < s.closing)

/-- The surroundings of a token. -/
structure Site where
  /-- The tokens of the file. -/
  tokens : List Token
  /-- The bodies opened so far, the last one first. -/
  scopes : List Scope
  /-- The documentation that waits for a declaration. -/
  doc : Option DocBlock

namespace Site

/-- The innermost body around an index. -/
def scopeAt? (s : Site) (i : Nat) : Option Scope := s.scopes.find? (·.holds i)

/-- The class whose body is the innermost one around an index. -/
def owner? (s : Site) (i : Nat) : Option Text :=
  (s.scopeAt? i).bind fun c => if c.kind = .classLike then some c.name else none

/-- The innermost body around an index is that of a class. -/
def inClass (s : Site) (i : Nat) : Bool := (s.owner? i).isSome

end Site

/-- What a recogniser finds. -/
structure Recognition where
  declarations : List Declaration := []
  scope : Option Scope := none
  /-- No declaration is looked for before this index. -/
  resumeAt : Option Nat := none

/-- The token reaches for a member. -/
def isMemberAccess (t : Token) : Bool := t.isPunct "::" || t.isPunct "->" || t.isPunct "?->"

/-! ## Classes -/

/-- A class-like declaration introduced by the token at `i`. -/
def classLikeAt (s : Site) (i : Nat) (t : Token) : Option Recognition := do
  if (prevSignificant? s.tokens i).any fun p => isMemberAccess p || p.isKeyword "new" then none
  let (nameToken, n) ← nextSignificant? s.tokens (i + 1)
  if nameToken.kind ≠ .name then none
  let body := bodyFrom s.tokens (n + 1)
  some {
    declarations := [.classLike {
      name := nameToken.text, keyword := Text.lower t.text, span := ⟨i, body.last⟩,
      body := body.opening, doc := s.doc }]
    scope := body.opening.map fun o => ⟨.classLike, nameToken.text, o, body.last⟩ }

/-! ## Functions -/

/-- Tokens cut at the commas outside of groups. -/
def splitCommas : Nat → List Token → List (List Token)
  | _, [] => [[]]
  | depth, t :: ts =>
    if t.kind = .comma ∧ depth = 0 then [] :: splitCommas 0 ts
    else match splitCommas (depthAfter depth t.kind) ts with
      | [] => [[t]]
      | p :: ps => (t :: p) :: ps

/-- Reads one parameter: the type up to the variable, without modifiers and `&`. -/
def readParameter (hint : Text) (variadic : Bool) : List Token → Option Parameter
  | [] => none
  | t :: ts =>
    if !t.isSignificant then readParameter hint variadic ts
    else if t.kind = .dollarName then
      some ⟨hint, if variadic then "..." ++ t.text else t.text⟩
    else if t.isModifier || t.isPunct "&" then readParameter hint variadic ts
    else if t.isPunct "..." then readParameter hint true ts
    else if t.isPunct "=" then none
    else readParameter (hint ++ t.text) variadic ts

/-- The parameters written in the tokens between two parentheses. -/
def readParameters (ts : List Token) : List Parameter :=
  (splitCommas 0 ts).filterMap (readParameter [] false)

/-- The token that names a function, after the word at `i` and an optional `&`. -/
def functionName? (ts : List Token) (i : Nat) : Option (Token × Nat) := do
  let (t, n) ← nextSignificant? ts (i + 1)
  let (t, n) ← if t.isPunct "&" then nextSignificant? ts (n + 1) else some (t, n)
  if t.kind = .name ∨ t.kind = .keyword then some (t, n) else none

/-- A function introduced by the word at `i`. -/
def functionAt (s : Site) (i : Nat) : Option Recognition := do
  let ts := s.tokens
  if (prevSignificant? ts i).any (·.isKeyword "use") then none
  let (nameToken, n) ← functionName? ts i
  let (paren, open_) ← nextSignificant? ts (n + 1)
  if paren.kind ≠ .openParen then none
  let close := matchingClose ts open_
  let body := bodyFrom ts (close + 1)
  some {
    declarations := [.function {
      name := nameToken.text, owner := s.owner? i, span := ⟨i, body.last⟩, body := body.opening,
      parameters := readParameters ((ts.drop (open_ + 1)).take (close - (open_ + 1))),
      doc := s.doc }]
    scope := body.opening.map fun o => ⟨.function, nameToken.text, o, body.last⟩
    resumeAt := some (max (body.opening.getD body.last) (i + 1)) }

/-! ## Constants -/

/-- How far the reading of one item of a constant statement has come. -/
inductive ConstantItem where
  /-- Before the equals sign, with the last name seen. -/
  | naming (candidate : Option (Token × Nat))
  /-- In the value. -/
  | value

/-- The name tokens of a constant statement: in each item the last name before the equals sign. -/
def constantNames (depth : Nat) (item : ConstantItem) : List (Token × Nat) → List (Token × Nat)
  | [] => []
  | (t, j) :: ts =>
    if t.kind.opens || t.kind.closes then constantNames (depthAfter depth t.kind) item ts
    else if depth > 0 then constantNames depth item ts
    else if t.kind = .comma then constantNames depth (.naming none) ts
    else match item with
      | .value => constantNames depth item ts
      | .naming candidate =>
        if t.isPunct "=" then candidate.toList ++ constantNames depth .value ts
        else if t.kind = .name ∨ t.kind = .keyword then
          constantNames depth (.naming (some (t, j))) ts
        else constantNames depth item ts

/-- The constants of the statement introduced by the word at `i`. -/
def constantsAt (s : Site) (i : Nat) : Option Recognition :=
  let ts := s.tokens
  if (prevSignificant? ts i).any (·.isKeyword "use") then none
  else
    let last := statementEnd ts (i + 1)
    let names := constantNames 0 (.naming none) (slice ts (i + 1) last)
    some {
      declarations := names.map fun (t, j) => .constant {
        name := t.text, owner := s.owner? i, form := .const,
        span := ⟨statementStart ts i, last⟩, nameToken := j, doc := s.doc }
      resumeAt := some (last + 1) }

/-! ## Properties -/

/-- The token cannot stand between the modifiers and the variable of a property. -/
def endsPropertyHead (t : Token) : Bool :=
  t.isKeyword "function" || t.isKeyword "const" || t.isPunct "=" ||
    match t.kind with
    | .semicolon | .openBrace | .closeBrace | .openParen => true
    | _ => false

/-- The first variable of a property statement; the tokens come with their indexes. -/
def firstVariable? : List (Token × Nat) → Option Nat
  | [] => none
  | (t, j) :: ts =>
    if !t.isSignificant then firstVariable? ts
    else if t.kind = .dollarName then some j
    else if endsPropertyHead t then none
    else firstVariable? ts

/-- The name tokens of a property statement: in each item the first variable. -/
def propertyNames (depth : Nat) (wanted : Bool) : List (Token × Nat) → List (Token × Nat)
  | [] => []
  | (t, j) :: ts =>
    if t.kind.opens || t.kind.closes then propertyNames (depthAfter depth t.kind) wanted ts
    else if depth > 0 then propertyNames depth wanted ts
    else if t.kind = .comma then propertyNames depth true ts
    else if wanted && t.kind == .dollarName then (t, j) :: propertyNames depth false ts
    else propertyNames depth wanted ts

/-- The properties of the statement that starts with the modifier at `i`. -/
def propertiesAt (s : Site) (i : Nat) : Option Recognition := do
  let ts := s.tokens
  let v ← firstVariable? ((ts.drop (i + 1)).zipIdx (i + 1))
  let last := statementEnd ts v
  let names := propertyNames 0 true (slice ts v last)
  some {
    declarations := names.map fun (t, j) => .property {
      name := Text.trimStartOf (· == '$') t.text, owner := (s.owner? i).getD [],
      span := ⟨i, last⟩, nameToken := j, doc := s.doc }
    resumeAt := some (last + 1) }

/-! ## Defines -/

/-- The text between the quotes of a literal in single or double quotes. -/
def unquote? (literal : Text) : Option Text :=
  match literal with
  | [] => none
  | q :: t => if q = '\'' ∨ q = '"' then Text.dropSuffix? [q] t else none

/-- The constant of the call introduced by the word at `i`. -/
def defineAt (s : Site) (i : Nat) : Option Recognition := do
  let ts := s.tokens
  if (prevSignificant? ts i).any fun p =>
      isMemberAccess p || p.isKeyword "function" || p.isKeyword "new" then none
  let (paren, open_) ← nextSignificant? ts (i + 1)
  if paren.kind ≠ .openParen then none
  let (literal, _) ← nextSignificant? ts (open_ + 1)
  if literal.kind ≠ .literal then none
  let name ← unquote? literal.text
  let close := matchingClose ts open_
  let last := match nextSignificant? ts (close + 1) with
    | some (t, j) => if t.kind = .semicolon then j else close
    | none => close
  some {
    declarations := [.constant {
      name, owner := none, form := .define, span := ⟨i, last⟩, nameToken := i, doc := s.doc }]
    resumeAt := some (last + 1) }

/-! ## Any declaration -/

/-- What the token at `i` declares. -/
def recognize (s : Site) (i : Nat) (t : Token) : Recognition :=
  let found :=
    if t.isClassWord then classLikeAt s i t
    else if t.isKeyword "function" then functionAt s i
    else if t.isKeyword "const" then constantsAt s i
    else if t.isModifier && s.inClass i then propertiesAt s i
    else if t.kind == .name && Text.sameLetters t.text "define" then defineAt s i
    else none
  found.getD {}

end DocLint.Outline
