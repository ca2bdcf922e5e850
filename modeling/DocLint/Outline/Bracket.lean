import DocLint.Token.Basic

/-!
# Brackets and statements

Where groups and statements end in a list of tokens. Places are token indexes; a group or a
statement that is never ended reaches to the last token.

* `matchingClose`: the token that closes the group opened at an index.
* `bodyFrom`: the braced body or the semicolon that follows a signature.
* `statementEnd`: the semicolon that ends a statement, or the brace of a block inside it.
* `statementStart`: the first of the modifiers in front of a token.
-/

namespace DocLint.Outline

/-- The index of the last token. -/
def lastIndex (ts : List Token) : Nat := ts.length - 1

/-- The first significant token from an index on, with its index. -/
def nextSignificant? (ts : List Token) (start : Nat) : Option (Token × Nat) :=
  ((ts.drop start).zipIdx start).find? (·.1.isSignificant)

/-- The last significant token before an index. -/
def prevSignificant? (ts : List Token) (before : Nat) : Option Token :=
  (ts.take before).reverse.find? (·.isSignificant)

/-- The tokens from index `first` to index `last`, both included, with their indexes. -/
def slice (ts : List Token) (first last : Nat) : List (Token × Nat) :=
  ((ts.drop first).zipIdx first).take (last + 1 - first)

/-- The bracket that closes a group opened by a bracket of the kind; a brace for any other. -/
def pairOf : Kind → Kind × Kind
  | .openParen => (.openParen, .closeParen)
  | .openBracket => (.openBracket, .closeBracket)
  | _ => (.openBrace, .closeBrace)

/-- Looks for the closing bracket at depth `depth`; `j` is the index of the first token. -/
def closeFrom (pair : Kind × Kind) : Nat → Nat → List Token → Option Nat
  | _, _, [] => none
  | depth, j, t :: ts =>
    if t.kind = pair.1 then closeFrom pair (depth + 1) (j + 1) ts
    else if t.kind = pair.2 then
      if depth ≤ 1 then some j else closeFrom pair (depth - 1) (j + 1) ts
    else closeFrom pair depth (j + 1) ts

/-- The token that closes the group opened at index `opening`; only brackets of its own kind are
counted. -/
def matchingClose (ts : List Token) (opening : Nat) : Nat :=
  match ts.drop opening with
  | [] => lastIndex ts
  | t :: rest => (closeFrom (pairOf t.kind) 0 opening (t :: rest)).getD (lastIndex ts)

/-- What follows a signature: where its braced body opens, if it has one, and its last token. -/
structure Body where
  opening : Option Nat
  last : Nat
  deriving DecidableEq, Repr

/-- The braced body or the semicolon that comes first from an index on. -/
def bodyFrom (ts : List Token) (start : Nat) : Body :=
  match ((ts.drop start).zipIdx start).find? fun p =>
      p.1.kind == .openBrace || p.1.kind == .semicolon with
  | none => ⟨none, lastIndex ts⟩
  | some (t, j) => if t.kind = .openBrace then ⟨some j, matchingClose ts j⟩ else ⟨none, j⟩

/-- Looks for the end of a statement that starts at `start`; `j` is the index of the first token. -/
def statementEndFrom (start : Nat) : Nat → Nat → List Token → Option Nat
  | _, _, [] => none
  | depth, j, t :: ts =>
    if t.kind.opens then statementEndFrom start (depth + 1) (j + 1) ts
    else if t.kind.closes then
      if depth = 0 then some (max (j - 1) start)
      else if depth = 1 ∧ t.kind = .closeBrace then some j
      else statementEndFrom start (depth - 1) (j + 1) ts
    else if t.kind = .semicolon ∧ depth = 0 then some j
    else statementEndFrom start depth (j + 1) ts

/-- The end of the statement that starts at `start`: a semicolon outside of groups, or the brace
that closes a block of the statement. A bracket that closes an outer group ends it before that
bracket. -/
def statementEnd (ts : List Token) (start : Nat) : Nat :=
  (statementEndFrom start 0 start (ts.drop start)).getD (lastIndex ts)

/-- Walks back over modifiers; the list holds the tokens before index `j`, the nearest first, and
`start` is the first modifier found so far. -/
def modifiersBack : Nat → Nat → List Token → Nat
  | start, _, [] => start
  | start, j, t :: ts =>
    if !t.isSignificant then modifiersBack start (j - 1) ts
    else if t.isModifier then modifiersBack (j - 1) (j - 1) ts
    else start

/-- The first of the modifiers in front of the token at index `i`, or `i`. -/
def statementStart (ts : List Token) (i : Nat) : Nat := modifiersBack i i (ts.take i).reverse

/-- The depth of groups after a token. -/
def depthAfter (depth : Nat) (k : Kind) : Nat :=
  if k.opens then depth + 1 else if k.closes then depth - 1 else depth

end DocLint.Outline
