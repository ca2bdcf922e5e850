import DocLint.Outline.Recognize

/-!
# The outline of a file

The outline is what one pass over the tokens of a file finds: the documentation blocks, the block
of the file itself, and the declarations with the blocks attached to them.

A documentation block waits for a declaration until a token ends the wait. Blanks, open tags and
attributes do not end it, nor do modifiers; every other token does.

* `Token.role`: what the pass does with a token.
* `Pass`: the state of the pass; `Pass.step`: one token.
* `Outline.ofTokens`: the outline of a list of tokens.
-/

namespace DocLint

namespace Token

/-- What a token is to the pass. -/
inductive Role where
  /-- Passed over. -/
  | invisible
  /-- Holds documentation. -/
  | doc
  /-- Ends the wait of a block and is no code. -/
  | divider
  /-- Code. -/
  | code
  deriving DecidableEq, Repr

/-- The role of a token. -/
def role (t : Token) : Role :=
  match t.kind with
  | .blank | .openTag | .attributeGroup => .invisible
  | .docComment => .doc
  | .lineComment => if t.isDoc then .doc else .divider
  | .blockComment | .html | .closeTag => .divider
  | _ => .code

end Token

/-- What a file holds. -/
structure Outline where
  /-- The documentation of the file itself. -/
  fileDoc : Option DocBlock := none
  /-- Every documentation block, in source order. -/
  docs : List DocBlock := []
  /-- Every declaration, in the order in which they are recognised. -/
  declarations : List Declaration := []
  deriving DecidableEq, Repr

namespace Outline

/-- The state of the pass over the tokens. -/
structure Pass where
  outline : Outline := {}
  /-- The block that waits for a declaration. -/
  waiting : Option DocBlock := none
  /-- The bodies opened so far and not left, the last one first. -/
  scopes : List Scope := []
  /-- No declaration is looked for before this index. -/
  resumeAt : Nat := 0
  /-- Code has been seen. -/
  codeSeen : Bool := false

namespace Pass

/-- Leaves the bodies that end before index `i`, the innermost first. -/
def leave (p : Pass) (i : Nat) : Pass :=
  { p with scopes := p.scopes.dropWhile fun s => decide (s.closing < i) }

/-- Takes the documentation in the token at `i`. Only a documentation block, and not a line
comment, waits for a declaration or documents the file. -/
def collect (p : Pass) (i : Nat) (t : Token) : Pass :=
  let d := DocBlock.ofToken t i
  let isBlock := t.kind == .docComment
  { p with
    outline := { p.outline with
      fileDoc := if isBlock && !p.codeSeen then p.outline.fileDoc.or (some d) else p.outline.fileDoc
      docs := p.outline.docs ++ [d] }
    waiting := if isBlock then some d else none }

/-- Adds what was recognised. -/
def add (p : Pass) (r : Recognition) : Pass :=
  { p with
    outline := { p.outline with declarations := p.outline.declarations ++ r.declarations }
    scopes := r.scope.toList ++ p.scopes
    resumeAt := r.resumeAt.getD p.resumeAt }

/-- The surroundings of the tokens of code. -/
def site (p : Pass) (tokens : List Token) : Site := ⟨tokens, p.scopes, p.waiting⟩

/-- Takes the token of code at `i`. -/
def advance (p : Pass) (tokens : List Token) (i : Nat) (t : Token) : Pass :=
  let q := if p.resumeAt ≤ i then p.add (recognize (p.site tokens) i t) else p
  { q with codeSeen := true, waiting := if t.isModifier then p.waiting else none }

/-- Takes the token `t` at index `i`. -/
def step (tokens : List Token) (p : Pass) (ti : Token × Nat) : Pass :=
  let (t, i) := ti
  let p := p.leave i
  match t.role with
  | .invisible => p
  | .doc => p.collect i t
  | .divider => { p with waiting := none }
  | .code => p.advance tokens i t

/-- The whole pass. -/
def run (tokens : List Token) : Pass := tokens.zipIdx.foldl (step tokens) {}

end Pass

/-- The outline of the tokens of a file. -/
def ofTokens (tokens : List Token) : Outline := (Pass.run tokens).outline

/-- The class-like declarations. -/
def classes (o : Outline) : List ClassDecl := o.declarations.filterMap (·.classLike?)

/-- The functions. -/
def functions (o : Outline) : List FunctionDecl := o.declarations.filterMap (·.function?)

/-- The properties. -/
def properties (o : Outline) : List PropertyDecl := o.declarations.filterMap (·.property?)

/-- The constants of both forms. -/
def constants (o : Outline) : List ConstantDecl := o.declarations.filterMap (·.constant?)

/-- The constants of one form. -/
def constantsOf (o : Outline) (form : ConstantForm) : List ConstantDecl :=
  o.constants.filter (·.form == form)

end Outline

end DocLint
