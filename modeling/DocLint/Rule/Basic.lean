import DocLint.Severity
import DocLint.SourceFile

/-!
# Rules

A rule looks at a file and answers with findings. A finding says where the problem is and holds
the fields that its message names; wording it is the work of the catalog.

* `Finding`, with `Finding.atLine`, `Finding.atToken`, `Finding.atDeclaration`, `Finding.with`.
* `Rule`: a code and other selectors, message keys, a severity, and what it finds.
-/

namespace DocLint

/-- One problem that a rule found. -/
structure Finding where
  /-- The reported line. -/
  line : Option Nat := none
  /-- The token whose place is reported. -/
  token : Option Nat := none
  /-- The fields of the message, in order. -/
  fields : List (Text × Text) := []
  deriving DecidableEq, Repr

namespace Finding

/-- Reported on a line. -/
def atLine (x : Finding) (line : Nat) : Finding := { x with line := some line }

/-- Reported on a token and its line. -/
def atToken (x : Finding) (f : SourceFile) (tid : Nat) : Finding :=
  { x with line := some (f.lineNumber tid), token := some tid }

/-- Reported on the token that stands for a declaration. -/
def atDeclaration (x : Finding) (f : SourceFile) (d : Declaration) : Finding :=
  x.atToken f d.anchor

/-- With one more field. -/
def withField (x : Finding) (key value : Text) : Finding :=
  { x with fields := x.fields ++ [(key, value)] }

/-- The value of the first field of a name. -/
def get? (x : Finding) (key : Text) : Option Text := (x.fields.find? (·.1 == key)).map (·.2)

end Finding

/-- A check of a file. -/
structure Rule where
  /-- The code that names the rule. -/
  code : Text
  /-- Other texts that select the rule. -/
  aliases : List Text := []
  /-- The message key tried first for the display name. -/
  nameKey : Option Text := none
  /-- The message key tried first for the error template. -/
  errorKey : Option Text := none
  /-- What the rule checks, in a line. -/
  description : Text := []
  /-- The severity, unless the registry overrides it. -/
  severity : Severity := .error
  /-- What the rule finds in a file. -/
  findings : SourceFile → List Finding

namespace Rule

/-- The texts that select the rule: its code, then its aliases. -/
def selectors (r : Rule) : List Text := r.code :: r.aliases

/-- The text selects the rule. -/
def isSelectedBy (r : Rule) (s : Text) : Bool := r.selectors.contains s

end Rule

end DocLint
