import DocLint.Rule.Basic
import DocLint.Table

/-!
# The message catalog

Display names and error templates. A rule looks for its own keys first, then for `rule_` and
`error_` followed by its code. A template names the fields of a finding in braces.

* `Catalog.ruleName`: the display name of a rule.
* `Catalog.formatError`: the message of a finding.
* `Catalog.english`: the built-in texts.
-/

namespace DocLint

open Text

/-- Texts by their keys. -/
structure Catalog where
  texts : Table Text := []

namespace Catalog

/-- The catalog without texts. -/
def empty : Catalog := {}

/-- The text of a key. -/
def get? (c : Catalog) (key : Text) : Option Text := c.texts.get? key

/-- The catalog with a text set. -/
def set (c : Catalog) (key text : Text) : Catalog := ⟨c.texts.set key text⟩

/-- The catalog with each of the texts set in turn. -/
def extend (c : Catalog) (entries : List (Text × Text)) : Catalog := ⟨c.texts.setAll entries⟩

/-- The text of the rule's own key, if it has one, or else of the standard key. -/
def forRule? (c : Catalog) (own : Option Text) (standard : Text) : Option Text :=
  (own.bind c.get?).or (c.get? standard)

/-- The display name of a rule; its code if the catalog has none. -/
def ruleName (c : Catalog) (r : Rule) : Text :=
  (c.forRule? r.nameKey ("rule_" ++ r.code)).getD r.code

/-- A name in braces. -/
def placeholder (key : Text) : Text := '{' :: key ++ ['}']

/-- The fields put in the places that name them, one field after another, and the line last. -/
def substitute (template : Text) (x : Finding) : Text :=
  let filled := x.fields.foldl (fun t f => replaceAll (placeholder f.1) f.2 t) template
  match x.line with
  | some n => replaceAll (placeholder "line") (ofNat n) filled
  | none => filled

/-- The parts of a message without a template. -/
def plainParts (x : Finding) : List Text :=
  x.fields.map (fun f => f.1 ++ ": ".toList ++ f.2) ++
    (x.line.map fun n => "line: ".toList ++ ofNat n).toList

/-- The message of a finding: the template of the rule filled in, or the name of the rule and the
fields. -/
def formatError (c : Catalog) (r : Rule) (x : Finding) : Text :=
  match c.forRule? r.errorKey ("error_" ++ r.code) with
  | some template => substitute template x
  | none =>
    let parts := plainParts x
    let listing : Text := if parts.isEmpty then [] else ": ".toList ++ join ", " parts
    c.ruleName r ++ ". Error".toList ++ listing

/-- The built-in texts: code, display name and error template of each built-in rule. -/
def englishTexts : List (String × String × String) :=
  [("filephpdocpresent", "File-level phpdocs block is present",
      "File-level phpdocs block is not found"),
   ("classesdocumented", "All classes are documented", "Class \x7bclass\x7d is not documented"),
   ("functionsdocumented", "All functions are documented",
      "Function \x7bfunction\x7d is not documented"),
   ("variablesdocumented", "All variables are documented",
      "Variable \x7bvariable\x7d is not documented"),
   ("constsdocumented", "All constants are documented",
      "Constant \x7bobject\x7d is not documented"),
   ("definesdocumented", "All define statements are documented",
      "Define statement for \x7bobject\x7d is not documented"),
   ("noinlinephpdocs", "There are no comments starting with three or more slashes",
      "Found comment starting with three or more slashes"),
   ("phpdocsfirstline",
      "File-level phpdocs block and class phpdocs should have a short description",
      "No one-line description found in phpdocs for \x7bobject\x7d"),
   ("functionarguments", "Phpdocs for functions properly define all parameters",
      "Phpdocs for function \x7bfunction\x7d has incomplete parameters list"),
   ("variableshasvar", "Phpdocs for variables contain @var with variable type",
      "Phpdocs for variable \x7bvariable\x7d does not contain @var or incorrect"),
   ("definedoccorrect", "Check syntax for define statement",
      "Phpdocs for define statement must start with constant name and dash: \x7bobject\x7d"),
   ("filehascopyright", "Files must have a @copyright tag",
      "File-level phpdocs block does not have a @copyright tag"),
   ("classeshavecopyright", "Classes must have a @copyright tag",
      "Class \x7bobject\x7d does not have a @copyright tag")]

/-- The built-in catalog. -/
def english : Catalog := ⟨englishTexts.flatMap fun (code, name, error) =>
  [("rule_" ++ code.toList, name.toList), ("error_" ++ code.toList, error.toList)]⟩

end Catalog

end DocLint
