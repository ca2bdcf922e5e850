import DocLint.Text.Basic

/-!
# Severities
-/

namespace DocLint

/-- How much a violation weighs. Only errors make a run fail. -/
inductive Severity where
  | info
  | warning
  | error
  deriving DecidableEq, Repr

namespace Severity

/-- The name of a severity. -/
def name : Severity → Text
  | info => "info"
  | warning => "warning"
  | error => "error"

/-- The severity of a name. -/
def ofName? (t : Text) : Option Severity := [info, warning, error].find? (·.name == t)

end Severity

end DocLint
