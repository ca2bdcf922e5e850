import DocLint.Path
import DocLint.Report.Violation

/-!
# Reports

The result of a run: the violations, the number of files checked, and the paths that could not be
checked.

* `Report.sort`: the violations in the order of file, line, column and code; equal ones stay in the
  order in which they were found.
* `Report.hasErrors`, `Report.count`.
-/

namespace DocLint

/-- A path that could not be checked. -/
structure PathError where
  path : Text
  message : Text
  deriving DecidableEq, Repr

/-- The result of a run. -/
structure Report where
  violations : List Violation := []
  filesChecked : Nat := 0
  errors : List PathError := []
  deriving DecidableEq, Repr

namespace Violation

/-- Compares violations by file, line, column and code. -/
def compare (a b : Violation) : Ordering :=
  (Ord.compare (Path.orderKey a.location.file) (Path.orderKey b.location.file)).then <|
  (Ord.compare a.location.line b.location.line).then <|
  (Ord.compare a.location.column b.location.column).then <|
  Ord.compare (Text.orderKey a.code) (Text.orderKey b.code)

end Violation

namespace Report

/-- The report with its violations in order. -/
def sort (r : Report) : Report :=
  { r with violations := r.violations.mergeSort fun a b => (a.compare b).isLE }

/-- Some violation is an error. -/
def hasErrors (r : Report) : Bool := r.violations.any (·.severity == .error)

/-- The number of violations of a severity. -/
def count (r : Report) (s : Severity) : Nat := r.violations.countP (·.severity == s)

end Report

end DocLint
