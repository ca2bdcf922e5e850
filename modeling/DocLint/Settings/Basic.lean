import DocLint.Severity
import DocLint.Table

/-!
# Settings

What a settings file decides: where and what to check, how rules are enabled and weighed, and
which messages are reworded.
-/

namespace DocLint

/-- The settings of one rule. -/
structure RuleSetting where
  enabled : Option Bool := none
  severity : Option Severity := none
  deriving DecidableEq, Repr

/-- The settings of a run. -/
structure Settings where
  /-- What is checked when no path is given. -/
  root : Text := "."
  /-- Patterns of paths that are left out. -/
  exclude : List Text := ["**/vendor/**", "**/node_modules/**", "**/.git/**"]
  /-- Extensions of the files that are checked inside directories. -/
  extensions : List Text := ["php"]
  /-- The greatest number of files checked at the same time. -/
  parallelism : Option Nat := none
  /-- Settings by rule selector. -/
  rules : Table RuleSetting := []
  /-- Reworded messages. -/
  messages : Table Text := []
  deriving DecidableEq, Repr

end DocLint
