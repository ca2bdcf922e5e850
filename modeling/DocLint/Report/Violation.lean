import DocLint.Severity

/-!
# Violations

A violation is a finding that has been placed and worded.

* `Violation.oneLine`: `file:line:column: severity [code] message`.
* `Violation.block`: the form over three lines.
* `Diagnostic`: what a source snippet is labelled with.
-/

namespace DocLint

open Text

/-- A place in a file. -/
structure Location where
  /-- The path as it is shown. -/
  file : Text
  /-- Line, from 1. -/
  line : Nat
  /-- Column, from 1, in characters. -/
  column : Nat
  /-- Bytes before the place. -/
  offset : Nat
  /-- Bytes of the place. -/
  length : Nat
  deriving DecidableEq, Repr

/-- `file:line:column`. -/
def Location.render (l : Location) : Text :=
  l.file ++ ":" ++ ofNat l.line ++ ":" ++ ofNat l.column

/-- A problem of a file. -/
structure Violation where
  /-- The code of the rule. -/
  code : Text
  /-- The display name of the rule. -/
  rule : Text
  severity : Severity
  location : Location
  message : Text
  deriving DecidableEq, Repr

namespace Violation

/-- The violation in one line. -/
def oneLine (v : Violation) : Text :=
  v.location.render ++ ": " ++ v.severity.name ++ " [" ++ v.code ++ "] " ++ v.message

/-- The violation with its message and rule on lines of their own. -/
def block (v : Violation) : Text :=
  v.code ++ " at " ++ v.location.render ++ "\n  " ++ v.severity.name ++ ": " ++ v.message ++
    "\n  = rule: " ++ v.rule ++ "\n"

end Violation

/-- A message with a labelled span of a source. -/
structure Diagnostic where
  message : Text
  help : Text
  /-- The label of the span. -/
  label : Text
  offset : Nat
  length : Nat
  /-- The text of the file, to show the span in. -/
  source : Option Text := none
  deriving DecidableEq, Repr

/-- The diagnostic of a violation. -/
def Violation.diagnostic (v : Violation) (source : Option Text) : Diagnostic where
  message := "[" ++ v.code ++ "] " ++ v.message
  help := v.rule
  label := v.severity.name
  offset := v.location.offset
  length := v.location.length
  source := source

end DocLint
