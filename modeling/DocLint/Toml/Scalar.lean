import DocLint.Toml.Value

/-!
# TOML scalars without quotes

A scalar without quotes is a run of characters up to a blank, a comma, a closing bracket, a comment
or the end of the line. `scalar?` gives the value of such a run.
-/

namespace DocLint.Toml

open Text

/-- The value of a run of characters. -/
def scalar? (t : Text) : Option Value :=
  if t = "true".toList then some (.boolean true)
  else if t = "false".toList then some (.boolean false)
  else match Time.ofText? t with
    | some m => some (.time m)
    | none => if isFloat t then some .float else (integer? t).map .integer

/-- The character ends a run. -/
def endsScalar (c : Char) : Bool :=
  [' ', '\t', '\n', '\r', '#', ',', ']', '}'].contains c

/-- A scalar without quotes at the front. A time of day may follow a date behind a space. -/
def scalar (t : Text) : Option (Value × Text) := do
  let (run, rest) := t.span (!endsScalar ·)
  let v ← scalar? run
  match v, rest with
  | .time (.date d), ' ' :: behind =>
    let (time, rest') := behind.span (!endsScalar ·)
    if time.head?.any Char.isDigit then (Time.onDay? d time).map fun m => (.time m, rest')
    else some (v, rest)
  | _, _ => some (v, rest)

end DocLint.Toml
