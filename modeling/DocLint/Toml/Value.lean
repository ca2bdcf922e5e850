import DocLint.Table
import DocLint.Toml.Time

/-!
# TOML values

The values of a TOML document. A float is only told from other values, since no setting takes one.
A table remembers how it came to be, because that decides who may add to it.
-/

namespace DocLint.Toml

/-- How a table came to be. -/
inductive Origin where
  /-- The document itself, or opened by a header of its own. -/
  | header
  /-- Named on the way to another header. -/
  | implied
  /-- Named on the way to a dotted key. -/
  | dotted
  /-- Written in braces. -/
  | inline
  deriving DecidableEq, Repr

/-- A value. -/
inductive Value where
  | string (t : Text)
  | integer (n : Int)
  | float
  | boolean (b : Bool)
  | time (t : Time)
  | array (items : List Value)
  /-- Tables opened by headers in double brackets, in order. -/
  | tables (items : List (List (Text × Value)))
  | table (origin : Origin) (entries : List (Text × Value))

/-- The entries of a table. -/
abbrev Entries := Table Value

end DocLint.Toml
