import DocLint.Settings.Basic
import DocLint.Toml.Document

/-!
# Reading settings

Settings are written as a TOML document with the tables `analyzer`, `rules` and `messages`. A key
that is not given keeps its default, a key that is not known is passed over, and a value of the
wrong kind makes the whole document unusable.

The settings of the analyzer and those of a rule may also be written as an array of their values,
in order; a severity may be written as a table whose only key is its name; a time may stand in the
place of a table.
-/

namespace DocLint.Settings

open Toml

/-- A text. -/
def text? : Value → Option Text
  | .string t => some t
  | _ => none

/-- A list of texts. -/
def texts? : Value → Option (List Text)
  | .array items => items.mapM text?
  | _ => none

/-- A number that is not negative. -/
def nat? : Value → Option Nat
  | .integer (.ofNat n) => some n
  | _ => none

/-- A truth value. -/
def bool? : Value → Option Bool
  | .boolean b => some b
  | _ => none

/-- A value without content. -/
def isVoid : Value → Bool
  | .array [] => true
  | .table _ [] => true
  | _ => false

/-- A severity. -/
def severity? : Value → Option Severity
  | .string t => Severity.ofName? t
  | .table _ [(name, v)] => if isVoid v then Severity.ofName? name else none
  | _ => none

/-- The key of a time that stands in the place of a table. -/
def timeKey : Text := "$__toml_private_datetime"

/-- The entries of a table. A time counts as a table whose only entry is its written form. -/
def entriesOf? : Value → Option Entries
  | .table _ es => some es
  | .time t => some [(timeKey, .string t.text)]
  | _ => none

/-- The fields of a record: the entries of a table, or the items of an array under the names of the
fields in order. -/
def record? (names : List Text) : Value → Option Entries
  | .array items => some (names.zip items)
  | .tables items => some (names.zip (items.map (.table .header ·)))
  | v => entriesOf? v

/-- A field, or its default if it is not given. -/
def field? {α : Type} (es : Entries) (name : Text) (read : Value → Option α) (default : α) :
    Option α :=
  match es.get? name with
  | none => some default
  | some v => read v

/-- The settings of a rule. -/
def ruleSetting? (v : Value) : Option RuleSetting := do
  let es ← record? ["enabled", "severity"] v
  let enabled ← field? es "enabled" (fun v => (bool? v).map some) none
  let severity ← field? es "severity" (fun v => (severity? v).map some) none
  some { enabled, severity }

/-- A table of values of one kind. -/
def tableOf? {α : Type} (read : Value → Option α) (v : Value) : Option (Table α) := do
  (← entriesOf? v).mapM fun (k, v) => (read v).map (k, ·)

/-- The settings of a document. -/
def ofEntries? (doc : Entries) : Option Settings := do
  let defaults : Settings := {}
  let es ← field? doc "analyzer" (record? ["root", "exclude", "extensions", "parallelism"]) []
  let root ← field? es "root" text? defaults.root
  let exclude ← field? es "exclude" texts? defaults.exclude
  let extensions ← field? es "extensions" texts? defaults.extensions
  let parallelism ← field? es "parallelism" (fun v => (nat? v).map some) none
  let rules ← field? doc "rules" (tableOf? ruleSetting?) []
  let messages ← field? doc "messages" (tableOf? text?) []
  some { root, exclude, extensions, parallelism, rules, messages }

/-- The settings written in a text, if it is a settings document. -/
def parse? (t : Text) : Option Settings := (Toml.parse? t).bind ofEntries?

end DocLint.Settings
