import DocLint.Report.Basic

/-!
# Reports as JSON

A report is written as JSON, two spaces for each level, the fields of a record in a fixed order.

* `Json.Value`, `Json.Value.render`.
* `Report.json`.
-/

namespace DocLint

open Text

namespace Json

/-- A JSON value. -/
inductive Value where
  | number (n : Nat)
  | text (t : Text)
  | list (vs : List Value)
  | record (fields : List (Text × Value))

/-- A hexadecimal digit in lower case. -/
def hexDigit (n : Nat) : Char := (Nat.toDigits 16 n).headD '0'

/-- A character inside quotes. -/
def escape (c : Char) : Text :=
  match c with
  | '"' => "\\\""
  | '\\' => "\\\\"
  | '\n' => "\\n"
  | '\r' => "\\r"
  | '\t' => "\\t"
  | '\x08' => "\\b"
  | '\x0c' => "\\f"
  | c => if c.toNat < 32 then "\\u00" ++ [hexDigit (c.toNat / 16), hexDigit (c.toNat % 16)] else [c]

/-- A text in quotes. -/
def quote (t : Text) : Text := '"' :: t.flatMap escape ++ ['"']

/-- Items between brackets, each on a line of its own at `depth + 1`. -/
def bracketed (depth : Nat) (opening closing : Char) (items : List Text) : Text :=
  if items.isEmpty then [opening, closing]
  else
    let indent (n : Nat) : Text := List.replicate (2 * n) ' '
    opening :: '\n' :: Text.join ",\n" (items.map (indent (depth + 1) ++ ·)) ++
      '\n' :: indent depth ++ [closing]

mutual

/-- The text of a value whose first line stands at `depth`. -/
def Value.render (depth : Nat) : Value → Text
  | .number n => ofNat n
  | .text t => quote t
  | .list vs => bracketed depth '[' ']' (renderItems (depth + 1) vs)
  | .record fs => bracketed depth '\x7b' '\x7d' (renderFields (depth + 1) fs)

/-- The texts of the items of a list. -/
def renderItems (depth : Nat) : List Value → List Text
  | [] => []
  | v :: vs => v.render depth :: renderItems depth vs

/-- The texts of the fields of a record. -/
def renderFields (depth : Nat) : List (Text × Value) → List Text
  | [] => []
  | f :: fs => renderField depth f :: renderFields depth fs

/-- The text of a field. -/
def renderField (depth : Nat) : Text × Value → Text
  | (k, v) => quote k ++ ": " ++ v.render depth

end

end Json

open Json (Value)

/-- A place as a record. -/
def Location.toJson (l : Location) : Value :=
  .record [("file", .text l.file), ("line", .number l.line), ("column", .number l.column),
    ("offset", .number l.offset), ("length", .number l.length)]

/-- A violation as a record. -/
def Violation.toJson (v : Violation) : Value :=
  .record [("code", .text v.code), ("rule", .text v.rule), ("severity", .text v.severity.name),
    ("location", v.location.toJson), ("message", .text v.message)]

/-- A path error as a record. -/
def PathError.toJson (e : PathError) : Value :=
  .record [("path", .text e.path), ("message", .text e.message)]

/-- A report as a record. -/
def Report.toJson (r : Report) : Value :=
  .record [("violations", .list (r.violations.map Violation.toJson)),
    ("files_checked", .number r.filesChecked), ("errors", .list (r.errors.map PathError.toJson))]

/-- The JSON text of a report. -/
def Report.json (r : Report) : Text := r.toJson.render 0

end DocLint
