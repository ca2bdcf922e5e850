import DocLint.Toml.Reader

/-!
# TOML documents

A document is put together statement by statement. A header opens a table that has not been
opened before, and the keys after it go into that table.

* `Document.step`: one statement.
* `parse?`: the entries of a document.
-/

namespace DocLint.Toml

/-- A document in the making: its entries and the table that keys go into. -/
structure Document where
  entries : Entries := []
  current : List Text := []

namespace Document

/-- Opens the table at a path: it may have been named before, but not opened. -/
def openTable (d : Document) (path : List Text) : Option Document := do
  let last ← path.getLast?
  let (_, es) ← modifyAt false (fun o es =>
    match es.get? last with
    | none => some (o, es.set last (.table .header []))
    | some (.table .implied child) => some (o, es.set last (.table .header child))
    | some _ => none) path.dropLast .header d.entries
  some ⟨es, path⟩

/-- Opens one more table of the array at a path. -/
def openArrayTable (d : Document) (path : List Text) : Option Document := do
  let last ← path.getLast?
  let (_, es) ← modifyAt false (fun o es =>
    match es.get? last with
    | none => some (o, es.set last (.tables [[]]))
    | some (.tables items) => some (o, es.set last (.tables (items ++ [[]])))
    | some _ => none) path.dropLast .header d.entries
  some ⟨es, path⟩

/-- Sets a key of the current table. -/
def setPair (d : Document) (path : List Text) (v : Value) : Option Document := do
  let (_, es) ← modifyAt false (setKey path v) d.current .header d.entries
  some { d with entries := es }

/-- Takes one statement. -/
def step (d : Document) : Statement → Option Document
  | .pair path v => d.setPair path v
  | .header path => d.openTable path
  | .arrayHeader path => d.openArrayTable path

end Document

/-- The entries of a document, if it is well formed. -/
def parse? (t : Text) : Option Entries := do
  let d ← (← statements t).foldlM Document.step {}
  some d.entries

end DocLint.Toml
