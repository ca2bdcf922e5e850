import DocLint.Toml.Scalar

/-!
# Reading TOML

Keys, values and the lines of a document. Readers answer with what they read and the text after
it, and with nothing if the text is not well formed.

* `key`: a key, dotted or not.
* `value`: a value; `fuel` bounds the steps and `depth` counts the arrays and tables around it.
* `statements`: the lines of a document, without blank lines and comments.
-/

namespace DocLint.Toml

open Text

/-- Arrays, tables and dotted keys are refused from this depth on. -/
def depthLimit : Nat := 80

/-- A comment at the front goes, up to its line break. -/
def skipComment : Text → Text
  | '#' :: t => t.dropWhile isPlain
  | t => t

/-- The rest of a line goes: blanks, a comment and the line break. -/
def lineEnd? (t : Text) : Option Text :=
  match skipComment (skipBlanks t) with
  | [] => some []
  | rest => newline? rest

/-- A character of a key without quotes. -/
def isBareKeyChar (c : Char) : Bool := c.isAlphanum || c == '_' || c == '-'

/-- A part of a key. -/
def keyPart (t : Text) : Option (Text × Text) :=
  match t with
  | '"' :: t => basic t.length t
  | '\'' :: t => literal t
  | t =>
    let (part, rest) := t.span isBareKeyChar
    if part.isEmpty then none else some (part, rest)

/-- The parts of a key, blanks allowed around each. -/
def keyParts : Nat → Text → Option (List Text × Text)
  | 0, _ => none
  | fuel + 1, t => do
    let (part, t) ← keyPart (skipBlanks t)
    match skipBlanks t with
    | '.' :: t =>
      let (parts, t) ← keyParts fuel t
      some (part :: parts, t)
    | t => some ([part], t)

/-- A key. -/
def key (t : Text) : Option (List Text × Text) := do
  let (parts, t) ← keyParts (t.length + 1) t
  if parts.length < depthLimit then some (parts, t) else none

/-- Adds to the table along a path, and changes the table at its end by `f`. Tables on the way are
made where there are none; `dotted` says that the path comes from a dotted key. A path does not go
through tables in braces, and a dotted key does not go through a table with a header of its own. -/
def modifyAt (dotted : Bool) (f : Origin → Entries → Option (Origin × Entries)) :
    List Text → Origin → Entries → Option (Origin × Entries)
  | [], origin, es => f origin es
  | k :: ks, origin, es =>
    match es.get? k with
    | none => do
      let (o, child) ← modifyAt dotted f ks (if dotted then .dotted else .implied) []
      some (origin, es.set k (.table o child))
    | some (.table o child) =>
      if o = .inline ∨ (dotted ∧ o = .header) then none
      else do
        let (o, child) ← modifyAt dotted f ks o child
        some (origin, es.set k (.table o child))
    | some (.tables items) => do
      let last ← items.getLast?
      let (_, child) ← modifyAt dotted f ks .header last
      some (origin, es.set k (.tables (items.dropLast ++ [child])))
    | some _ => none

/-- Sets a key, dotted or not, that has no value yet. A dotted key ends in a table that only dotted
keys have named. -/
def setKey (path : List Text) (v : Value) (origin : Origin) (es : Entries) :
    Option (Origin × Entries) := do
  let last ← path.getLast?
  let way := path.dropLast
  modifyAt true (fun o es =>
    if (o == .dotted) == way.isEmpty || (es.get? last).isSome then none
    else some (o, es.set last v)) way origin es

/-- The entries of a table in braces: a dotted key goes only through tables that dotted keys have
named. -/
def inlineEntries (pairs : List (List Text × Value)) : Option Entries :=
  (pairs.foldlM (fun (es : Entries) (path, v) => (setKey path v .header es).map (·.2)) [])

/-- Blanks, line breaks and comments at the front go. -/
def skipLines : Nat → Text → Text
  | 0, t => t
  | fuel + 1, t =>
    match skipSpace t with
    | '#' :: t => skipLines fuel (t.dropWhile isPlain)
    | t => t

mutual

/-- A value at the front. -/
def value : Nat → Nat → Text → Option (Value × Text)
  | 0, _, _ => none
  | fuel + 1, depth, t =>
    match t with
    | '"' :: _ => (quoted t).map fun (s, t) => (.string s, t)
    | '\'' :: _ => (quoted t).map fun (s, t) => (.string s, t)
    | '[' :: t =>
      if depth + 1 < depthLimit then
        (arrayItems fuel (depth + 1) t).map fun (vs, t) => (.array vs, t)
      else none
    | '{' :: t =>
      if depth + 1 < depthLimit then
        match skipBlanks t with
        | '}' :: t => some (.table .inline [], t)
        | t => do
          let (pairs, t) ← inlinePairs fuel (depth + 1) t
          let es ← inlineEntries pairs
          some (.table .inline es, t)
      else none
    | t => scalar t

/-- The items of an array, up to its closing bracket. -/
def arrayItems : Nat → Nat → Text → Option (List Value × Text)
  | 0, _, _ => none
  | fuel + 1, depth, t =>
    match skipLines t.length t with
    | ']' :: t => some ([], t)
    | t => do
      let (v, t) ← value fuel depth t
      match skipLines t.length t with
      | ',' :: t =>
        let (vs, t) ← arrayItems fuel depth t
        some (v :: vs, t)
      | ']' :: t => some ([v], t)
      | _ => none

/-- The pairs of a table in braces, up to its closing brace. -/
def inlinePairs : Nat → Nat → Text → Option (List (List Text × Value) × Text)
  | 0, _, _ => none
  | fuel + 1, depth, t => do
    let (path, t) ← key t
    let t ← char? '=' t
    let (v, t) ← value fuel depth (skipBlanks t)
    match skipBlanks t with
    | ',' :: t =>
      let (pairs, t) ← inlinePairs fuel depth t
      some ((path, v) :: pairs, t)
    | '}' :: t => some ([(path, v)], t)
    | _ => none

end

/-- A line of a document. -/
inductive Statement where
  /-- A key and its value. -/
  | pair (path : List Text) (v : Value)
  /-- A header in brackets. -/
  | header (path : List Text)
  /-- A header in double brackets. -/
  | arrayHeader (path : List Text)

/-- A statement at the front, with the rest of its line. -/
def statement (t : Text) : Option (Statement × Text) :=
  match t with
  | '[' :: '[' :: t => do
    let (path, t) ← key t
    let t ← dropPrefix? "]]" t
    let t ← lineEnd? t
    some (.arrayHeader path, t)
  | '[' :: t => do
    let (path, t) ← key t
    let t ← char? ']' t
    let t ← lineEnd? t
    some (.header path, t)
  | t => do
    let (path, t) ← key t
    let t ← char? '=' t
    let (v, t) ← value (2 * t.length + 2) 0 (skipBlanks t)
    let t ← lineEnd? t
    some (.pair path v, t)

/-- The statements of a document; `fuel` bounds the number of lines. -/
def statementsWith : Nat → Text → Option (List Statement)
  | 0, t => if t.isEmpty then some [] else none
  | fuel + 1, t =>
    match skipBlanks t with
    | [] => some []
    | '#' :: t => (lineEnd? ('#' :: t)).bind (statementsWith fuel)
    | c :: t =>
      match newline? (c :: t) with
      | some t => statementsWith fuel t
      | none => do
        let (s, t) ← statement (c :: t)
        let ss ← statementsWith fuel t
        some (s :: ss)

/-- The statements of a document. A byte order mark at the front is passed over. -/
def statements (t : Text) : Option (List Statement) :=
  let t := (dropPrefix? ['\uFEFF'] t).getD t
  statementsWith (t.length + 1) t

end DocLint.Toml
