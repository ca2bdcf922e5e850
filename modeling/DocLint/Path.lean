import DocLint.Text.Basic

/-!
# Paths

A path is a text; its parts are divided by slashes. Two paths are compared by their components,
in which repeated slashes, a slash at the end and a `.` that is not at the front do not count.

* `Path.components`, `Path.orderKey`, `Path.same`.
* `Path.join`, `Path.parent`, `Path.extension?`, `Path.isAbsolute`.
* `Path.distinct`: paths in order, each once.
-/

namespace DocLint

namespace Text

/-- The code points of a text. Texts are ordered by them, which is also the order of their UTF-8
bytes. -/
def orderKey (t : Text) : List Nat := t.map Char.toNat

end Text

/-- A component of a path. -/
inductive Component where
  | root
  | current
  | parent
  | name (t : Text)
  deriving DecidableEq, Repr

namespace Component

/-- Components are ordered by kind, names among themselves by code points. -/
def orderKey : Component → List Nat
  | root => [0]
  | current => [1]
  | parent => [2]
  | name t => 3 :: Text.orderKey t

end Component

namespace Path

open Text

/-- The path starts at the root. -/
def isAbsolute (p : Text) : Bool := p.head? == some '/'

/-- The component of a part between slashes. A `.` counts at the front of a relative path only. -/
def component? (atFront : Bool) (part : Text) : Option Component :=
  if part.isEmpty then none
  else if part = ['.'] then if atFront then some .current else none
  else if part = ['.', '.'] then some .parent
  else some (.name part)

/-- The components of a path. -/
def components (p : Text) : List Component :=
  match splitOn '/' p with
  | [] => []
  | first :: rest =>
    (if isAbsolute p then [.root] else (component? true first).toList) ++
      rest.filterMap (component? false)

/-- Paths are ordered by their components. -/
def orderKey (p : Text) : List (List Nat) := (components p).map Component.orderKey

/-- Two texts are the same path. -/
def same (p q : Text) : Bool := components p == components q

/-- `q` seen from the directory `p`. -/
def join (p q : Text) : Text :=
  if isAbsolute q then q
  else if p.isEmpty || p.getLast? == some '/' then p ++ q
  else p ++ '/' :: q

/-- A part that does not count at the end of a path. -/
def isIdle (part : Text) : Bool := part.isEmpty || part == ['.']

/-- Without the parts at the end that do not count; the first part of a path always counts. -/
def trimParts (parts : List Text) : List Text :=
  match parts with
  | [] => []
  | first :: rest => first :: (rest.reverse.dropWhile isIdle).reverse

/-- The directory of a path that ends in a name. -/
def parent (p : Text) : Text :=
  match trimParts (trimParts (splitOn '/' p)).dropLast with
  | [[]] => if isAbsolute p then ['/'] else []
  | parts => Text.join ['/'] parts

/-- What follows the last full stop of a file name that has something before it. -/
def extension? (name : Text) : Option Text :=
  let (back, rest) := name.reverse.span (· != '.')
  match rest with
  | [] => none
  | _ :: stem => if stem.isEmpty then none else some back.reverse

/-- The first of each run of texts that are the same path; `p` stands before the texts. -/
def firstsOfRuns (p : Text) : List Text → List Text
  | [] => [p]
  | q :: ps => if same p q then firstsOfRuns p ps else p :: firstsOfRuns q ps

/-- The paths in order, each in the spelling that comes first. -/
def distinct (ps : List Text) : List Text :=
  match ps.mergeSort fun p q => (compare (orderKey p) (orderKey q)).isLE with
  | [] => []
  | p :: ps => firstsOfRuns p ps

end Path

end DocLint
