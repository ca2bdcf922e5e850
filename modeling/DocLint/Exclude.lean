import DocLint.Glob
import DocLint.Path

/-!
# Excludes

A pattern of what a walk leaves out. A bare name, also written between `**/` and `/**`, leaves out
every directory of that name below the root of the walk; any other pattern is a glob for the whole
path.

* `Exclude.parse`: reads a pattern.
* `Exclude.covers`: the pattern leaves out a path.
-/

namespace DocLint

open Text

/-- What a walk leaves out. -/
inductive Exclude where
  /-- Directories of this name below the root. -/
  | name (name : Text)
  /-- Paths that match the glob. -/
  | glob (g : Glob)
  deriving DecidableEq, Repr

/-- The wording of an error in an exclude pattern. -/
def Glob.Error.excludeMessage (e : Glob.Error) : Text := "Invalid glob pattern: " ++ e.message

namespace Exclude

/-- A character that a bare name does not have. -/
def isSpecial (c : Char) : Bool := ['*', '?', '[', ']', '/', '\\'].contains c

/-- The bare name that a pattern stands for. -/
def bareName? (pattern : Text) : Option Text :=
  let trimmed := trimEndOf (· == '/') pattern
  let name := (dropPrefix? "**/" trimmed).getD trimmed
  let name := (dropSuffix? "/**" name).getD name
  if name.isEmpty || name.any isSpecial then none else some name

/-- Reads a pattern. -/
def parse (pattern : Text) : Except Glob.Error Exclude :=
  match bareName? pattern with
  | some n => .ok (.name n)
  | none => (Glob.parse pattern).map .glob

/-- The pattern leaves out the path, of which `below` are the names below the root. Of a file, the
last name is not that of a directory; a directory also matches with a slash after it. -/
def covers (x : Exclude) (path : Text) (below : List Text) (isDir : Bool) : Bool :=
  match x with
  | .name n => (if isDir then below else below.dropLast).contains n
  | .glob g => g.accepts path || (isDir && g.accepts (Path.join path []))

end Exclude

end DocLint
