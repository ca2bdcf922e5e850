import DocLint.Tree.Basic

/-!
# Paths on a disk

A disk is a directory tree with a working directory. A path is followed name by name, from the
root of the tree or from the working directory. Names and paths are limited in length.

* `Disk.resolve`: the names, from the root, that a path leads to, or why it leads nowhere.
* `Disk.isFile`, `Disk.isDir`, `Disk.read`, `Disk.write`.
-/

namespace DocLint

open Text

/-- Why a path cannot be used. -/
inductive AccessError where
  | missing
  | notDirectory
  | isDirectory
  /-- A name or the whole path is too long. -/
  | tooLong
  /-- The path has a null character in it. -/
  | nullInPath
  /-- The bytes are no UTF-8. -/
  | notText
  deriving DecidableEq, Repr

/-- The wording of an error. -/
def AccessError.message : AccessError → Text
  | missing => "No such file or directory (os error 2)"
  | notDirectory => "Not a directory (os error 20)"
  | isDirectory => "Is a directory (os error 21)"
  | tooLong => "File name too long (os error 36)"
  | nullInPath => "file name contained an unexpected NUL byte"
  | notText => "stream did not contain valid UTF-8"

/-- A directory tree and the names that lead to the working directory. -/
structure Disk where
  tree : Tree := .empty
  cwd : List Text := []

namespace Disk

/-- The greatest number of bytes in a name. -/
def nameLimit : Nat := 255

/-- The greatest number of bytes in a path. -/
def pathLimit : Nat := 4095

/-- Follows one part of a path from the directory that `here` leads to. An empty part and `.` stay
there, but it has to be a directory. -/
def follow (t : Tree) (here : List Text) (part : Text) : Except AccessError (List Text) :=
  match t.get? here with
  | none => .error .missing
  | some (.file _) => .error .notDirectory
  | some (.dir _) =>
    if Path.isIdle part then .ok here
    else if part = ['.', '.'] then .ok here.dropLast
    else if nameLimit < utf8Length part then .error .tooLong
    else if (t.get? (here ++ [part])).isSome then .ok (here ++ [part])
    else .error .missing

/-- The names that a path leads to. -/
def resolve (d : Disk) (p : Text) : Except AccessError (List Text) :=
  if '\x00' ∈ p then .error .nullInPath
  else if p.isEmpty then .error .missing
  else if pathLimit < utf8Length p then .error .tooLong
  else (splitOn '/' p).foldlM (follow d.tree) (if Path.isAbsolute p then [] else d.cwd)

/-- The tree that a path leads to. -/
def find (d : Disk) (p : Text) : Except AccessError Tree := do
  match d.tree.get? (← d.resolve p) with
  | some t => return t
  | none => throw .missing

/-- The path leads to a file. -/
def isFile (d : Disk) (p : Text) : Bool := (d.find p).toOption.any Tree.isFile

/-- The path leads to a directory. -/
def isDir (d : Disk) (p : Text) : Bool := (d.find p).toOption.any Tree.isDir

/-- The content of the file that a path leads to. -/
def read (d : Disk) (p : Text) : Except AccessError Bytes := do
  match ← d.find p with
  | .file b => return b
  | .dir _ => throw .isDirectory

/-- The text of the file that a path leads to. -/
def readText (d : Disk) (p : Text) : Except AccessError Text := do
  match Utf8.decode? (← d.read p) with
  | some t => return t
  | none => throw .notText

/-- The entry of the working directory with a name. -/
def here? (d : Disk) (name : Text) : Option Tree := d.tree.get? (d.cwd ++ [name])

/-- Writes a file in the working directory. -/
def write (d : Disk) (name : Text) (content : Bytes) : Except AccessError Disk :=
  if (d.here? name).any Tree.isDir then .error .isDirectory
  else .ok { d with tree := d.tree.insert (.file content) (d.cwd ++ [name]) }

/-- The path from the root that leads along the names. -/
def absolute (names : List Text) : Text := '/' :: Text.join ['/'] names

end Disk

end DocLint
