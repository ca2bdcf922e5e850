import DocLint.Settings.Read
import DocLint.Tree.Disk

/-!
# Where the settings come from

A settings file is looked for in this order: the file named on the command line; a project file in
the project directory or in the nearest directory above it that has one; the global file; none. In a
project file, a relative root is meant from the directory of the file.

* `Origin.locate`: finds the settings file.
* `Origin.load`: reads the settings.
-/

namespace DocLint.Command

open Text

/-- Where settings come from. -/
inductive Origin where
  | explicit (path : Text)
  | project (path : Text)
  | global (path : Text)
  | builtin
  deriving DecidableEq, Repr

/-- Why settings cannot be read. -/
inductive LoadError where
  | unreadable (path : Text) (cause : AccessError)
  | malformed (path : Text)
  deriving DecidableEq, Repr

/-- The names of a project file; the first that is there counts. -/
def projectNames : List Text := ["phpdoc-check.toml", ".phpdoc-check.toml"]

/-- The name of the global file. -/
def globalName : Text := "config.toml"

namespace Origin

/-- How an origin is shown. -/
def describe : Origin → Text
  | explicit p => p
  | project p => p ++ " (project)"
  | global p => p ++ " (global)"
  | builtin => "built-in defaults"

/-- The names of the directories above the one that `names` lead to, the nearest first. -/
def above (names : List Text) : List (List Text) :=
  (List.range names.length).reverse.map names.take

/-- The directories that may hold the project file: the project directory, then those above it. -/
def projectDirs (d : Disk) (dir : Text) : List Text :=
  dir :: match d.resolve dir with
    | .ok names => (above names).map Disk.absolute
    | .error _ => []

/-- The project file of a directory. -/
def projectFile? (d : Disk) (dir : Text) : Option Text :=
  (projectNames.map (Path.join dir)).find? d.isFile

/-- Finds the settings file for a project directory. -/
def locate (d : Disk) (dir : Text) (explicitPath globalDir : Option Text) : Origin :=
  match explicitPath with
  | some p => explicit p
  | none =>
    match (projectDirs d dir).findSome? (projectFile? d) with
    | some p => project p
    | none =>
      match (globalDir.map fun g => Path.join g globalName).filter d.isFile with
      | some p => global p
      | none => builtin

/-- A root, seen from the directory of a project file. -/
def anchor (dir root : Text) : Text :=
  if Path.isAbsolute root then root
  else if Path.same root ['.'] then dir
  else Path.join dir root

/-- Reads a settings file. -/
def readFile (d : Disk) (path : Text) : Except LoadError Settings :=
  match d.readText path with
  | .error e => .error (.unreadable path e)
  | .ok t =>
    match Settings.parse? t with
    | some s => .ok s
    | none => .error (.malformed path)

/-- Reads the settings. -/
def load (d : Disk) : Origin → Except LoadError Settings
  | builtin => .ok {}
  | explicit p | global p => readFile d p
  | project p => do
    let s ← readFile d p
    return { s with root := anchor (Path.parent p) s.root }

end Origin

end DocLint.Command
