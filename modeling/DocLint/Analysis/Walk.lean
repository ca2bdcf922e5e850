import DocLint.Exclude
import DocLint.Tree.Disk

/-!
# Walks

A walk visits every file below a directory, in the order of names, without the directories that
are left out. A sieve decides what is left out and which extensions count. A directory whose path is
too long cannot be opened, and the walk goes on without it.

* `Sieve.walk`: what a walk sees.
-/

namespace DocLint

/-- Which files below a directory are checked. -/
structure Sieve where
  excludes : List Exclude := []
  /-- Extensions that count; the case of ASCII letters does not matter. -/
  extensions : List Text := []
  deriving DecidableEq, Repr

/-- What a walk meets: a file with an extension that counts, or a directory that it cannot open. -/
inductive Sighting where
  | found (path : Text)
  | excluded (path : Text)
  | unopened (path : Text) (cause : AccessError)
  deriving DecidableEq, Repr

/-- The path of a file that is not left out. -/
def Sighting.found? : Sighting → Option Text
  | found p => some p
  | excluded _ | unopened _ _ => none

namespace Sieve

/-- The path is left out; `below` are its names below the root of the walk. -/
def leavesOut (s : Sieve) (path : Text) (below : List Text) (isDir : Bool) : Bool :=
  s.excludes.any fun x => x.covers path below isDir

/-- The name has an extension that counts. -/
def hasExtension (s : Sieve) (name : Text) : Bool :=
  (Path.extension? name).any fun e => s.extensions.any (Text.sameLetters e)

/-- What is seen of a file. -/
def sight (s : Sieve) (path : Text) (below : List Text) : List Sighting :=
  if !below.getLast?.any s.hasExtension then []
  else if s.leavesOut path below false then [.excluded path]
  else [.found path]

mutual

/-- What is seen of a tree that lies below the root of the walk. -/
def visit (s : Sieve) (path : Text) (below : List Text) : Tree → List Sighting
  | .file _ => s.sight path below
  | .dir es =>
    if s.leavesOut path below true then []
    else if Disk.pathLimit < Text.utf8Length path then [.unopened path .tooLong]
    else visitEntries s path below es

/-- What is seen of the entries of a directory. -/
def visitEntries (s : Sieve) (path : Text) (below : List Text) : List (Text × Tree) → List Sighting
  | [] => []
  | e :: es => visitEntry s path below e ++ visitEntries s path below es

/-- What is seen of one entry of a directory. -/
def visitEntry (s : Sieve) (path : Text) (below : List Text) : Text × Tree → List Sighting
  | (n, t) => visit s (Path.join path n) (below ++ [n]) t

end

theorem visitEntries_eq_flatMap (s : Sieve) (path : Text) (below : List Text)
    (es : List (Text × Tree)) :
    s.visitEntries path below es = es.flatMap (s.visitEntry path below) := by
  induction es with
  | nil => rfl
  | cons e es ih => rw [visitEntries, ih, List.flatMap_cons]

/-- What is seen below a directory, which is itself never left out. -/
def walk (s : Sieve) (root : Text) (t : Tree) : List Sighting := s.visitEntries root [] t.entries

end Sieve

end DocLint
