import DocLint.Path
import DocLint.Text.Utf8

/-!
# Directory trees

A tree is a file or a directory of named trees. The entries of a directory are kept in the order of
their names, each name once.

* `Tree.get?`: the tree at a list of names.
* `Tree.insert`: puts a tree at a list of names, with the directories on the way to it.
* `Tree.files`: every file with the names that lead to it.

Main statement: `get?_insert_self`, what was put somewhere is found there.
-/

namespace DocLint

/-- A file or a directory. -/
inductive Tree where
  | file (content : Bytes)
  | dir (entries : List (Text × Tree))
  deriving Inhabited

namespace Tree

/-- The directory that holds nothing. -/
def empty : Tree := .dir []

/-- The entries of a directory; a file has none. -/
def entries : Tree → List (Text × Tree)
  | .file _ => []
  | .dir es => es

/-- The tree is a file. -/
def isFile : Tree → Bool
  | .file _ => true
  | .dir _ => false

/-- The tree is a directory. -/
def isDir : Tree → Bool
  | .file _ => false
  | .dir _ => true

/-- The entry of a directory with a name. -/
def child? (t : Tree) (name : Text) : Option Tree := (t.entries.find? (·.1 == name)).map (·.2)

/-- The tree that a list of names leads to. -/
def get? : Tree → List Text → Option Tree
  | t, [] => some t
  | t, n :: ns => (t.child? n).bind (·.get? ns)

/-- Puts an entry into a list of entries at its place in the order of names. -/
def putEntry (name : Text) (t : Tree) : List (Text × Tree) → List (Text × Tree)
  | [] => [(name, t)]
  | (n, u) :: es =>
    match compare (Text.orderKey name) (Text.orderKey n) with
    | .lt => (name, t) :: (n, u) :: es
    | .eq => (name, t) :: es
    | .gt => (n, u) :: putEntry name t es

/-- Puts `new` where the names lead; missing directories are made, and a file on the way becomes a
directory. -/
def insert (t : Tree) (new : Tree) : List Text → Tree
  | [] => new
  | n :: ns => .dir (putEntry n (insert ((t.child? n).getD empty) new ns) t.entries)

theorem find?_putEntry (name : Text) (t : Tree) (es : List (Text × Tree)) :
    (putEntry name t es).find? (·.1 == name) = some (name, t) := by
  induction es with
  | nil => simp [putEntry]
  | cons e es ih =>
    obtain ⟨n, u⟩ := e
    simp only [putEntry]
    split
    · simp
    · simp
    · next h =>
      have hn : n ≠ name := by
        rintro rfl
        simp [Std.ReflCmp.compare_self] at h
      rw [List.find?_cons_of_neg (by simpa using hn)]
      exact ih

theorem child?_dir_putEntry (name : Text) (t : Tree) (es : List (Text × Tree)) :
    (Tree.dir (putEntry name t es)).child? name = some t := by
  rw [child?, entries, find?_putEntry]
  rfl

/-- What was put somewhere is found there. -/
theorem get?_insert_self (t new : Tree) (names : List Text) :
    (t.insert new names).get? names = some new := by
  induction names generalizing t with
  | nil => rfl
  | cons n ns ih => rw [insert, get?, child?_dir_putEntry]; exact ih _

/-- Makes the directory where the names lead, if there is nothing. -/
def makeDir (t : Tree) (names : List Text) : Tree :=
  if (t.get? names).isSome then t else t.insert empty names

mutual

/-- Every file of a tree with the names that lead to it; none lead to the tree itself. -/
def files : Tree → List (List Text × Bytes)
  | .file b => [([], b)]
  | .dir es => filesOfEntries es

/-- The files of the trees in a list of entries. -/
def filesOfEntries : List (Text × Tree) → List (List Text × Bytes)
  | [] => []
  | e :: es => filesOfEntry e ++ filesOfEntries es

/-- The files of one entry. -/
def filesOfEntry : Text × Tree → List (List Text × Bytes)
  | (n, t) => (files t).map fun (ns, b) => (n :: ns, b)

end

theorem filesOfEntries_eq_flatMap (es : List (Text × Tree)) :
    filesOfEntries es = es.flatMap filesOfEntry := by
  induction es with
  | nil => rfl
  | cons e es ih => rw [filesOfEntries, ih, List.flatMap_cons]

end Tree

end DocLint
