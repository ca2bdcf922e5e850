import DocLint.Text.Blank

/-!
# Tags

A tag is an entry of a documentation block: a line that starts with `@` and the lines up to the
next such line. The first words of some tags are slots: `@param` has two, `@var`, `@return` and
`@throws` have one.

* `Tag.ofLine`: a tag from the text after its `@`.
* `Tag.extend`: a tag with its continuation lines.
-/

namespace DocLint

open Text

/-- An entry of a documentation block. -/
structure Tag where
  /-- The name, without the `@`. -/
  name : Text
  /-- The slots: the first words of the line, as many as the tag has. -/
  slots : List Text
  /-- The text after the slots. -/
  description : Text
  /-- The source line of the tag. -/
  line : Nat
  deriving DecidableEq, Repr

namespace Tag

/-- What stands in the type slot of a tag that gives a variable and no type. -/
def typePlaceholder : Text := "type"

/-- The number of slots of a tag. -/
def arity (name : Text) : Nat :=
  if name = "param".toList then 2
  else if name ∈ ["var".toList, "return".toList, "throws".toList] then 1
  else 0

/-- Tags whose first slot is a type that may be left out before a variable. -/
def isTyped (name : Text) : Bool :=
  name ∈ ["param".toList, "var".toList, "return".toList]

/-- The word names a variable, behind any number of `&` and `.`. -/
def isVariableWord (word : Text) : Bool :=
  (trimStartOf (fun c => c == '&' || c == '.') word).head? == some '$'

/-- At most `n` words from the front, and the text after them. -/
def takeWords : Nat → Text → List Text × Text
  | 0, t => ([], t)
  | n + 1, t =>
    if t.isEmpty then ([], t)
    else
      let (word, rest) := spanWord t
      let (ws, rest) := takeWords n (trimStart rest)
      (word :: ws, rest)

/-- The slots, with the placeholder in front of a variable that takes the place of a type. -/
def fillSlots (name : Text) (ws : List Text) : List Text :=
  if isTyped name && ws.head?.any isVariableWord then typePlaceholder :: ws else ws

/-- The tag on the line `@` followed by `t`. -/
def ofLine (line : Nat) (t : Text) : Tag :=
  let (name, rest) := spanWord t
  let (ws, rest) := takeWords (arity name) (trimStart rest)
  { name, slots := fillSlots name ws, description := trimEnd rest, line }

/-- The tag with the lines that continue its description. -/
def extend (tag : Tag) (more : List Text) : Tag :=
  { tag with description := join " " ((tag.description :: more).filter (!·.isEmpty)) }

/-- The tag says nothing after its name. -/
def isEmpty (tag : Tag) : Bool := tag.slots.isEmpty && tag.description.isEmpty

/-- The type slot holds the placeholder. -/
def hasPlaceholder (tag : Tag) : Bool := tag.slots.head? == some typePlaceholder

end Tag

end DocLint
