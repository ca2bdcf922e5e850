import DocLint.DocBlock.Content
import DocLint.DocBlock.Tag
import DocLint.Text.Search
import DocLint.Token.Basic

/-!
# Documentation blocks

A documentation block has a description and tags. The content lines before the first tag line are
the description; its first paragraph is the short description and the others the long one. Every
tag line starts a tag, and the lines after it up to the next tag line continue it.

* `DocBlock.ofToken`: the block that a comment token holds.
* `DocBlock.description`, `DocBlock.tagsNamed`, `DocBlock.lineOf`.
-/

namespace DocLint

open Text

/-- A comment read as documentation. -/
structure DocBlock where
  /-- The comment as it stands in the source. -/
  raw : Text
  /-- The first paragraph of the description. -/
  short : Text
  /-- The other paragraphs of the description. -/
  long : Text
  /-- The tags, in source order. -/
  tags : List Tag
  /-- Opened with an extra mark, `/***` or `///`. -/
  isInline : Bool
  /-- Line of the opening mark. -/
  line : Nat
  /-- Index of the comment among the tokens of its file. -/
  tokenIndex : Nat
  deriving DecidableEq, Repr

namespace DocBlock

/-- The content line starts a tag. -/
def isTagLine (l : Text) : Bool := l.head? == some '@'

/-- The content lines of the description. -/
def descriptionLines (content : List Text) : List Text := content.takeWhile (!isTagLine ·)

/-- The tags of the content lines, the first of them on the source line `n`. -/
def readTags : Nat → List Text → List Tag
  | _, [] => []
  | n, l :: ls =>
    if isTagLine l then
      (Tag.ofLine n (l.drop 1)).extend (ls.takeWhile (!isTagLine ·)) :: readTags (n + 1) ls
    else readTags (n + 1) ls

/-- The paragraphs of the description, the lines of each put together. -/
def descriptionParagraphs (content : List Text) : List Text :=
  (paragraphs (descriptionLines content)).map (join "\n")

/-- The comment `raw` read as documentation; `isInline` and the places are given. -/
def read (raw : Text) (isInline : Bool) (line tokenIndex : Nat) : DocBlock :=
  let content := contentLines raw
  let ps := descriptionParagraphs content
  { raw, short := ps.headD [], long := join "\n\n" ps.tail, tags := readTags line content,
    isInline, line, tokenIndex }

/-- The mark that makes a comment of its kind inline. -/
def inlineMark : Kind → Text
  | .docComment => "/***"
  | _ => "///"

/-- The documentation in the comment token at `index`. -/
def ofToken (t : Token) (index : Nat) : DocBlock :=
  read t.text (startsWith (inlineMark t.kind) t.text) t.line index

/-- Short and long description, an empty line between them. -/
def description (d : DocBlock) : Text :=
  if d.long.isEmpty then d.short else d.short ++ ['\n', '\n'] ++ d.long

/-- The tags of a name. -/
def tagsNamed (d : DocBlock) (name : Text) : List Tag := d.tags.filter (·.name == name)

/-- The tags of a name that say something. -/
def filledTags (d : DocBlock) (name : Text) : List Tag := (d.tagsNamed name).filter (!·.isEmpty)

/-- The slots of the tags of a name. -/
def slotsNamed (d : DocBlock) (name : Text) : List (List Text) := (d.tagsNamed name).map (·.slots)

/-- The line of the first source line of the block that holds `mark`; the line of the block if
there is none. -/
def lineOf (d : DocBlock) (mark : Text) : Nat :=
  d.line + ((lines d.raw).findIdx? (contains mark ·)).getD 0

end DocBlock

end DocLint
