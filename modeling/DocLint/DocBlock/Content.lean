import DocLint.Text.Blank
import DocLint.Text.Line

/-!
# The content of a comment

A comment is read line by line, without the marks that make it a comment. On the first line the
slashes and the stars in front go, on the last line one `*/` at the end, on every other line the
stars in front; blanks go at both ends. A comment of one line has a first line that is also the
last.

* `contentLines`: one entry for each line of the comment.
* `paragraphs`: lines grouped between empty ones.
-/

namespace DocLint.DocBlock

open Text

/-- A line of a comment without its marks. -/
def contentLine (isFirst isLast : Bool) (line : Text) : Text :=
  let dropStars := trimStartOf (· == '*')
  let t := trim line
  let t := if isFirst then dropStars (trimStartOf (· == '/') t) else t
  let t := if isLast then (dropSuffix? "*/" t).getD t else t
  let t := if isFirst then t else dropStars t
  trim t

/-- The lines of a comment without their marks. -/
def contentLines (raw : Text) : List Text :=
  let ls := lines raw
  ls.zipIdx.map fun (l, i) => contentLine (i == 0) (i + 1 == ls.length) l

/-- Lines cut at empty ones; two empty lines in a row have an empty group between them. -/
def groups : List Text → List (List Text)
  | [] => [[]]
  | l :: ls =>
    if l.isEmpty then [] :: groups ls
    else match groups ls with
      | [] => [[l]]
      | g :: gs => (l :: g) :: gs

/-- The lines between empty ones. -/
def paragraphs (ls : List Text) : List (List Text) := (groups ls).filter (!·.isEmpty)

/-- The lines grouped in paragraphs are the lines that are not empty, in order. -/
theorem flatten_paragraphs (ls : List Text) :
    (paragraphs ls).flatten = ls.filter (!·.isEmpty) := by
  have drop : ∀ gs : List (List Text), (gs.filter (!·.isEmpty)).flatten = gs.flatten := by
    intro gs
    induction gs with
    | nil => rfl
    | cons g gs ih => cases g <;> simp [ih]
  rw [paragraphs, drop]
  induction ls with
  | nil => rfl
  | cons l ls ih =>
    simp only [groups]
    split
    · next h => simp [h, ih]
    · next h =>
      split
      · next hg =>
        rw [hg] at ih
        simpa [h] using ih
      · next hg =>
        rw [hg] at ih
        simp only [List.flatten_cons] at ih
        simp [h, ← ih]

end DocLint.DocBlock
