import DocLint.Text.Basic

/-!
# Lines

A line feed ends a line. `Text.pieces` cuts a text after each line feed and loses nothing;
`Text.lines` gives the same pieces without the line feed and without one carriage return
before it.

Main statement: `flatten_pieces`, the pieces put together are the text.
-/

namespace DocLint.Text

/-- The text cut after each line feed. -/
def pieces : Text → List Text
  | [] => []
  | c :: t =>
    if c = '\n' then [c] :: pieces t
    else match pieces t with
      | [] => [[c]]
      | p :: ps => (c :: p) :: ps

@[simp]
theorem flatten_pieces (t : Text) : (pieces t).flatten = t := by
  induction t with
  | nil => rfl
  | cons c t ih =>
    simp only [pieces]
    split
    · simp [ih]
    · split
      · next h => rw [h] at ih; simp at ih; simp [← ih]
      · next h => rw [h] at ih; simp at ih; simp [← ih]

/-- A piece without its line feed and one carriage return before it. -/
def chomp (p : Text) : Text :=
  match dropSuffix? ['\n'] p with
  | none => p
  | some q => (dropSuffix? ['\r'] q).getD q

/-- The lines of a text; what follows the last line feed is a line only if it is not empty. -/
def lines (t : Text) : List Text := (pieces t).map chomp

/-- The number of line feeds. -/
def breaks (t : Text) : Nat := t.count '\n'

end DocLint.Text
