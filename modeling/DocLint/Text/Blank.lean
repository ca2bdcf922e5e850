import DocLint.Text.Class

/-!
# Blanks

A blank is a character with the Unicode property White_Space. Blanks separate words and are cut
at both ends of a line.

* `isBlank`, `trimStart`, `trimEnd`, `trim`.
* `words`: the longest runs of other characters, in order.
-/

namespace DocLint.Text

/-- White_Space outside ASCII. -/
def blankRanges : List CodeRange :=
  [(0x85, 0x85), (0xA0, 0xA0), (0x1680, 0x1680), (0x2000, 0x200A), (0x2028, 0x2029),
   (0x202F, 0x202F), (0x205F, 0x205F), (0x3000, 0x3000)]

/-- Space, tab, line feed, vertical tab, form feed and carriage return. -/
def isAsciiBlank (c : Char) : Bool :=
  c == ' ' || (decide (9 ≤ c.toNat) && decide (c.toNat ≤ 13))

/-- The character separates words. -/
def isBlank (c : Char) : Bool := inClass isAsciiBlank blankRanges c

/-- Without leading blanks. -/
def trimStart (t : Text) : Text := trimStartOf isBlank t

/-- Without trailing blanks. -/
def trimEnd (t : Text) : Text := trimEndOf isBlank t

/-- Without blanks at both ends. -/
def trim (t : Text) : Text := trimOf isBlank t

/-- The first word of a text that does not start with a blank, and what follows it. -/
def spanWord (t : Text) : Text × Text := t.span fun c => !isBlank c

/-- Reads words; `w` is the part of a word read so far. -/
def wordsFrom (w : Text) : Text → List Text
  | [] => if w.isEmpty then [] else [w]
  | c :: t =>
    if isBlank c then if w.isEmpty then wordsFrom [] t else w :: wordsFrom [] t
    else wordsFrom (w ++ [c]) t

/-- The words of a text. -/
def words (t : Text) : List Text := wordsFrom [] t

end DocLint.Text
