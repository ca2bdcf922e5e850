import DocLint.Text.Letter
import DocLint.Text.Numeral

/-!
# Word characters

Names in a source start with an underscore or a letter and go on with underscores, letters and
numerals.
-/

namespace DocLint.Text

/-- May start a name. -/
def isWordStart (c : Char) : Bool := c == '_' || isLetter c

/-- May go on in a name. -/
def isWordChar (c : Char) : Bool := c == '_' || (isLetter c || isNumeral c)

theorem isWordChar_of_isWordStart {c : Char} (h : isWordStart c = true) : isWordChar c = true := by
  simp only [isWordStart, Bool.or_eq_true] at h
  simp only [isWordChar, Bool.or_eq_true]
  exact h.imp_right Or.inl

/-- The number of word characters at the front. -/
def wordLength (t : Text) : Nat := (t.takeWhile isWordChar).length

end DocLint.Text
