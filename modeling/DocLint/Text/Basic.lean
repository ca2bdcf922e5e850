/-!
# Texts

A text is a list of characters. Everything the checker reads or writes is a text: sources,
names, messages, paths. String literals stand for their characters.

* `Text.utf8Length`: the number of bytes a text takes in UTF-8; source offsets are counted in it.
* `Text.lower`: ASCII letters in lower case, every other character as it is.
* `Text.dropPrefix?`, `Text.dropSuffix?`: what is left after a fixed beginning or end.
* `Text.trimStartOf`, `Text.trimEndOf`, `Text.trimOf`: cut the characters of a class at one end
  or both.
* `Text.join`, `Text.splitOn`: texts with a separator between them, and the parts between the
  separators.

Main statements: `utf8Length_append`, `dropPrefix?_eq_some_iff`, `dropSuffix?_eq_some_iff`,
`join_splitOn`.
-/

namespace DocLint

/-- A text is its list of characters. -/
abbrev Text := List Char

instance : Coe String Text := ⟨String.toList⟩

namespace Text

/-- Bytes of the UTF-8 form of a text. -/
def utf8Length : Text → Nat
  | [] => 0
  | c :: t => c.utf8Size + utf8Length t

@[simp]
theorem utf8Length_nil : utf8Length [] = 0 := rfl

@[simp]
theorem utf8Length_cons (c : Char) (t : Text) :
    utf8Length (c :: t) = c.utf8Size + utf8Length t := rfl

@[simp]
theorem utf8Length_append (s t : Text) : utf8Length (s ++ t) = utf8Length s + utf8Length t := by
  induction s with
  | nil => simp
  | cons c s ih => rw [List.cons_append, utf8Length_cons, utf8Length_cons, ih, Nat.add_assoc]

/-- ASCII letters in lower case; other characters stay. -/
def lower (t : Text) : Text := t.map Char.toLower

/-- Equal up to the case of ASCII letters. -/
def sameLetters (s t : Text) : Bool := lower s == lower t

/-- What follows `p` in `t`, if `t` starts with `p`. -/
def dropPrefix? : (p t : Text) → Option Text
  | [], t => some t
  | _ :: _, [] => none
  | a :: p, b :: t => if a = b then dropPrefix? p t else none

theorem dropPrefix?_eq_some_iff {p t r : Text} : dropPrefix? p t = some r ↔ t = p ++ r := by
  induction p generalizing t with
  | nil => simp [dropPrefix?, eq_comm]
  | cons a p ih =>
    cases t with
    | nil => simp [dropPrefix?]
    | cons b t =>
      by_cases h : a = b
      · simp [dropPrefix?, h, ih]
      · simp [dropPrefix?, h, Ne.symm h]

/-- The text starts with `p`. -/
def startsWith (p t : Text) : Bool := (dropPrefix? p t).isSome

theorem startsWith_iff {p t : Text} : startsWith p t = true ↔ p <+: t := by
  simp only [startsWith, Option.isSome_iff_exists, dropPrefix?_eq_some_iff]
  exact ⟨fun ⟨r, h⟩ => ⟨r, h.symm⟩, fun ⟨r, h⟩ => ⟨r, h.symm⟩⟩

/-- What precedes `s` in `t`, if `t` ends with `s`. -/
def dropSuffix? (s t : Text) : Option Text := (dropPrefix? s.reverse t.reverse).map List.reverse

theorem dropSuffix?_eq_some_iff {s t r : Text} : dropSuffix? s t = some r ↔ t = r ++ s := by
  simp only [dropSuffix?, Option.map_eq_some_iff, dropPrefix?_eq_some_iff]
  constructor
  · rintro ⟨a, h, rfl⟩
    have := congrArg List.reverse h
    simpa using this
  · rintro rfl
    exact ⟨r.reverse, by simp, by simp⟩

/-- The text ends with `s`. -/
def endsWith (s t : Text) : Bool := (dropSuffix? s t).isSome

/-- Without the leading characters of the class `p`. -/
def trimStartOf (p : Char → Bool) (t : Text) : Text := t.dropWhile p

/-- Without the trailing characters of the class `p`. -/
def trimEndOf (p : Char → Bool) (t : Text) : Text := (t.reverse.dropWhile p).reverse

/-- Without the characters of the class `p` at both ends. -/
def trimOf (p : Char → Bool) (t : Text) : Text := trimEndOf p (trimStartOf p t)

/-- The texts one after another, `sep` between two of them. -/
def join (sep : Text) : List Text → Text
  | [] => []
  | [t] => t
  | t :: ts => t ++ sep ++ join sep ts

/-- The parts of a text between the occurrences of `sep`. -/
def splitOn (sep : Char) : Text → List Text
  | [] => [[]]
  | c :: t =>
    if c = sep then [] :: splitOn sep t
    else match splitOn sep t with
      | [] => [[c]]
      | p :: ps => (c :: p) :: ps

theorem splitOn_ne_nil (sep : Char) (t : Text) : splitOn sep t ≠ [] := by
  cases t with
  | nil => simp [splitOn]
  | cons c t =>
    simp only [splitOn]
    split
    · simp
    · split <;> simp

/-- Joined by the separator, the parts give the text back. -/
theorem join_splitOn (sep : Char) (t : Text) : join [sep] (splitOn sep t) = t := by
  induction t with
  | nil => rfl
  | cons c t ih =>
    have hne := splitOn_ne_nil sep t
    simp only [splitOn]
    split
    · next h =>
      cases hs : splitOn sep t with
      | nil => exact absurd hs hne
      | cons p ps => rw [hs] at ih; simp [join, ih, h]
    · split
      · next hs => exact absurd hs hne
      · next p ps hs =>
        rw [hs] at ih
        cases ps <;> simp_all [join]

/-- A number in decimal digits. -/
def ofNat (n : Nat) : Text := Nat.toDigits 10 n

/-- The text, filled up with spaces to `width` characters. -/
def padEnd (width : Nat) (t : Text) : Text := t ++ List.replicate (width - t.length) ' '

end Text

end DocLint
