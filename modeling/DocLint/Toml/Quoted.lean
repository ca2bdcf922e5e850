import DocLint.Text.Basic

/-!
# TOML strings

Strings in double quotes know escapes, strings in single quotes do not; three quotes in a row open
a string over several lines. Every reader here is given the text after the opening quotes and
answers with the string and the text after the closing ones. `fuel` is the number of characters.
-/

namespace DocLint.Toml

open Text

/-- A character that may stand in a comment or a string: a tab, or anything but a control
character. -/
def isPlain (c : Char) : Bool := c == '\t' || (decide (32 ≤ c.toNat) && c.toNat != 127)

/-- The line break at the front goes. -/
def newline? : Text → Option Text
  | '\n' :: t => some t
  | '\r' :: '\n' :: t => some t
  | _ => none

/-- Spaces and tabs at the front go. -/
def skipBlanks (t : Text) : Text := t.dropWhile fun c => c == ' ' || c == '\t'

/-- The value of a hexadecimal digit. -/
def hexDigit? (c : Char) : Option Nat :=
  if c.isDigit then some (c.toNat - '0'.toNat)
  else if 'a' ≤ c ∧ c ≤ 'f' then some (c.toNat - 'a'.toNat + 10)
  else if 'A' ≤ c ∧ c ≤ 'F' then some (c.toNat - 'A'.toNat + 10)
  else none

/-- The character written as `n` hexadecimal digits. -/
def hexChar? (n : Nat) (t : Text) : Option (Char × Text) := do
  let digits ← (t.take n).mapM hexDigit?
  if digits.length ≠ n then none
  let code := digits.foldl (fun v d => v * 16 + d) 0
  if code < 0xD800 ∨ (0xDFFF < code ∧ code < 0x110000) then some (Char.ofNat code, t.drop n)
  else none

/-- The character of the escape after a backslash. -/
def escape? : Text → Option (Char × Text)
  | 'b' :: t => some ('\x08', t)
  | 't' :: t => some ('\t', t)
  | 'n' :: t => some ('\n', t)
  | 'f' :: t => some ('\x0c', t)
  | 'r' :: t => some ('\r', t)
  | '"' :: t => some ('"', t)
  | '\\' :: t => some ('\\', t)
  | 'u' :: t => hexChar? 4 t
  | 'U' :: t => hexChar? 8 t
  | _ => none

/-- A character put in front of what is read after it. -/
def consTo (c : Char) (r : Option (Text × Text)) : Option (Text × Text) :=
  r.map fun (s, t) => (c :: s, t)

/-- A string in double quotes. -/
def basic : Nat → Text → Option (Text × Text)
  | 0, _ => none
  | _, [] => none
  | fuel + 1, c :: t =>
    if c = '"' then some ([], t)
    else if c = '\\' then (escape? t).bind fun (e, t) => consTo e (basic fuel t)
    else if isPlain c then consTo c (basic fuel t)
    else none

/-- A string in single quotes. -/
def literal : Text → Option (Text × Text)
  | [] => none
  | c :: t =>
    if c = '\'' then some ([], t)
    else if isPlain c then consTo c (literal t)
    else none

/-- The quotes `q` at the front of a string over several lines: up to two of them belong to the
string, three close it. Answers with the quotes of the string and the text after the closing ones,
if there are such. -/
def quoteRun (q : Char) (t : Text) : Option (Text × Text) :=
  let n := (t.takeWhile (· == q)).length
  if n < 3 then none
  else if n ≤ 5 then some (List.replicate (n - 3) q, t.drop n)
  else some (List.replicate 2 q, t.drop 5)

/-- Blanks and line breaks at the front go. -/
def skipSpace : Text → Text
  | ' ' :: t => skipSpace t
  | '\t' :: t => skipSpace t
  | '\n' :: t => skipSpace t
  | '\r' :: '\n' :: t => skipSpace t
  | t => t

/-- A string in three double quotes. A backslash at the end of a line takes the line break and the
space after it away. -/
def multiBasic : Nat → Text → Option (Text × Text)
  | 0, _ => none
  | _, [] => none
  | fuel + 1, c :: t =>
    if c = '"' then
      match quoteRun '"' (c :: t) with
      | some end_ => some end_
      | none => consTo '"' (multiBasic fuel t)
    else if c = '\\' then
      match newline? (skipBlanks t) with
      | some rest => multiBasic fuel (skipSpace rest)
      | none => (escape? t).bind fun (e, t) => consTo e (multiBasic fuel t)
    else match newline? (c :: t) with
      | some rest => consTo '\n' (multiBasic fuel rest)
      | none => if isPlain c then consTo c (multiBasic fuel t) else none

/-- A string in three single quotes. -/
def multiLiteral : Nat → Text → Option (Text × Text)
  | 0, _ => none
  | _, [] => none
  | fuel + 1, c :: t =>
    if c = '\'' then
      match quoteRun '\'' (c :: t) with
      | some end_ => some end_
      | none => consTo '\'' (multiLiteral fuel t)
    else match newline? (c :: t) with
      | some rest => consTo '\n' (multiLiteral fuel rest)
      | none => if isPlain c then consTo c (multiLiteral fuel t) else none

/-- A string of any form, from its opening quotes on. -/
def quoted (t : Text) : Option (Text × Text) :=
  let afterBreak (t : Text) : Text := (newline? t).getD t
  match t with
  | '"' :: '"' :: '"' :: t => multiBasic t.length (afterBreak t)
  | '\'' :: '\'' :: '\'' :: t => multiLiteral t.length (afterBreak t)
  | '"' :: t => basic t.length t
  | '\'' :: t => literal t
  | _ => none

end DocLint.Toml
