import DocLint.Text.Blank
import DocLint.Text.Line
import DocLint.Text.Search
import DocLint.Text.Word

/-!
# Extents

How far a lexeme reaches. Every function here is given the text after the beginning of a lexeme
and answers with a number of characters of that text; a lexeme that is never closed reaches to
the end of the text.

* `quotedExtent`: after an opening quote, up to its closing quote; a backslash takes the next
  character with it.
* `groupExtent`: after `#`, up to the square bracket that balances the first one, brackets in
  quotes left aside.
* `lineCommentExtent`: up to a line feed or `?>`, less one carriage return at that place.
* `commentExtent`: after `/*`, up to and with `*/`.
* `heredocExtent?`: after `<<<`, the label line, the body and the label that closes it.
-/

namespace DocLint.Token

open Text

/-- Characters up to and with the closing quote `q`. -/
def quotedExtent (q : Char) : Text → Nat
  | [] => 0
  | [_] => 1
  | c :: d :: t =>
    if c = '\\' then quotedExtent q t + 2
    else if c = q then 1
    else quotedExtent q (d :: t) + 1

/-- Where a scan through an attribute group stands with respect to quotes. -/
inductive Quoting where
  | outside
  | inside (quote : Char)
  | escaped (quote : Char)
  deriving DecidableEq, Repr

/-- How a character moves the scan through quotes. -/
def Quoting.next : Quoting → Char → Quoting
  | .outside, c => if c = '\'' ∨ c = '"' then .inside c else .outside
  | .inside q, c => if c = '\\' then .escaped q else if c = q then .outside else .inside q
  | .escaped q, _ => .inside q

/-- Characters up to and with the bracket that brings the depth back to zero. -/
def groupExtent : Quoting → Nat → Text → Nat
  | _, _, [] => 0
  | .outside, depth, c :: t =>
    if c = '[' then groupExtent .outside (depth + 1) t + 1
    else if c = ']' then
      if depth ≤ 1 then 1 else groupExtent .outside (depth - 1) t + 1
    else groupExtent (Quoting.next .outside c) depth t + 1
  | .inside q, depth, c :: t => groupExtent (Quoting.next (.inside q) c) depth t + 1
  | .escaped q, depth, c :: t => groupExtent (Quoting.next (.escaped q) c) depth t + 1

/-- The part of a text before a line feed or `?>`. -/
def restOfLine : Text → Text
  | [] => []
  | c :: t =>
    if c = '\n' ∨ (c = '?' ∧ t.head? = some '>') then [] else c :: restOfLine t

/-- Characters of a line comment. -/
def lineCommentExtent (t : Text) : Nat :=
  let line := restOfLine t
  (dropSuffix? ['\r'] line).getD line |>.length

/-- Characters up to and with the end of a delimited comment. -/
def commentExtent (t : Text) : Nat :=
  match find? ['*', '/'] t with
  | some n => n + 2
  | none => t.length

/-- The label of a heredoc, from the rest of its first line. -/
def heredocLabel? (header : Text) : Option Text :=
  let label := trimOf (fun c => c == '"' || c == '\'') (trim header)
  if label.isEmpty || wordLength label != label.length then none else some label

/-- Characters of `line` up to and with the label, if the label closes the heredoc there. -/
def closingLabel? (label line : Text) : Option Nat :=
  let indent := line.takeWhile isBlank
  match dropPrefix? label (line.drop indent.length) with
  | none => none
  | some rest => if rest.head?.any isWordChar then none else some (indent.length + label.length)

/-- Characters of the lines up to and with the closing label. -/
def heredocBodyExtent (label : Text) : List Text → Nat
  | [] => 0
  | line :: rest =>
    match closingLabel? label line with
    | some n => n
    | none => line.length + heredocBodyExtent label rest

/-- Characters of a heredoc after `<<<`, if its first line holds a label. -/
def heredocExtent? (t : Text) : Option Nat :=
  match find? ['\n'] t with
  | none => none
  | some n =>
    (heredocLabel? (t.take n)).map fun label =>
      n + 1 + heredocBodyExtent label (pieces (t.drop (n + 1)))

end DocLint.Token
