import DocLint.Outline.Basic
import DocLint.Token.Lexer

/-!
# Source files

A source file is its path, its tokens and its outline. Places are asked for by token index or by
line.

* `SourceFile.lineNumber`, `SourceFile.tokenSpan`, `SourceFile.columnNumber`: line, byte span and
  column of a token.
* `SourceFile.lineOffset`: the byte offset at which a line starts.
-/

namespace DocLint

open Text

/-- A file that has been read. -/
structure SourceFile where
  /-- The path as it is shown. -/
  path : Text
  tokens : List Token
  outline : Outline

namespace SourceFile

/-- Reads a source. -/
def parse (path source : Text) : SourceFile :=
  let tokens := Token.tokenize source
  { path, tokens, outline := Outline.ofTokens tokens }

/-- The line of a token; 1 if there is no such token. -/
def lineNumber (f : SourceFile) (tid : Nat) : Nat := (f.tokens[tid]?.map (·.line)).getD 1

/-- Byte offset and length of a token; both 0 if there is no such token. -/
def tokenSpan (f : SourceFile) (tid : Nat) : Nat × Nat :=
  (f.tokens[tid]?.map fun t => (t.offset, utf8Length t.text)).getD (0, 0)

/-- Characters after the last line feed of a text that has one. -/
def lastLineLength (t : Text) : Nat := (t.reverse.takeWhile (· ≠ '\n')).length

/-- Adds the characters since the last line feed to `column`; the tokens come nearest first. -/
def columnBack (column : Nat) : List Token → Nat
  | [] => column
  | t :: ts =>
    if '\n' ∈ t.text then column + lastLineLength t.text
    else columnBack (column + t.text.length) ts

/-- The column of a token, from 1, in characters; that of the end of the source if there is no
such token. -/
def columnNumber (f : SourceFile) (tid : Nat) : Nat := columnBack 1 (f.tokens.take tid).reverse

/-- Bytes of a text up to and with its `n`-th line feed. -/
def pastBreak : Nat → Text → Nat
  | 0, _ => 0
  | _ + 1, [] => 0
  | n + 1, c :: t => c.utf8Size + pastBreak (if c = '\n' then n else n + 1) t

/-- The offset just past the `n`-th line feed of the tokens, if they have so many. -/
def offsetPastBreak (n : Nat) : List Token → Option Nat
  | [] => none
  | t :: ts =>
    if n ≤ breaks t.text then some (t.offset + pastBreak n t.text)
    else offsetPastBreak (n - breaks t.text) ts

/-- The byte offset at which a line starts; the end of the source past its last line. -/
def lineOffset (f : SourceFile) (line : Nat) : Nat :=
  if line ≤ 1 then 0
  else (offsetPastBreak (line - 1) f.tokens).getD ((f.tokens.getLast?.map (·.finish)).getD 0)

end SourceFile

end DocLint
