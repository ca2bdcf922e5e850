import DocLint.Text.Basic

/-!
# Tokens

A lexeme is a piece of a source with its kind; a token is a lexeme with its place, the line and
the byte offset of its first character.

* `Token.isTrivia`: blanks, open tags and comments.
* `Token.isDoc`: a documentation block or a line comment opened with three slashes.
* `Token.isSignificant`: neither trivia nor an attribute group.
* `Token.isModifier`: a keyword that may stand in front of a class member.
-/

namespace DocLint

/-- The kinds of lexemes. -/
inductive Kind where
  /-- Text outside of code. -/
  | html
  /-- `<?php`, `<?=` or `<?`, with one line break after it. -/
  | openTag
  /-- `?>`. -/
  | closeTag
  /-- A run of blanks. -/
  | blank
  /-- `//` or `#` up to the end of the line. -/
  | lineComment
  /-- A delimited comment that documents nothing. -/
  | blockComment
  /-- A documentation block. -/
  | docComment
  /-- An attribute group, `#[` to `]`. -/
  | attributeGroup
  /-- A dollar sign and a name. -/
  | dollarName
  /-- A name that is not reserved. -/
  | name
  /-- A reserved word. -/
  | keyword
  /-- A numeric literal. -/
  | number
  /-- A quoted literal or a heredoc. -/
  | literal
  | openBrace
  | closeBrace
  | openParen
  | closeParen
  | openBracket
  | closeBracket
  | semicolon
  | comma
  /-- An operator or any other character. -/
  | punct
  deriving DecidableEq, Repr

namespace Kind

/-- Opens a bracket group. -/
def opens : Kind → Bool
  | openBrace | openParen | openBracket => true
  | _ => false

/-- Closes a bracket group. -/
def closes : Kind → Bool
  | closeBrace | closeParen | closeBracket => true
  | _ => false

end Kind

/-- A classified piece of a source. -/
structure Lexeme where
  kind : Kind
  text : Text
  deriving DecidableEq, Repr

/-- A lexeme with its place. -/
structure Token extends Lexeme where
  /-- Line of the first character, from 1. -/
  line : Nat
  /-- Bytes of the source before the first character. -/
  offset : Nat
  deriving DecidableEq, Repr

namespace Token

/-- Bytes of the source up to the end of the token. -/
def finish (t : Token) : Nat := t.offset + Text.utf8Length t.text

/-- Blanks, open tags and every comment. -/
def isTrivia (t : Token) : Bool :=
  match t.kind with
  | .blank | .lineComment | .blockComment | .docComment | .openTag => true
  | _ => false

/-- A documentation block, or a line comment opened with three slashes. -/
def isDoc (t : Token) : Bool :=
  t.kind == .docComment || (t.kind == .lineComment && Text.startsWith "///" t.text)

/-- Neither trivia nor an attribute group. -/
def isSignificant (t : Token) : Bool := !t.isTrivia && t.kind != .attributeGroup

/-- The reserved word `word`, ASCII case aside. -/
def isKeyword (word : Text) (t : Token) : Bool :=
  t.kind == .keyword && Text.sameLetters t.text word

/-- The operator or character `text`. -/
def isPunct (text : Text) (t : Token) : Bool := t.kind == .punct && t.text == text

/-- Words that introduce a class-like declaration. -/
def classWords : List Text := ["class", "interface", "trait", "enum"]

/-- Words that may stand before a class member. -/
def modifierWords : List Text :=
  ["abstract", "final", "public", "protected", "private", "static", "var", "readonly"]

/-- Introduces a class-like declaration. -/
def isClassWord (t : Token) : Bool := classWords.any (t.isKeyword ·)

/-- A modifier of a class member. -/
def isModifier (t : Token) : Bool := modifierWords.any (t.isKeyword ·)

end Token

end DocLint
