import DocLint.Token.Extent
import DocLint.Token.Reserved

/-!
# From a source to its tokens

A source is read in two modes. In html mode everything up to the next `<?` is one lexeme and the
tag that follows opens code; in code mode a lexeme is chosen by its first characters, and `?>`
goes back to html mode. A source that holds no full open tag is code from the start.

A cut keeps the first character and takes `extra` characters more, so reading always moves on and
no character is lost.

* `startMode`, `htmlCut`, `codeCut`, `cut`.
* `lexemes`: the lexemes of a text read in a mode.
* `tokenize`: the tokens of a source.

Main statements: `flatten_lexemes` (the texts put together are the source),
`text_ne_nil_of_mem_lexemes` and `tokenize_eq_append` (line and offset of a token are those of the
text before it).
-/

namespace DocLint

open Text

/-- How a source is read. -/
inductive Mode where
  | html
  | code
  deriving DecidableEq, Repr

/-- A lexeme at the front of a text: its kind, the characters after its first one, and the mode
for what follows. -/
structure Cut where
  kind : Kind
  extra : Nat
  mode : Mode
  deriving DecidableEq, Repr

namespace Token

/-- A source with a full open tag starts outside of code. -/
def startMode (source : Text) : Mode :=
  if contains "<?=" source || contains "<?php" (lower source) then .html else .code

/-- Characters of a line break at the front. -/
def lineBreakExtent (t : Text) : Nat :=
  if startsWith ['\r', '\n'] t then 2 else if startsWith ['\n'] t then 1 else 0

/-- The lexeme at the front of `c :: t` outside of code. -/
def htmlCut (c : Char) (t : Text) : Cut :=
  if c = '<' ∧ t.head? = some '?' then
    let tag := if sameLetters (t.take 4) "?php" then 4 else if startsWith "?=" t then 2 else 1
    ⟨.openTag, tag + lineBreakExtent (t.drop tag), .code⟩
  else ⟨.html, (find? "<?" t).getD t.length, .html⟩

/-- The operators of several characters, the longest first. -/
def operators : List Text := ["?->", "...", "::", "->", "=>"]

/-- A documentation block starts with `/**` and a blank or another star. -/
def isDocBlock (text : Text) : Bool :=
  match dropPrefix? "/**" text with
  | some (c :: _) => isBlank c || c == '*'
  | _ => false

/-- Kind and further characters of the lexeme at the front of `c :: t` in code. -/
def codeLexeme (c : Char) (t : Text) : Kind × Nat :=
  if isBlank c then (.blank, (t.takeWhile isBlank).length)
  else if c = '#' ∧ t.head? = some '[' then (.attributeGroup, groupExtent .outside 0 t)
  else if c = '#' ∨ (c = '/' ∧ t.head? = some '/') then (.lineComment, lineCommentExtent t)
  else if c = '/' ∧ t.head? = some '*' then
    let extra := commentExtent (t.drop 1) + 1
    (if isDocBlock (c :: t.take extra) then .docComment else .blockComment, extra)
  else if c = '\'' ∨ c = '"' ∨ c = '\x60' then (.literal, quotedExtent c t)
  else if c = '<' ∧ startsWith "<<" t then
    match heredocExtent? (t.drop 2) with
    | some n => (.literal, n + 2)
    | none => (.punct, 2)
  else if c = '$' ∧ t.head?.any isWordStart then (.dollarName, wordLength t)
  else if isWordStart c then
    let extra := wordLength t
    (if isReserved (c :: t.take extra) then .keyword else .name, extra)
  else if c.isDigit then
    (.number, (t.takeWhile fun d => d.isAlphanum || d == '_' || d == '.').length)
  else match c with
    | '{' => (.openBrace, 0)
    | '}' => (.closeBrace, 0)
    | '(' => (.openParen, 0)
    | ')' => (.closeParen, 0)
    | '[' => (.openBracket, 0)
    | ']' => (.closeBracket, 0)
    | ';' => (.semicolon, 0)
    | ',' => (.comma, 0)
    | _ =>
      match operators.find? (startsWith · (c :: t)) with
      | some op => (.punct, op.length - 1)
      | none => (.punct, 0)

/-- The lexeme at the front of `c :: t` in code. -/
def codeCut (c : Char) (t : Text) : Cut :=
  if c = '?' ∧ t.head? = some '>' then ⟨.closeTag, 1, .html⟩
  else ⟨(codeLexeme c t).1, (codeLexeme c t).2, .code⟩

/-- The lexeme at the front of `c :: t`. -/
def cut : Mode → Char → Text → Cut
  | .html => htmlCut
  | .code => codeCut

/-- Reads lexemes; `fuel` bounds their number. -/
def lexemesWith : Nat → Mode → Text → List Lexeme
  | 0, _, _ => []
  | _ + 1, _, [] => []
  | fuel + 1, mode, c :: t =>
    let k := cut mode c t
    ⟨k.kind, c :: t.take k.extra⟩ :: lexemesWith fuel k.mode (t.drop k.extra)

/-- The lexemes of a text: there are at most as many as characters. -/
def lexemes (mode : Mode) (t : Text) : List Lexeme := lexemesWith t.length mode t

/-- More fuel than characters changes nothing. -/
theorem lexemesWith_eq {fuel : Nat} {mode : Mode} {t : Text} (h : t.length ≤ fuel) :
    lexemesWith fuel mode t = lexemes mode t := by
  suffices ∀ f g mode (t : Text), t.length ≤ f → t.length ≤ g →
      lexemesWith f mode t = lexemesWith g mode t from this _ _ _ _ h (Nat.le_refl _)
  intro f
  induction f with
  | zero => intro g mode t hf _; cases t <;> cases g <;> simp_all [lexemesWith]
  | succ f ih =>
    intro g mode t hf hg
    cases t with
    | nil => cases g <;> rfl
    | cons c t =>
      cases g with
      | zero => simp at hg
      | succ g =>
        simp only [List.length_cons, Nat.add_le_add_iff_right] at hf hg
        simp only [lexemesWith, List.cons.injEq, true_and]
        exact ih g _ _ (by simp; omega) (by simp; omega)

@[simp]
theorem lexemes_nil (mode : Mode) : lexemes mode [] = [] := rfl

theorem lexemes_cons (mode : Mode) (c : Char) (t : Text) :
    lexemes mode (c :: t) =
      ⟨(cut mode c t).kind, c :: t.take (cut mode c t).extra⟩ ::
        lexemes (cut mode c t).mode (t.drop (cut mode c t).extra) := by
  have h : (t.drop (cut mode c t).extra).length ≤ t.length := by simp
  rw [← lexemesWith_eq h]
  rfl

/-- Nothing is lost: the texts of the lexemes put together are the text. -/
theorem flatten_lexemes (mode : Mode) (t : Text) :
    ((lexemes mode t).map Lexeme.text).flatten = t := by
  induction h : t.length using Nat.strongRecOn generalizing mode t with
  | ind n ih =>
    cases t with
    | nil => rfl
    | cons c t =>
      rw [lexemes_cons]
      simp only [List.map_cons, List.flatten_cons, List.cons_append]
      have shorter : (t.drop (cut mode c t).extra).length < n := by
        subst h
        rw [List.length_drop, List.length_cons]
        omega
      rw [ih _ shorter _ _ rfl, List.take_append_drop]

/-- No lexeme is empty. -/
theorem text_ne_nil_of_mem_lexemes {mode : Mode} {t : Text} {l : Lexeme}
    (hl : l ∈ lexemes mode t) : l.text ≠ [] := by
  induction h : t.length using Nat.strongRecOn generalizing mode t with
  | ind n ih =>
    cases t with
    | nil => simp at hl
    | cons c t =>
      rw [lexemes_cons] at hl
      rcases List.mem_cons.1 hl with rfl | hl
      · simp
      · have shorter : (t.drop (cut mode c t).extra).length < n := by
          subst h
          rw [List.length_drop, List.length_cons]
          omega
        exact ih _ shorter hl rfl

/-- Places lexemes one after another, from a line and an offset on. -/
def place : Nat → Nat → List Lexeme → List Token
  | _, _, [] => []
  | line, offset, l :: ls =>
    { l with line := line, offset := offset } ::
      place (line + breaks l.text) (offset + utf8Length l.text) ls

/-- The tokens of a source. -/
def tokenize (source : Text) : List Token := place 1 0 (lexemes (startMode source) source)

/-- The text that tokens stand for. -/
def textOf (ts : List Token) : Text := (ts.map (·.text)).flatten

@[simp]
theorem map_toLexeme_place (line offset : Nat) (ls : List Lexeme) :
    (place line offset ls).map Token.toLexeme = ls := by
  induction ls generalizing line offset with
  | nil => rfl
  | cons l ls ih => simp [place, ih]

theorem textOf_eq (ts : List Token) :
    textOf ts = ((ts.map Token.toLexeme).map Lexeme.text).flatten := by
  simp [textOf, Function.comp_def]

/-- The tokens of a source put together are the source. -/
@[simp]
theorem textOf_tokenize (source : Text) : textOf (tokenize source) = source := by
  rw [textOf_eq, tokenize, map_toLexeme_place, flatten_lexemes]

/-- A placed lexeme stands after the text of the ones before it. -/
theorem place_eq_append {line offset : Nat} {ls : List Lexeme} {before after : List Token}
    {t : Token} (h : place line offset ls = before ++ t :: after) :
    t.line = line + breaks (textOf before) ∧ t.offset = offset + utf8Length (textOf before) := by
  induction before generalizing line offset ls with
  | nil =>
    cases ls with
    | nil => simp [place] at h
    | cons l ls =>
      simp only [place, List.nil_append, List.cons.injEq] at h
      obtain ⟨rfl, _⟩ := h
      simp [textOf, breaks]
  | cons b before ih =>
    cases ls with
    | nil => simp [place] at h
    | cons l ls =>
      simp only [place, List.cons_append, List.cons.injEq] at h
      obtain ⟨rfl, h⟩ := h
      have := ih h
      simp only [textOf, List.map_cons, List.flatten_cons, breaks, List.count_append,
        utf8Length_append] at this ⊢
      omega

/-- Line and offset of a token count the line feeds and the bytes before it. -/
theorem tokenize_eq_append {source : Text} {before after : List Token} {t : Token}
    (h : tokenize source = before ++ t :: after) :
    t.line = 1 + breaks (textOf before) ∧ t.offset = utf8Length (textOf before) := by
  have := place_eq_append h
  simpa using this

end Token

end DocLint
