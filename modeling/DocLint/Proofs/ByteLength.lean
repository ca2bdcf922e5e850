import DocLint.Proofs.Lexis

/-!
# Lengths in bytes

The lexemes once more, with every length counted in bytes and every part of the text sliced at
byte offsets. A slice that cuts a character in two, or reaches past the end, gives no text, and
then neither does the branch that asked for it.

* `Text.splitBytes?`: a text cut after a number of bytes; `takeBytes?`, `dropBytes?` and `slice?`.
* `Text.spanBytes`, `Text.findText?`, `Text.charIndices`: searches that answer with byte offsets.
* `Bytewise.quotedLength`, `groupLength?`, `lineCommentLength?`, `commentLength?`,
  `heredocLength?`: the bytes of the lexemes whose end is searched for.
* `Bytewise.turn?`: kind, bytes and next mode of the lexeme at the front of a text.

Main statement: `Bytewise.turn?_eq`, no slice fails and the bytes are those of the characters that
`cut` takes.
-/

namespace DocLint

namespace Text

/-! ## Slices -/

/-- The text cut after `n` bytes, if that is between two characters. -/
def splitBytes? : Nat → Text → Option (Text × Text)
  | 0, t => some ([], t)
  | _ + 1, [] => none
  | n + 1, c :: t =>
    if c.utf8Size ≤ n + 1 then
      (splitBytes? (n + 1 - c.utf8Size) t).map fun p => (c :: p.1, p.2)
    else none

/-- The first `n` bytes. -/
def takeBytes? (n : Nat) (t : Text) : Option Text := (splitBytes? n t).map (·.1)

/-- What follows the first `n` bytes. -/
def dropBytes? (n : Nat) (t : Text) : Option Text := (splitBytes? n t).map (·.2)

/-- The bytes from offset `first` up to offset `stop`, which is left out. -/
def slice? (first stop : Nat) (t : Text) : Option Text :=
  if first ≤ stop then (dropBytes? first t).bind (takeBytes? (stop - first)) else none

theorem splitBytes?_append (s r : Text) : splitBytes? (utf8Length s) (s ++ r) = some (s, r) := by
  induction s with
  | nil => cases r <;> rfl
  | cons c s ih =>
      have hc := c.utf8Size_pos
      obtain ⟨n, hn⟩ : ∃ n, utf8Length (c :: s) = n + 1 :=
        ⟨utf8Length (c :: s) - 1, by rw [utf8Length_cons]; omega⟩
      have hrest : n + 1 - c.utf8Size = utf8Length s := by rw [← hn, utf8Length_cons]; omega
      have hle : c.utf8Size ≤ n + 1 := by rw [← hn, utf8Length_cons]; omega
      rw [hn, List.cons_append, splitBytes?, if_pos hle, hrest, ih]
      rfl

/-- A text is cut only between two characters. -/
theorem splitBytes?_eq_some_iff {n : Nat} {t s r : Text} :
    splitBytes? n t = some (s, r) ↔ t = s ++ r ∧ utf8Length s = n := by
  constructor
  · intro h
    induction t generalizing n s with
    | nil =>
        cases n with
        | zero => cases h; exact ⟨rfl, rfl⟩
        | succ n => cases h
    | cons c t ih =>
        cases n with
        | zero => cases h; exact ⟨rfl, rfl⟩
        | succ n =>
            rw [splitBytes?] at h
            split at h
            · obtain ⟨⟨s', r'⟩, hsplit, heq⟩ := Option.map_eq_some_iff.1 h
              obtain ⟨rfl, rfl⟩ := Prod.mk.inj heq
              obtain ⟨rfl, hlength⟩ := ih hsplit
              refine ⟨rfl, ?_⟩
              show c.utf8Size + utf8Length s' = n + 1
              omega
            · cases h
  · rintro ⟨rfl, rfl⟩
    exact splitBytes?_append s r

example : splitBytes? 2 "aé" = none := by decide

theorem takeBytes?_append (s r : Text) : takeBytes? (utf8Length s) (s ++ r) = some s := by
  rw [takeBytes?, splitBytes?_append]
  rfl

theorem dropBytes?_append (s r : Text) : dropBytes? (utf8Length s) (s ++ r) = some r := by
  rw [dropBytes?, splitBytes?_append]
  rfl

theorem slice?_append (u s r : Text) :
    slice? (utf8Length u) (utf8Length u + utf8Length s) (u ++ (s ++ r)) = some s := by
  rw [slice?, if_pos (Nat.le_add_right _ _), dropBytes?_append, Option.bind_some,
    Nat.add_sub_cancel_left, takeBytes?_append]

theorem takeBytes?_of_isPrefix {s t : Text} (h : s <+: t) :
    takeBytes? (utf8Length s) t = some s := by
  obtain ⟨r, rfl⟩ := h
  exact takeBytes?_append s r

theorem takeBytes?_take (n : Nat) (t : Text) :
    takeBytes? (utf8Length (t.take n)) t = some (t.take n) :=
  takeBytes?_of_isPrefix (List.take_prefix n t)

theorem isBoundary_take (n : Nat) (t : Text) : IsBoundary t (utf8Length (t.take n)) :=
  ⟨t.take n, t.drop n, (List.take_append_drop n t).symm, rfl⟩

theorem startsWith_singleton_iff {a c : Char} {t : Text} :
    startsWith [a] (c :: t) = true ↔ c = a := by
  rw [startsWith_iff, List.cons_prefix_cons, eq_comm]
  simp

theorem startsWith_pair_iff {a b c : Char} {t : Text} :
    startsWith [a, b] (c :: t) = true ↔ c = a ∧ t.head? = some b := by
  rw [startsWith_iff, List.cons_prefix_cons, eq_comm]
  cases t with
  | nil => simp
  | cons d t => simp [eq_comm]

/-! ## Searches -/

/-- The byte at which the first character of the class starts. -/
def findChar? (p : Char → Bool) : Text → Option Nat
  | [] => none
  | c :: t => if p c then some 0 else (findChar? p t).map (c.utf8Size + ·)

/-- Bytes before the first character outside of the class, or up to the end. -/
def spanBytes (p : Char → Bool) (t : Text) : Nat :=
  (findChar? (fun c => !p c) t).getD (utf8Length t)

/-- The byte at which the first occurrence of `p` starts. -/
def findText? (p : Text) : Text → Option Nat
  | [] => if p.isEmpty then some 0 else none
  | c :: t => if startsWith p (c :: t) then some 0 else (findText? p t).map (c.utf8Size + ·)

/-- The characters with the bytes at which they start, the first one at byte `i`. -/
def charIndices : Nat → Text → List (Nat × Char)
  | _, [] => []
  | i, c :: t => (i, c) :: charIndices (i + c.utf8Size) t

/-- A search that gives up at the end of the text, one character further on. -/
theorem getD_map_utf8Size (c : Char) (found : Option Nat) (t : Text) :
    (found.map (c.utf8Size + ·)).getD (utf8Length (c :: t)) =
      c.utf8Size + found.getD (utf8Length t) := by
  cases found <;> rfl

theorem spanBytes_eq (p : Char → Bool) (t : Text) :
    spanBytes p t = utf8Length (t.takeWhile p) := by
  unfold spanBytes
  induction t with
  | nil => rfl
  | cons c t ih =>
      rw [findChar?]
      by_cases hc : p c
      · rw [if_neg (by simp [hc]), getD_map_utf8Size, ih, List.takeWhile_cons_of_pos hc,
          utf8Length_cons]
      · rw [if_pos (by simp [hc]), List.takeWhile_cons_of_neg hc]
        rfl

theorem findText?_eq (p t : Text) :
    findText? p t = (find? p t).map fun n => utf8Length (t.take n) := by
  induction t with
  | nil =>
      rw [findText?, find?]
      split <;> rfl
  | cons c t ih =>
      rw [findText?, find?]
      split
      · rfl
      · rw [ih, Option.map_map, Option.map_map]
        rfl

/-- Beginnings of one text are as long as each other if they have as many bytes. -/
theorem utf8Length_eq_iff_of_isPrefix {s t : Text} (h : s <+: t) :
    utf8Length s = utf8Length t ↔ s.length = t.length := by
  constructor
  · intro hbytes
    obtain ⟨r, rfl⟩ := h
    cases r with
    | nil => simp
    | cons c r =>
        have hc := c.utf8Size_pos
        rw [utf8Length_append, utf8Length_cons] at hbytes
        omega
  · intro hlength
    rw [h.eq_of_length hlength]

end Text

namespace Token

open Text

namespace Bytewise

/-! ## Lengths -/

/-- The byte behind the closing quote `q`; `escaped` after a backslash. -/
def pastQuote? (q : Char) : Bool → List (Nat × Char) → Option Nat
  | _, [] => none
  | true, _ :: cs => pastQuote? q false cs
  | false, (i, c) :: cs =>
    if c = '\\' then pastQuote? q true cs
    else if c = q then some (i + 1)
    else pastQuote? q false cs

/-- Bytes of the literal at the front of `s`, which starts with the quote `q`. -/
def quotedLength (q : Char) (s : Text) : Nat :=
  (pastQuote? q false ((charIndices 0 s).drop 1)).getD (utf8Length s)

/-- The byte of `s` behind the bracket that brings the depth back to zero; `skip` characters still
belong to a literal. -/
def pastGroup? (s : Text) : Nat → Nat → List (Nat × Char) → Option Nat
  | _, _, [] => some (utf8Length s)
  | skip + 1, depth, _ :: cs => pastGroup? s skip depth cs
  | 0, depth, (i, c) :: cs =>
    if c = '[' then pastGroup? s 0 (depth + 1) cs
    else if c = ']' then
      if depth - 1 = 0 then some (i + 1) else pastGroup? s 0 (depth - 1) cs
    else if c = '\'' ∨ c = '"' then do
      let len := quotedLength c (← dropBytes? i s)
      let literal ← slice? i (i + len) s
      pastGroup? s (literal.length - 1) depth cs
    else pastGroup? s 0 depth cs

/-- Bytes of the attribute group at the front of `s`. -/
def groupLength? (s : Text) : Option Nat := pastGroup? s 0 0 (charIndices 0 s)

/-- Bytes of the line comment at the front of `s`. -/
def lineCommentLength? (s : Text) : Option Nat := do
  let newline := (findText? ['\n'] s).getD (utf8Length s)
  let close := (findText? "?>" s).getD (utf8Length s)
  let stop := min newline close
  let line ← takeBytes? stop s
  return if 0 < stop ∧ endsWith ['\r'] line then stop - 1 else stop

/-- Bytes of the delimited comment at the front of `s`. -/
def commentLength? (s : Text) : Option Nat := do
  let inside ← dropBytes? 2 s
  return match findText? ['*', '/'] inside with
    | some i => i + 4
    | none => utf8Length s

/-- The byte behind the closing label in the lines of a heredoc, the first one at byte `offset`. -/
def pastLabel? (label : Text) : Nat → List Text → Option Nat
  | _, [] => none
  | offset, line :: rest =>
    let trimmed := trimStart line
    if (dropPrefix? label trimmed).any fun behind => !behind.head?.any isWordChar then
      some (offset + (utf8Length line - utf8Length trimmed) + utf8Length label)
    else pastLabel? label (offset + utf8Length line) rest

/-- Bytes of the heredoc at the front of `s`, if its first line holds a label. -/
def heredocLength? (s : Text) : Option (Option Nat) :=
  match findText? ['\n'] s with
  | none => some none
  | some stop => do
    let header ← slice? 3 stop s
    let label := trimOf (fun c => c == '"' || c == '\'') (trim header)
    if label.isEmpty || spanBytes isWordChar label != utf8Length label then return none
    let body ← dropBytes? (stop + 1) s
    return some ((pastLabel? label (stop + 1) (pieces body)).getD (utf8Length s))

/-! ## Branches -/

/-- A lexeme at the front of a text: its kind, its bytes, and the mode for what follows. -/
structure Turn where
  kind : Kind
  bytes : Nat
  mode : Mode
  deriving DecidableEq, Repr

/-- Bytes of the open tag at the front of `rest`, the line break behind it included. -/
def openTagLength? (rest : Text) : Option Nat := do
  let tag :=
    if (takeBytes? 5 rest).any (sameLetters · "<?php") then 5
    else if startsWith "<?=" rest then 3 else 2
  let behind ← dropBytes? tag rest
  return if startsWith ['\r', '\n'] behind then tag + 2
    else if startsWith ['\n'] behind then tag + 1 else tag

/-- The lexeme at the front of `rest` outside of code. -/
def htmlTurn? (rest : Text) : Option Turn :=
  match findText? "<?" rest with
  | some 0 => (openTagLength? rest).map (⟨.openTag, ·, .code⟩)
  | some start => some ⟨.html, start, .html⟩
  | none => some ⟨.html, utf8Length rest, .html⟩

/-- A dollar sign with the start of a word behind it. -/
def startsName? (c : Char) (rest : Text) : Option Bool :=
  if c = '$' then (dropBytes? 1 rest).map fun behind => behind.head?.any isWordStart
  else some false

/-- Bytes of the operator at the front of `rest`, or of the single character `c`. -/
def operatorLength (c : Char) (rest : Text) : Nat :=
  match operators.find? (startsWith · rest) with
  | some op => utf8Length op
  | none => c.utf8Size

/-- Kind and bytes of what is neither a blank, a comment, a literal, a word nor a number. -/
def markLength (c : Char) (rest : Text) : Kind × Nat :=
  match c with
  | '{' => (.openBrace, 1)
  | '}' => (.closeBrace, 1)
  | '(' => (.openParen, 1)
  | ')' => (.closeParen, 1)
  | '[' => (.openBracket, 1)
  | ']' => (.closeBracket, 1)
  | ';' => (.semicolon, 1)
  | ',' => (.comma, 1)
  | _ => (.punct, operatorLength c rest)

/-- Kind and bytes of the lexeme at the front of `rest`, which starts with `c`, in code. -/
def codeLength? (c : Char) (rest : Text) : Option (Kind × Nat) :=
  if isBlank c then some (.blank, spanBytes isBlank rest)
  else if c = '#' ∧ startsWith "#[" rest then (groupLength? rest).map (.attributeGroup, ·)
  else if c = '#' ∨ (c = '/' ∧ startsWith "//" rest) then
    (lineCommentLength? rest).map (.lineComment, ·)
  else if c = '/' ∧ startsWith "/*" rest then do
    let len ← commentLength? rest
    let comment ← takeBytes? len rest
    return (if isDocBlock comment then .docComment else .blockComment, len)
  else if c = '\'' ∨ c = '"' ∨ c = '\x60' then some (.literal, quotedLength c rest)
  else if c = '<' ∧ startsWith "<<<" rest then
    (heredocLength? rest).map fun
      | some len => (.literal, len)
      | none => (.punct, 3)
  else do
    if ← startsName? c rest then
      let name ← dropBytes? 1 rest
      return (.dollarName, 1 + spanBytes isWordChar name)
    else if isWordStart c then
      let len := spanBytes isWordChar rest
      let word ← takeBytes? len rest
      return (if isReserved word then .keyword else .name, len)
    else if c.isDigit then
      return (.number, spanBytes (fun d => d.isAlphanum || d == '_' || d == '.') rest)
    else return markLength c rest

/-- The lexeme at the front of `rest` in code. -/
def codeTurn? (rest : Text) : Option Turn :=
  match rest with
  | [] => none
  | c :: _ =>
    if startsWith "?>" rest then some ⟨.closeTag, 2, .html⟩
    else (codeLength? c rest).map fun x => ⟨x.1, x.2, .code⟩

/-- The lexeme at the front of `rest`. -/
def turn? : Mode → Text → Option Turn
  | .html => htmlTurn?
  | .code => codeTurn?

/-! ## Quotes -/

/-- From byte `i` on, the search for the closing quote ends where the literal ends. -/
theorem pastQuote?_eq {q : Char} (hq : q.utf8Size = 1) (i : Nat) (t : Text) :
    (pastQuote? q false (charIndices i t)).getD (i + utf8Length t) =
      i + utf8Length (t.take (quotedExtent q t)) := by
  fun_induction quotedExtent q t generalizing i with
  | case1 => rfl
  | case2 c =>
      rw [charIndices, pastQuote?]
      split
      · rfl
      split
      · rename_i hc
        subst hc
        simp [hq]
      · rfl
  | case3 d t ih =>
      have := ih (i + '\\'.utf8Size + d.utf8Size)
      simp only [charIndices, pastQuote?, if_true, List.take_succ_cons, utf8Length_cons] at this ⊢
      rw [← Nat.add_assoc, ← Nat.add_assoc, this, Nat.add_assoc, Nat.add_assoc]
  | case4 d t hslash =>
      simp [charIndices, pastQuote?, hslash, hq]
  | case5 c d t hslash hne ih =>
      have := ih (i + c.utf8Size)
      rw [charIndices, pastQuote?, if_neg hslash, if_neg hne, List.take_succ_cons, utf8Length_cons,
        utf8Length_cons c, ← Nat.add_assoc, this, Nat.add_assoc]

theorem quotedLength_eq {q : Char} (hq : q.utf8Size = 1) (c : Char) (t : Text) :
    quotedLength q (c :: t) = utf8Length (c :: t.take (quotedExtent q t)) := by
  have := pastQuote?_eq hq c.utf8Size t
  rw [quotedLength, charIndices, Nat.zero_add, List.drop_succ_cons, List.drop_zero,
    utf8Length_cons, this, utf8Length_cons]

/-! ## Attribute groups -/

theorem pastGroup?_skip (s : Text) (depth i : Nat) (skip : Nat) (t : Text) :
    pastGroup? s skip depth (charIndices i t) =
      pastGroup? s 0 depth (charIndices (i + utf8Length (t.take skip)) (t.drop skip)) := by
  induction t generalizing skip i with
  | nil => cases skip <;> simp [charIndices, pastGroup?]
  | cons c t ih =>
      cases skip with
      | zero => rfl
      | succ skip =>
          rw [charIndices, pastGroup?, ih, List.take_succ_cons, utf8Length_cons, Nat.add_assoc]
          rfl

/-- A literal in a group is left out as a whole. -/
theorem pastGroup?_quoted {q : Char} (hq : q = '\'' ∨ q = '"') (u t : Text) (depth : Nat) :
    pastGroup? (u ++ q :: t) 0 depth (charIndices (utf8Length u) (q :: t)) =
      pastGroup? (u ++ q :: t) 0 depth
        (charIndices (utf8Length (u ++ q :: t.take (quotedExtent q t)))
          (t.drop (quotedExtent q t))) := by
  have hsize : q.utf8Size = 1 := by rcases hq with rfl | rfl <;> rfl
  have hbrackets : q ≠ '[' ∧ q ≠ ']' := by rcases hq with rfl | rfl <;> decide
  have hslice : slice? (utf8Length u) (utf8Length u + utf8Length (q :: t.take (quotedExtent q t)))
      (u ++ q :: t) = some (q :: t.take (quotedExtent q t)) := by
    have := slice?_append u (q :: t.take (quotedExtent q t)) (t.drop (quotedExtent q t))
    rwa [List.cons_append, List.take_append_drop] at this
  have hskip : (q :: t.take (quotedExtent q t)).length - 1 = quotedExtent q t := by
    rw [List.length_cons, Nat.add_sub_cancel, List.length_take,
      Nat.min_eq_left (quotedExtent_le q t)]
  rw [charIndices, pastGroup?, if_neg hbrackets.1, if_neg hbrackets.2, if_pos hq]
  simp only [Option.bind_eq_bind, Option.bind_some, dropBytes?_append, quotedLength_eq hsize,
    hslice, hskip]
  rw [pastGroup?_skip, utf8Length_append, utf8Length_cons, Nat.add_assoc]

/-- Behind `u`, the search for the end of a group ends where the group ends. -/
theorem pastGroup?_eq (u : Text) (depth : Nat) (t : Text) :
    pastGroup? (u ++ t) 0 depth (charIndices (utf8Length u) t) =
      some (utf8Length u + utf8Length (t.take (groupExtent .outside depth t))) := by
  induction hn : t.length using Nat.strongRecOn generalizing u depth t with
  | ind n ih =>
      cases t with
      | nil => simp [charIndices, pastGroup?, groupExtent]
      | cons c t =>
          -- one character on, `c` belongs to what stands before
          have hmoved : utf8Length u + c.utf8Size = utf8Length (u ++ [c]) := by simp
          have hnext (e : Nat) : pastGroup? (u ++ c :: t) 0 e
              (charIndices (utf8Length u + c.utf8Size) t) =
              some (utf8Length u + utf8Length (c :: t.take (groupExtent .outside e t))) := by
            have := ih t.length (by rw [← hn]; simp) (u ++ [c]) e t rfl
            rw [List.append_assoc, List.singleton_append] at this
            rw [hmoved, this, ← hmoved, utf8Length_cons, Nat.add_assoc]
          by_cases hq : c = '\'' ∨ c = '"'
          · have hbehind := ih (t.drop (quotedExtent c t)).length
              (by rw [← hn, List.length_drop, List.length_cons]; omega)
              (u ++ c :: t.take (quotedExtent c t)) depth (t.drop (quotedExtent c t)) rfl
            rw [List.append_assoc, List.cons_append, List.take_append_drop] at hbehind
            have hbrackets : c ≠ '[' ∧ c ≠ ']' := by rcases hq with rfl | rfl <;> decide
            rw [pastGroup?_quoted hq, hbehind, groupExtent, if_neg hbrackets.1,
              if_neg hbrackets.2, Quoting.next, if_pos hq, groupExtent_inside,
              List.take_succ_cons, List.take_add, ← List.cons_append, utf8Length_append,
              utf8Length_append, Nat.add_assoc]
          · rw [charIndices, pastGroup?, groupExtent]
            split
            · rw [hnext, List.take_succ_cons]
            split
            · rename_i hopen hclose
              by_cases hlast : depth ≤ 1
              · rw [if_pos (by omega), if_pos hlast, hclose]
                rfl
              · rw [if_neg (by omega), if_neg hlast, hnext, List.take_succ_cons]
            · rw [Quoting.next, if_neg hq, hnext, List.take_succ_cons]

theorem groupLength?_eq (t : Text) :
    groupLength? ('#' :: t) = some (utf8Length ('#' :: t.take (groupExtent .outside 0 t))) := by
  have := pastGroup?_eq ['#'] 0 t
  rw [groupLength?, charIndices, pastGroup?, if_neg (by decide), if_neg (by decide),
    if_neg (by decide)]
  exact this

/-! ## Comments -/

/-- The earlier one of a line feed and a `?>` ends the rest of the line. -/
theorem min_findText? (t : Text) :
    min ((findText? ['\n'] t).getD (utf8Length t)) ((findText? "?>" t).getD (utf8Length t)) =
      utf8Length (restOfLine t) := by
  induction t with
  | nil => rfl
  | cons c t ih =>
      rw [findText?, findText?, restOfLine]
      by_cases hlf : c = '\n'
      · rw [if_pos (Or.inl hlf), if_pos (startsWith_singleton_iff.2 hlf), Option.getD_some,
          Nat.zero_min]
        rfl
      by_cases hclose : c = '?' ∧ t.head? = some '>'
      · have hstart : startsWith "?>" (c :: t) = true := startsWith_pair_iff.2 hclose
        rw [if_pos (Or.inr hclose), if_pos hstart, Option.getD_some, Nat.min_zero]
        rfl
      · have hno : ¬ startsWith "?>" (c :: t) = true := mt startsWith_pair_iff.1 hclose
        rw [if_neg (not_or.2 ⟨hlf, hclose⟩), if_neg (mt startsWith_singleton_iff.1 hlf),
          if_neg hno, getD_map_utf8Size, getD_map_utf8Size, utf8Length_cons, ← ih]
        omega

theorem dropSuffix?_cr_cons {c : Char} (hc : c ≠ '\r') (t : Text) :
    dropSuffix? ['\r'] (c :: t) = (dropSuffix? ['\r'] t).map (c :: ·) := by
  cases h : dropSuffix? ['\r'] t with
  | some front =>
      rw [Option.map_some, dropSuffix?_eq_some_iff, dropSuffix?_eq_some_iff.1 h]
      rfl
  | none =>
      rw [Option.map_none, Option.eq_none_iff_forall_ne_some]
      intro front hfront
      rw [dropSuffix?_eq_some_iff] at hfront
      cases front with
      | nil => exact hc (List.cons.inj hfront).1
      | cons d front =>
          rw [dropSuffix?_eq_some_iff.2 (List.cons.inj hfront).2] at h
          cases h

theorem lineCommentLength?_eq {c : Char} (hc : c = '#' ∨ c = '/') (t : Text) :
    lineCommentLength? (c :: t) = some (utf8Length (c :: t.take (lineCommentExtent t))) := by
  have hline : restOfLine (c :: t) = c :: restOfLine t := by
    rw [restOfLine, if_neg]
    rcases hc with rfl | rfl <;> simp
  have hcr : c ≠ '\r' := by rcases hc with rfl | rfl <;> decide
  have hpos : 0 < utf8Length (c :: restOfLine t) := by
    have := c.utf8Size_pos
    rw [utf8Length_cons]
    omega
  obtain ⟨hbegins, _⟩ := restOfLine_prefix t
  have htake : takeBytes? (utf8Length (c :: restOfLine t)) (c :: t) = some (c :: restOfLine t) :=
    takeBytes?_of_isPrefix (List.cons_prefix_cons.2 ⟨rfl, hbegins⟩)
  simp only [lineCommentLength?, min_findText?, hline, htake, Option.bind_eq_bind,
    Option.bind_some, hpos, true_and, endsWith, dropSuffix?_cr_cons hcr, Option.isSome_map,
    lineCommentExtent, Option.pure_def, Option.some.injEq]
  cases hfront : dropSuffix? ['\r'] (restOfLine t) with
  | none =>
      rw [if_neg (by simp), Option.getD_none, ← List.prefix_iff_eq_take.1 hbegins]
  | some front =>
      have heq := dropSuffix?_eq_some_iff.1 hfront
      rw [heq] at hbegins
      have hfrontBegins : front <+: t := (List.prefix_append front ['\r']).trans hbegins
      rw [if_pos (Option.isSome_some ..), Option.getD_some,
        ← List.prefix_iff_eq_take.1 hfrontBegins, heq, utf8Length_cons, utf8Length_append]
      exact Nat.add_sub_cancel (n := c.utf8Size + utf8Length front) (m := 1)

/-- A text up to and with the first occurrence of `p`. -/
theorem take_find? {p t : Text} {n : Nat} (h : find? p t = some n) :
    t.take (n + p.length) = t.take n ++ p := by
  obtain ⟨r, hr⟩ := find?_eq_some h
  have hcut : t.take n ++ t.drop n = t.take n ++ (p ++ r) := by
    rw [List.take_append_drop, ← List.append_assoc]
    exact hr
  rw [List.take_add, List.append_cancel_left hcut, List.take_left]

theorem commentLength?_eq (t : Text) :
    commentLength? ('/' :: '*' :: t) =
      some (utf8Length ('/' :: '*' :: t.take (commentExtent t))) := by
  have hinside : dropBytes? 2 ('/' :: '*' :: t) = some t := dropBytes?_append ['/', '*'] t
  rw [commentLength?, hinside, commentExtent]
  simp only [Option.bind_eq_bind, Option.bind_some, Option.pure_def, findText?_eq]
  cases hfind : find? ['*', '/'] t with
  | none => rw [Option.map_none, List.take_length]
  | some n =>
      have htake : t.take (n + 2) = t.take n ++ ['*', '/'] := take_find? hfind
      have hsize : utf8Length ['*', '/'] = 2 := rfl
      have hopen : utf8Length ['/', '*'] = 2 := rfl
      rw [Option.map_some, htake]
      show some (utf8Length (t.take n) + 4) =
        some (utf8Length (['/', '*'] ++ (t.take n ++ ['*', '/'])))
      rw [utf8Length_append, utf8Length_append, hsize, hopen, Nat.add_comm 2, Nat.add_assoc]

/-! ## Heredocs -/

/-- A label closes a heredoc where the line, without its indent, starts with it. -/
theorem closingLabel?_eq (label line : Text) :
    closingLabel? label line =
      if (dropPrefix? label (trimStart line)).any fun behind => !behind.head?.any isWordChar then
        some ((line.takeWhile isBlank).length + label.length)
      else none := by
  rw [closingLabel?, drop_takeWhile_length, trimStart, trimStartOf]
  cases dropPrefix? label (line.dropWhile isBlank) with
  | none => rfl
  | some behind => cases hword : behind.head?.any isWordChar <;> simp [hword]

theorem pastLabel?_eq (label : Text) (offset : Nat) (ls : List Text) :
    (pastLabel? label offset ls).getD (offset + utf8Length ls.flatten) =
      offset + utf8Length (ls.flatten.take (heredocBodyExtent label ls)) := by
  induction ls generalizing offset with
  | nil => rfl
  | cons line ls ih =>
      rw [pastLabel?, heredocBodyExtent, closingLabel?_eq, List.flatten_cons]
      by_cases hcloses : (dropPrefix? label (trimStart line)).any
          (fun behind => !behind.head?.any isWordChar) = true
      · obtain ⟨behind, hbehind, _⟩ := (Option.any_eq_true _ _).1 hcloses
        -- the line is its indent, the label and what stands behind it
        have hline : line.takeWhile isBlank ++ trimStart line = line :=
          List.takeWhile_append_dropWhile
        have hindent : utf8Length line - utf8Length (trimStart line) =
            utf8Length (line.takeWhile isBlank) := by
          have := congrArg utf8Length hline
          rw [utf8Length_append] at this
          omega
        have hfront : line.takeWhile isBlank ++ label <+: line ++ ls.flatten := by
          refine ⟨behind ++ ls.flatten, ?_⟩
          rw [List.append_assoc, ← List.append_assoc label, ← dropPrefix?_eq_some_iff.1 hbehind,
            ← List.append_assoc, hline]
        rw [if_pos hcloses, if_pos hcloses, Option.getD_some, hindent]
        show _ = offset + utf8Length ((line ++ ls.flatten).take
          ((line.takeWhile isBlank).length + label.length))
        rw [← List.length_append, ← List.prefix_iff_eq_take.1 hfront, utf8Length_append,
          Nat.add_assoc]
      · rw [if_neg hcloses, if_neg hcloses, utf8Length_append, ← Nat.add_assoc, ih,
          List.take_length_add_append, utf8Length_append, Nat.add_assoc]

theorem spanBytes_eq_utf8Length_iff (p : Char → Bool) (t : Text) :
    spanBytes p t = utf8Length t ↔ (t.takeWhile p).length = t.length := by
  rw [spanBytes_eq, utf8Length_eq_iff_of_isPrefix (List.takeWhile_prefix p)]

/-- The first line of a heredoc ends behind the three angles, which are no line feed. -/
theorem findText?_header (t : Text) :
    findText? ['\n'] ('<' :: '<' :: '<' :: t) =
      (find? ['\n'] t).map fun n => 3 + utf8Length (t.take n) := by
  have hstart (u : Text) : ¬ startsWith ['\n'] ('<' :: u) = true :=
    mt startsWith_singleton_iff.1 (by decide)
  rw [findText?, if_neg (hstart _), findText?, if_neg (hstart _), findText?, if_neg (hstart _),
    findText?_eq]
  cases find? ['\n'] t with
  | none => rfl
  | some n =>
      show some (1 + (1 + (1 + utf8Length (t.take n)))) = some (3 + utf8Length (t.take n))
      rw [← Nat.add_assoc, ← Nat.add_assoc]

/-- Whether the word characters run to the end of the label is the same in bytes and characters. -/
theorem label_bne_eq (label : Text) :
    (spanBytes isWordChar label != utf8Length label) = (wordLength label != label.length) := by
  rw [Bool.eq_iff_iff, bne_iff_ne, bne_iff_ne]
  exact not_congr (spanBytes_eq_utf8Length_iff isWordChar label)

theorem heredocLength?_eq (t : Text) :
    heredocLength? ('<' :: '<' :: '<' :: t) =
      some ((heredocExtent? t).map fun n => utf8Length ('<' :: '<' :: '<' :: t.take n)) := by
  rw [heredocLength?, heredocExtent?, findText?_header]
  cases hfind : find? ['\n'] t with
  | none => rfl
  | some n =>
      have hline : t.take (n + 1) = t.take n ++ ['\n'] := take_find? hfind
      have hbytes : utf8Length (['<', '<', '<'] ++ t.take (n + 1)) =
          3 + utf8Length (t.take n) + 1 := by
        rw [hline, utf8Length_append, utf8Length_append]
        rfl
      have hheader : slice? 3 (3 + utf8Length (t.take n)) ('<' :: '<' :: '<' :: t) =
          some (t.take n) := by
        have := slice?_append ['<', '<', '<'] (t.take n) (t.drop n)
        rwa [List.take_append_drop] at this
      have hbody : dropBytes? (3 + utf8Length (t.take n) + 1) ('<' :: '<' :: '<' :: t) =
          some (t.drop (n + 1)) := by
        have := dropBytes?_append (['<', '<', '<'] ++ t.take (n + 1)) (t.drop (n + 1))
        rwa [List.append_assoc, List.take_append_drop, hbytes] at this
      -- bytes of a beginning that holds the whole first line
      have hlines (m : Nat) : utf8Length ('<' :: '<' :: '<' :: t.take (n + 1 + m)) =
          3 + utf8Length (t.take n) + 1 + utf8Length ((t.drop (n + 1)).take m) := by
        rw [List.take_add, ← hbytes, ← utf8Length_append, List.append_assoc]
        rfl
      have hall : utf8Length ('<' :: '<' :: '<' :: t) =
          3 + utf8Length (t.take n) + 1 + utf8Length (t.drop (n + 1)) := by
        rw [← hbytes, ← utf8Length_append, List.append_assoc, List.take_append_drop]
        rfl
      simp only [Option.map_some, hheader, hbody, hall, heredocLabel?, Option.bind_eq_bind,
        Option.bind_some, Option.pure_def]
      generalize trimOf (fun c => c == '"' || c == '\'') (trim (t.take n)) = label
      rw [label_bne_eq]
      split
      · rfl
      · have hend := pastLabel?_eq label (3 + utf8Length (t.take n) + 1) (pieces (t.drop (n + 1)))
        rw [flatten_pieces] at hend
        rw [Option.map_some, Option.map_some, hlines, hend]

/-! ## Open tags -/

theorem utf8Size_toLower (c : Char) : c.toLower.utf8Size = c.utf8Size := by
  unfold Char.toLower
  split
  · rename_i h
    have hc : c.val.toNat ≤ 90 := UInt32.le_iff_toNat_le.1 h.2
    have hlow : c.utf8Size = 1 := by
      rw [Char.utf8Size_eq_one_iff, UInt32.le_iff_toNat_le]
      exact hc.trans (by decide)
    rw [hlow, Char.utf8Size_eq_one_iff, UInt32.le_iff_toNat_le, UInt32.toNat_add]
    refine (Nat.mod_le _ _).trans ?_
    show c.val.toNat + 32 ≤ 127
    omega
  · rfl

theorem utf8Length_lower (t : Text) : utf8Length (lower t) = utf8Length t := by
  induction t with
  | nil => rfl
  | cons c t ih =>
      show c.toLower.utf8Size + utf8Length (lower t) = c.utf8Size + utf8Length t
      rw [utf8Size_toLower, ih]

theorem sameLetters_openTag (u : Text) : sameLetters ('<' :: u) "<?php" = sameLetters u "?php" := by
  have hcons (v : Text) : lower ('<' :: v) = '<' :: lower v := rfl
  have htag : ("<?php" : Text) = '<' :: "?php" := by decide
  rw [Bool.eq_iff_iff, sameLetters, beq_iff_eq, htag, hcons, hcons, List.cons_inj_right,
    sameLetters, beq_iff_eq]

/-- The first five bytes are the long tag exactly if the first five characters are. -/
theorem any_takeBytes?_five (t : Text) :
    (takeBytes? 5 ('<' :: t)).any (sameLetters · "<?php") = sameLetters (t.take 4) "?php" := by
  rw [Bool.eq_iff_iff, Option.any_eq_true]
  constructor
  · rintro ⟨s, hs, hsame⟩
    obtain ⟨⟨s, r⟩, hsplit, rfl⟩ := Option.map_eq_some_iff.1 hs
    have heq := (splitBytes?_eq_some_iff.1 hsplit).1
    cases s with
    | nil => cases hsame
    | cons d u =>
        obtain ⟨rfl, rfl⟩ := List.cons.inj heq
        have hu : sameLetters u "?php" = true := by rwa [← sameLetters_openTag]
        have hlength : u.length = 4 := by
          have := congrArg List.length (beq_iff_eq.1 hu)
          rwa [lower, List.length_map] at this
        rwa [← hlength, List.append_eq, List.take_left]
  · intro hsame
    have hfive : utf8Length ('<' :: t.take 4) = 5 := by
      rw [utf8Length_cons, ← utf8Length_lower, beq_iff_eq.1 hsame]
      rfl
    refine ⟨'<' :: t.take 4, ?_, by rwa [sameLetters_openTag]⟩
    rw [← hfive]
    exact takeBytes?_of_isPrefix (List.cons_prefix_cons.2 ⟨rfl, List.take_prefix 4 t⟩)

/-- The tag without its line break has as many bytes as characters. -/
theorem openTag_bytes {t : Text} (h : t.head? = some '?') {tag : Nat}
    (htag : tag = if sameLetters (t.take 4) "?php" then 4
      else if startsWith "?=" t then 2 else 1) :
    (if (takeBytes? 5 ('<' :: t)).any (sameLetters · "<?php") then 5
      else if startsWith "<?=" ('<' :: t) then 3 else 2) = tag + 1 ∧
    utf8Length (t.take tag) = tag := by
  have hstart : startsWith "<?=" ('<' :: t) = startsWith "?=" t := rfl
  rw [any_takeBytes?_five, hstart]
  split at htag
  · rename_i hphp
    subst htag
    rw [if_pos hphp, ← utf8Length_lower, beq_iff_eq.1 hphp]
    exact ⟨rfl, rfl⟩
  rename_i hphp
  rw [if_neg hphp]
  split at htag
  · rename_i hecho
    subst htag
    obtain ⟨r, rfl⟩ := startsWith_iff.1 hecho
    exact ⟨rfl, rfl⟩
  · rename_i hecho
    subst htag
    rw [if_neg hecho]
    cases t with
    | nil => cases h
    | cons d t =>
        cases h
        exact ⟨rfl, rfl⟩

theorem utf8Length_lineBreak (t : Text) :
    utf8Length (t.take (lineBreakExtent t)) = lineBreakExtent t := by
  unfold lineBreakExtent
  split
  · rename_i h
    obtain ⟨r, rfl⟩ := startsWith_iff.1 h
    rfl
  split
  · rename_i h
    obtain ⟨r, rfl⟩ := startsWith_iff.1 h
    rfl
  · rfl

theorem openTagLength?_eq {t : Text} (h : t.head? = some '?') :
    openTagLength? ('<' :: t) = some (utf8Length ('<' :: t.take (htmlCut '<' t).extra)) := by
  obtain ⟨tag, htag⟩ : ∃ tag, tag = if sameLetters (t.take 4) "?php" then 4
    else if startsWith "?=" t then 2 else 1 := ⟨_, rfl⟩
  have hcut : htmlCut '<' t = ⟨.openTag, tag + lineBreakExtent (t.drop tag), .code⟩ := by
    rw [htag]
    exact if_pos ⟨rfl, h⟩
  obtain ⟨hlength, hbytes⟩ := openTag_bytes h htag
  have hbehind : dropBytes? (tag + 1) ('<' :: t) = some (t.drop tag) := by
    have := dropBytes?_append ('<' :: t.take tag) (t.drop tag)
    rwa [List.cons_append, List.take_append_drop, utf8Length_cons, hbytes, Nat.add_comm] at this
  have hall : utf8Length ('<' :: t.take (tag + lineBreakExtent (t.drop tag))) =
      tag + 1 + lineBreakExtent (t.drop tag) := by
    rw [List.take_add, utf8Length_cons, utf8Length_append, hbytes, utf8Length_lineBreak,
      ← Nat.add_assoc, Nat.add_comm tag]
    rfl
  rw [openTagLength?, hlength, hcut, hall, lineBreakExtent]
  simp only [hbehind, Option.bind_eq_bind, Option.bind_some, Option.pure_def]
  split
  · rfl
  · split <;> rfl

/-! ## Every branch -/

/-- The lexeme `x` of `c :: t`, its kind and its further characters, with its bytes. -/
def measure (c : Char) (t : Text) (x : Kind × Nat) : Kind × Nat :=
  (x.1, utf8Length (c :: t.take x.2))

theorem measure_ite {c : Char} {t : Text} {p q : Prop} [Decidable p] [Decidable q] (hpq : p ↔ q)
    {x y : Option (Kind × Nat)} {x' y' : Kind × Nat} (hx : q → x = some (measure c t x'))
    (hy : ¬ q → y = some (measure c t y')) :
    (if p then x else y) = some (measure c t (if q then x' else y')) := by
  by_cases h : q
  · rw [if_pos (hpq.2 h), if_pos h, hx h]
  · rw [if_neg (mt hpq.1 h), if_neg h, hy h]

theorem startsName?_eq (c : Char) (t : Text) :
    startsName? c (c :: t) = some (decide (c = '$') && t.head?.any isWordStart) := by
  unfold startsName?
  split
  · rename_i hc
    subst hc
    have hbehind : dropBytes? 1 ('$' :: t) = some t := dropBytes?_append ['$'] t
    rw [hbehind]
    rfl
  · rename_i hc
    rw [decide_eq_false hc]
    rfl

/-- A guard that looks at the first two characters. -/
theorem guard_iff {a b c : Char} {t : Text} :
    (c = a ∧ startsWith [a, b] (c :: t) = true) ↔ c = a ∧ t.head? = some b := by
  rw [startsWith_pair_iff, and_self_left]

theorem spanBytes_cons {p : Char → Bool} {c : Char} (hc : p c = true) (t : Text) :
    spanBytes p (c :: t) = utf8Length (c :: t.take (t.takeWhile p).length) := by
  rw [spanBytes_eq, List.takeWhile_cons_of_pos hc, take_takeWhile_length]

theorem commentTurn?_eq {t : Text} (h : t.head? = some '*') :
    (do
      let len ← commentLength? ('/' :: t)
      let comment ← takeBytes? len ('/' :: t)
      return (if isDocBlock comment then Kind.docComment else Kind.blockComment, len)) =
    some (measure '/' t
      (if isDocBlock ('/' :: t.take (commentExtent (t.drop 1) + 1)) then .docComment
        else .blockComment, commentExtent (t.drop 1) + 1)) := by
  cases t with
  | nil => cases h
  | cons d t =>
      cases h
      have htake := takeBytes?_take (commentExtent t + 2) ('/' :: '*' :: t)
      rw [List.take_succ_cons, List.take_succ_cons] at htake
      simp only [commentLength?_eq, Option.bind_eq_bind, Option.bind_some, htake]
      rfl

theorem operatorLength_eq (c : Char) (t : Text) :
    (Kind.punct, operatorLength c (c :: t)) =
      measure c t (match operators.find? (startsWith · (c :: t)) with
        | some op => (.punct, op.length - 1)
        | none => (.punct, 0)) := by
  unfold operatorLength
  split
  · rename_i op hop
    obtain ⟨rest, rfl, hrest, _⟩ := operator_eq hop
    have htake : t.take ((c :: rest).length - 1) = rest := (List.prefix_iff_eq_take.1 hrest).symm
    rw [measure, htake]
  · rfl

theorem markLength_of_not_mem {c : Char}
    (h : c ∉ ['{', '}', '(', ')', '[', ']', ';', ',']) (rest : Text) :
    markLength c rest = (.punct, operatorLength c rest) := by
  unfold markLength
  split <;> first | rfl | exact absurd (by decide) h

/-- **Every branch of code has the bytes of the characters it takes**, one case for each. -/
theorem codeLength?_eq (c : Char) (t : Text) :
    codeLength? c (c :: t) = some (measure c t (codeLexeme c t)) := by
  unfold codeLength? codeLexeme
  refine measure_ite Iff.rfl (fun hblank => ?_) fun _ => ?_
  · rw [spanBytes_cons hblank]
    rfl
  refine measure_ite (guard_iff (b := '[')) (fun hgroup => ?_) fun _ => ?_
  · rw [hgroup.1, groupLength?_eq]
    rfl
  refine measure_ite (or_congr_right (guard_iff (b := '/'))) (fun hline => ?_) fun _ => ?_
  · rw [lineCommentLength?_eq (hline.imp_right And.left)]
    rfl
  refine measure_ite (guard_iff (b := '*')) (fun hcomment => ?_) fun _ => ?_
  · rw [hcomment.1]
    exact commentTurn?_eq hcomment.2
  refine measure_ite Iff.rfl (fun hquote => ?_) fun _ => ?_
  · have hsize : c.utf8Size = 1 := by rcases hquote with rfl | rfl | rfl <;> rfl
    rw [quotedLength_eq hsize]
    rfl
  refine measure_ite (and_congr_right fun hc => by subst hc; rfl) (fun hheredoc => ?_) fun _ => ?_
  · obtain ⟨rfl, hstart⟩ := hheredoc
    obtain ⟨r, rfl⟩ := startsWith_iff.1 hstart
    show (heredocLength? ('<' :: '<' :: '<' :: r)).map _ =
      some (measure '<' ('<' :: '<' :: r) (match heredocExtent? r with
        | some n => (Kind.literal, n + 2)
        | none => (Kind.punct, 2)))
    rw [heredocLength?_eq]
    cases heredocExtent? r <;> rfl
  rw [startsName?_eq]
  simp only [Option.bind_eq_bind, Option.bind_some, Option.pure_def]
  refine measure_ite (by simp) (fun hname => ?_) fun _ => ?_
  · obtain ⟨rfl, _⟩ := hname
    have hbehind : dropBytes? 1 ('$' :: t) = some t := dropBytes?_append ['$'] t
    rw [hbehind, Option.bind_some, spanBytes_eq, ← take_takeWhile_length]
    rfl
  refine measure_ite Iff.rfl (fun hword => ?_) fun _ => ?_
  · have hbegins : c :: t.take (wordLength t) <+: c :: t :=
      List.cons_prefix_cons.2 ⟨rfl, List.take_prefix _ t⟩
    have htake := takeBytes?_of_isPrefix hbegins
    rw [spanBytes_cons (isWordChar_of_isWordStart hword)]
    show (takeBytes? (utf8Length (c :: t.take (wordLength t))) (c :: t)).bind _ = _
    rw [htake]
    rfl
  refine measure_ite Iff.rfl (fun hdigit => ?_) fun _ => ?_
  · have hnumber : (c.isAlphanum || c == '_' || c == '.') = true := by
      simp [Char.isAlphanum, hdigit]
    rw [spanBytes_cons (p := fun d => d.isAlphanum || d == '_' || d == '.') hnumber]
    rfl
  by_cases hmark : c ∈ ['{', '}', '(', ')', '[', ']', ';', ',']
  · simp only [List.mem_cons, List.not_mem_nil, or_false] at hmark
    rcases hmark with rfl | rfl | rfl | rfl | rfl | rfl | rfl | rfl <;> rfl
  · rw [markLength_of_not_mem hmark]
    split <;> first
      | exact absurd (by decide) hmark
      | exact congrArg some (operatorLength_eq c t)

/-! ## Both modes -/

theorem htmlTurn?_eq (c : Char) (t : Text) :
    htmlTurn? (c :: t) = some ⟨(htmlCut c t).kind, utf8Length (c :: t.take (htmlCut c t).extra),
      (htmlCut c t).mode⟩ := by
  rw [htmlTurn?, findText?]
  by_cases h : c = '<' ∧ t.head? = some '?'
  · have hkind : (htmlCut c t).kind = .openTag ∧ (htmlCut c t).mode = .code := by
      rw [htmlCut, if_pos h]
      exact ⟨rfl, rfl⟩
    have hstart : startsWith "<?" (c :: t) = true := startsWith_pair_iff.2 h
    obtain ⟨rfl, hhead⟩ := h
    rw [if_pos hstart]
    simp only [openTagLength?_eq hhead, Option.map_some, hkind]
  · have hno : ¬ startsWith "<?" (c :: t) = true := mt startsWith_pair_iff.1 h
    have hpos := c.utf8Size_pos
    rw [if_neg hno, htmlCut, if_neg h, findText?_eq]
    cases hfind : find? "<?" t with
    | none =>
        show some (Turn.mk .html (utf8Length (c :: t)) .html) =
          some ⟨.html, utf8Length (c :: t.take t.length), .html⟩
        rw [List.take_length]
    | some n =>
        obtain ⟨m, hm⟩ : ∃ m, utf8Length (c :: t.take n) = m + 1 :=
          ⟨utf8Length (c :: t.take n) - 1, by rw [utf8Length_cons]; omega⟩
        have hfound : (((some n).map fun n => utf8Length (t.take n)).map (c.utf8Size + ·)) =
            some (m + 1) := congrArg some hm
        rw [hfound]
        show some (Turn.mk .html (m + 1) .html) =
          some ⟨.html, utf8Length (c :: t.take n), .html⟩
        rw [hm]

/-- **No slice fails, and every branch takes the bytes of the characters that `cut` takes.** -/
theorem turn?_eq (mode : Mode) (c : Char) (t : Text) :
    turn? mode (c :: t) = some ⟨(cut mode c t).kind, utf8Length (c :: t.take (cut mode c t).extra),
      (cut mode c t).mode⟩ := by
  cases mode with
  | html => exact htmlTurn?_eq c t
  | code =>
      show codeTurn? (c :: t) = some ⟨(codeCut c t).kind,
        utf8Length (c :: t.take (codeCut c t).extra), (codeCut c t).mode⟩
      rw [codeTurn?, codeCut]
      by_cases h : c = '?' ∧ t.head? = some '>'
      · have hstart : startsWith "?>" (c :: t) = true := startsWith_pair_iff.2 h
        rw [if_pos hstart, if_pos h]
        obtain ⟨rfl, hhead⟩ := h
        obtain ⟨u, rfl⟩ := List.head?_eq_some_iff.1 hhead
        rfl
      · have hno : ¬ startsWith "?>" (c :: t) = true := mt startsWith_pair_iff.1 h
        rw [if_neg hno, if_neg h, codeLength?_eq]
        rfl

end Bytewise

end Token

end DocLint
