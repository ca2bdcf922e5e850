import DocLint.Proofs.Closing
import DocLint.Proofs.Position

/-!
# What lexemes look like

The lexical grammar of code: `Reads k s rest` says that `s`, with `rest` after it, is a lexeme of
the kind `k`. Whatever the lexer cuts off is one, and so every token of a source obeys its kind; a
token that is not closed is the last one.

* `Reads`, `reads_codeLexeme`: the grammar, and one step of the lexer.
* `lexemes_split`: each lexeme of a text is cut off from what the ones before it leave.
* `tokens_obey_kinds`: the texts of the tokens of a source, by kind.
-/

namespace DocLint

open Text

/-- Brackets, separators, operators and single characters. -/
def Kind.isMark : Kind → Bool
  | openBrace | closeBrace | openParen | closeParen | openBracket | closeBracket
  | semicolon | comma | punct => true
  | _ => false

namespace Token

/-- A name that does not go on after its end. -/
structure IsWord (s rest : Text) : Prop where
  start : s.head?.any isWordStart = true
  chars : ∀ c ∈ s, isWordChar c = true
  stops : rest.head?.any isWordChar = false

/-- The beginning of a documentation block. -/
def OpensDoc (s : Text) : Prop :=
  ∃ c r, s = ['/', '*', '*'] ++ c :: r ∧ (isBlank c = true ∨ c = '*')

/-- No `?>` starts in `s` when `rest` follows it. -/
def NoCloseTag (s rest : Text) : Prop := ¬ ['?', '>'] <:+: s ++ rest.take 1

/-- The lexemes of code. -/
inductive Reads : Kind → Text → Text → Prop where
  | blank {s rest : Text} (h : ∀ c ∈ s, isBlank c = true) : Reads .blank s rest
  | group {s rest : Text} (hopen : ['#', '['] <+: s) (h : Ends IsGroup s rest) :
      Reads .attributeGroup s rest
  | lineComment {s rest : Text} (hline : '\n' ∉ s) (h : NoCloseTag s rest) :
      Reads .lineComment s rest
  | docComment {s rest : Text} (hopen : ['/', '*'] <+: s) (h : Ends IsComment s rest)
      (hdoc : OpensDoc s) : Reads .docComment s rest
  | blockComment {s rest : Text} (hopen : ['/', '*'] <+: s) (h : Ends IsComment s rest)
      (hdoc : ¬ OpensDoc s) : Reads .blockComment s rest
  | quoted {q : Char} {s rest : Text} (hq : q = '\'' ∨ q = '"' ∨ q = '\x60') (hopen : [q] <+: s)
      (h : Ends (IsQuoted q) s rest) : Reads .literal s rest
  | heredoc {header label s rest : Text} (hline : '\n' ∉ header) (hlabel : IsLabel header label)
      (hopen : ['<', '<', '<'] ++ header ++ ['\n'] <+: s)
      (h : Ends (IsHeredoc header label) s rest) : Reads .literal s rest
  | dollarName {s rest : Text} (h : IsWord s rest) : Reads .dollarName ('$' :: s) rest
  | keyword {s rest : Text} (h : IsWord s rest) (hreserved : lower s ∈ reservedWords) :
      Reads .keyword s rest
  | name {s rest : Text} (h : IsWord s rest) (hreserved : lower s ∉ reservedWords) :
      Reads .name s rest
  | number {s rest : Text} (h : '?' ∉ s) : Reads .number s rest
  | mark {k : Kind} {s rest : Text} (hkind : k.isMark = true) (h : NoCloseTag s rest) :
      Reads k s rest

/-! ## Close tags -/

theorem noCloseTag_of_not_mem {s : Text} (h : '?' ∉ s) (rest : Text) : NoCloseTag s rest := by
  rintro ⟨a, b, heq⟩
  have hlength := congrArg List.length heq
  simp only [List.length_append, List.length_cons, List.length_nil, List.length_take] at hlength
  have hmem : (s ++ rest.take 1)[a.length]? = some '?' := by
    rw [← heq, List.append_assoc, List.getElem?_append_right (Nat.le_refl _), Nat.sub_self]
    rfl
  rw [List.getElem?_append_left (by omega)] at hmem
  exact h (List.mem_of_getElem? hmem)

theorem noCloseTag_cons {c : Char} {s rest : Text} (h : NoCloseTag s rest)
    (hc : ¬ (c = '?' ∧ (s ++ rest).head? = some '>')) : NoCloseTag (c :: s) rest := by
  intro hinside
  rcases List.infix_cons_iff.1 hinside with hbegins | hinside
  · obtain ⟨hmark, r, hr⟩ := List.cons_prefix_cons.1 hbegins
    have hhead : some '>' = (s ++ rest.take 1).head? := congrArg List.head? hr
    refine hc ⟨hmark.symm, ?_⟩
    rw [hhead]
    cases s with
    | nil => cases rest <;> rfl
    | cons d s => rfl
  · exact h hinside

/-- The rest of a line ends before the first `?>`. -/
theorem noCloseTag_restOfLine (t : Text) :
    NoCloseTag (restOfLine t) (t.drop (restOfLine t).length) := by
  induction t with
  | nil => exact noCloseTag_of_not_mem List.not_mem_nil _
  | cons c t ih =>
      rw [restOfLine]
      split
      · exact noCloseTag_of_not_mem List.not_mem_nil _
      · rename_i hc
        refine noCloseTag_cons ih fun hclose => hc (Or.inr ⟨hclose.1, ?_⟩)
        obtain ⟨hbegins, _⟩ := restOfLine_prefix t
        have hsplit : restOfLine t ++ t.drop (restOfLine t).length = t := by
          conv_lhs => rw [List.prefix_iff_eq_take.1 hbegins]
          rw [List.length_take, Nat.min_eq_left (restOfLine_length_le t), List.take_append_drop]
        simpa only [List.length_cons, List.drop_succ_cons, hsplit] using hclose.2

/-- A beginning of a text in which no `?>` starts is another one. -/
theorem NoCloseTag.take {t : Text} {m n : Nat} (h : NoCloseTag (t.take n) (t.drop n))
    (hmn : m ≤ n) : NoCloseTag (t.take m) (t.drop m) := by
  intro hinside
  refine h (hinside.trans (List.IsPrefix.isInfix ?_))
  rw [← List.take_add, ← List.take_add]
  exact List.take_prefix_take_left (by omega)

theorem noCloseTag_lineComment (t : Text) :
    NoCloseTag (t.take (lineCommentExtent t)) (t.drop (lineCommentExtent t)) ∧
      '\n' ∉ t.take (lineCommentExtent t) := by
  obtain ⟨hbegins, hlf⟩ := restOfLine_prefix t
  have hline : restOfLine t = t.take (restOfLine t).length := List.prefix_iff_eq_take.1 hbegins
  have hle : lineCommentExtent t ≤ (restOfLine t).length := by
    show ((dropSuffix? ['\r'] (restOfLine t)).getD (restOfLine t)).length ≤ _
    cases hcr : dropSuffix? ['\r'] (restOfLine t) with
    | none => exact Nat.le_refl _
    | some line =>
        rw [dropSuffix?_eq_some_iff.1 hcr, List.length_append]
        exact Nat.le_add_right _ _
  constructor
  · refine NoCloseTag.take (n := (restOfLine t).length) ?_ hle
    rw [← hline]
    exact noCloseTag_restOfLine t
  · intro hmem
    refine hlf ?_
    rw [hline]
    exact (List.take_prefix_take_left hle).mem hmem

/-! ## One step -/

/-- The lexeme at the front of `c :: t` is `x`, by kind and further characters. -/
def ReadsAt (c : Char) (t : Text) (x : Kind × Nat) : Prop :=
  Reads x.1 (c :: t.take x.2) (t.drop x.2)

theorem readsAt_ite {c : Char} {t : Text} {p : Prop} [Decidable p] {x y : Kind × Nat}
    (hx : p → ReadsAt c t x) (hy : ¬ p → ReadsAt c t y) : ReadsAt c t (if p then x else y) := by
  by_cases h : p
  · rw [if_pos h]
    exact hx h
  · rw [if_neg h]
    exact hy h

theorem take_takeWhile_length (p : Char → Bool) (t : Text) :
    t.take (t.takeWhile p).length = t.takeWhile p :=
  (List.prefix_iff_eq_take.1 (List.takeWhile_prefix p)).symm

theorem drop_takeWhile_length (p : Char → Bool) (t : Text) :
    t.drop (t.takeWhile p).length = t.dropWhile p := by
  calc t.drop (t.takeWhile p).length
      = (t.takeWhile p ++ t.dropWhile p).drop (t.takeWhile p).length := by
        rw [List.takeWhile_append_dropWhile]
    _ = t.dropWhile p := List.drop_left

/-- The longest run of word characters does not go on. -/
theorem isWord_take {t : Text} (h : t.head?.any isWordStart = true) :
    IsWord (t.take (wordLength t)) (t.drop (wordLength t)) := by
  unfold wordLength
  rw [take_takeWhile_length, drop_takeWhile_length]
  refine ⟨?_, fun c hc => List.mem_takeWhile_imp hc, ?_⟩
  · cases t with
    | nil => cases h
    | cons c t =>
        have hc : isWordStart c = true := h
        rw [List.takeWhile_cons_of_pos (isWordChar_of_isWordStart hc)]
        exact h
  · have := List.head?_dropWhile_not isWordChar t
    cases hd : (t.dropWhile isWordChar).head? with
    | none => rfl
    | some c =>
        rw [hd] at this
        simpa using this

theorem isDocBlock_iff {s : Text} : isDocBlock s = true ↔ OpensDoc s := by
  unfold isDocBlock OpensDoc
  cases hrest : dropPrefix? "/**" s with
  | none =>
      refine iff_of_false (by simp) ?_
      rintro ⟨c, r, rfl, _⟩
      have hsome : dropPrefix? "/**" (['/', '*', '*'] ++ c :: r) = some (c :: r) :=
        dropPrefix?_eq_some_iff.2 rfl
      rw [hsome] at hrest
      cases hrest
  | some rest =>
      have hs : s = ['/', '*', '*'] ++ rest := dropPrefix?_eq_some_iff.1 hrest
      cases rest with
      | nil =>
          refine iff_of_false (by simp) ?_
          rintro ⟨c, r, heq, _⟩
          simp [hs] at heq
      | cons c rest =>
          subst hs
          simp only [Bool.or_eq_true, beq_iff_eq]
          constructor
          · exact fun h => ⟨c, rest, rfl, h⟩
          · rintro ⟨d, r, heq, h⟩
            obtain ⟨rfl, _⟩ := List.cons.inj (List.append_cancel_left heq)
            exact h

theorem readsAt_comment {c : Char} {t : Text} (h : c = '/' ∧ t.head? = some '*') :
    ReadsAt c t (if isDocBlock (c :: t.take (commentExtent (t.drop 1) + 1)) then .docComment
      else .blockComment, commentExtent (t.drop 1) + 1) := by
  obtain ⟨rfl, hhead⟩ := h
  obtain ⟨u, rfl⟩ := List.head?_eq_some_iff.1 hhead
  show Reads (if isDocBlock ('/' :: ('*' :: u).take (commentExtent u + 1)) then .docComment
    else .blockComment) _ _
  split
  · rename_i hdoc
    exact Reads.docComment ⟨_, rfl⟩ (ends_comment u) (isDocBlock_iff.1 hdoc)
  · rename_i hdoc
    exact Reads.blockComment ⟨_, rfl⟩ (ends_comment u) (mt isDocBlock_iff.2 hdoc)

theorem readsAt_heredoc {c : Char} {t : Text} (h : c = '<' ∧ startsWith "<<" t = true) :
    ReadsAt c t (match heredocExtent? (t.drop 2) with
      | some n => (.literal, n + 2)
      | none => (.punct, 2)) := by
  obtain ⟨rfl, hstart⟩ := h
  obtain ⟨u, rfl⟩ := startsWith_iff.1 hstart
  show ReadsAt '<' ('<' :: '<' :: u) (match heredocExtent? u with
    | some n => (.literal, n + 2)
    | none => (.punct, 2))
  split
  · rename_i n hn
    rcases find?_lf u with ⟨_, hnone⟩ | ⟨header, r, rfl, hheader, hsome⟩
    · rw [heredocExtent?, hnone] at hn
      cases hn
    · have hdrop : (header ++ '\n' :: r).drop (header.length + 1) = r := by simp
      simp only [heredocExtent?, hsome, List.take_left, hdrop] at hn
      obtain ⟨label, hlabel, rfl⟩ := Option.map_eq_some_iff.1 hn
      have hlabel := isLabel_of_heredocLabel? hlabel
      have htake : ∀ m, (header ++ '\n' :: r).take (header.length + 1 + m) =
          header ++ ['\n'] ++ r.take m := by
        intro m
        rw [List.append_cons, ← List.length_singleton (a := '\n'), ← List.length_append,
          List.take_length_add_append]
      have hrest : ∀ m, (header ++ '\n' :: r).drop (header.length + 1 + m) = r.drop m := by
        intro m
        rw [← List.drop_drop, hdrop]
      refine Reads.heredoc hheader hlabel (s := '<' :: ('<' :: '<' :: _).take _) ?_ ?_
      · simp only [List.take_succ_cons, htake]
        exact ⟨r.take (heredocBodyExtent label (pieces r)), by simp⟩
      · have hends := ends_heredoc hlabel r
        simp only [List.take_succ_cons, List.drop_succ_cons, htake, hrest]
        simpa only [List.cons_append, List.nil_append, List.append_assoc] using hends
  · exact Reads.mark rfl (noCloseTag_of_not_mem (by simp) _)

/-- Brackets and operators: `?` before `>` is no lexeme of code, and `?->` holds no `?>`. -/
theorem readsAt_mark {c : Char} {t : Text} (h : ¬ (c = '?' ∧ t.head? = some '>')) :
    ReadsAt c t (match operators.find? (startsWith · (c :: t)) with
      | some op => (.punct, op.length - 1)
      | none => (.punct, 0)) := by
  split
  · rename_i op hop
    obtain ⟨rest, rfl, hrest, _⟩ := operator_eq hop
    have htail : ∀ op ∈ operators, '?' ∉ op.tail := by decide
    have hno := htail _ (List.mem_of_find?_eq_some hop)
    have htake : t.take rest.length = rest := (List.prefix_iff_eq_take.1 hrest).symm
    refine Reads.mark rfl (noCloseTag_cons (noCloseTag_of_not_mem ?_ _) ?_)
    · show '?' ∉ t.take rest.length
      rwa [htake]
    · rwa [List.take_append_drop]
  · refine Reads.mark rfl (noCloseTag_cons (noCloseTag_of_not_mem List.not_mem_nil _) ?_)
    simpa using h

/-- What the lexer cuts off in code is a lexeme of its kind, one case for each of them. -/
theorem reads_codeLexeme {c : Char} {t : Text} (h : ¬ (c = '?' ∧ t.head? = some '>')) :
    ReadsAt c t (codeLexeme c t) := by
  unfold codeLexeme
  refine readsAt_ite (fun hblank => ?_) fun _ => ?_
  · refine Reads.blank fun d hd => ?_
    simp only [take_takeWhile_length] at hd
    rcases List.mem_cons.1 hd with rfl | hd
    · exact hblank
    · exact List.mem_takeWhile_imp hd
  refine readsAt_ite (fun hopen => ?_) fun _ => ?_
  · obtain ⟨rfl, hhead⟩ := hopen
    obtain ⟨u, rfl⟩ := List.head?_eq_some_iff.1 hhead
    refine Reads.group ?_ (ends_group u)
    rw [groupExtent, if_pos rfl]
    exact ⟨_, rfl⟩
  refine readsAt_ite (fun hopen => ?_) fun _ => ?_
  · obtain ⟨hclose, hlf⟩ := noCloseTag_lineComment t
    have hc : c ≠ '?' ∧ '\n' ≠ c := by
      rcases hopen with rfl | ⟨rfl, _⟩ <;> decide
    refine Reads.lineComment (fun hmem => ?_) (noCloseTag_cons hclose fun hmark => hc.1 hmark.1)
    rcases List.mem_cons.1 hmem with heq | hmem
    · exact hc.2 heq
    · exact hlf hmem
  refine readsAt_ite readsAt_comment fun _ => ?_
  refine readsAt_ite (fun hq => ?_) fun _ => ?_
  · have hslash : c ≠ '\\' := by
      rcases hq with rfl | rfl | rfl <;> decide
    exact Reads.quoted hq ⟨_, rfl⟩ (ends_quoted hslash t)
  refine readsAt_ite readsAt_heredoc fun _ => ?_
  refine readsAt_ite (fun hdollar => ?_) fun _ => ?_
  · obtain ⟨rfl, hstart⟩ := hdollar
    exact Reads.dollarName (isWord_take hstart)
  refine readsAt_ite (fun hstart => ?_) fun _ => ?_
  · have hword : IsWord (c :: t.take (wordLength t)) (t.drop (wordLength t)) := by
      have := isWord_take (t := c :: t) hstart
      rwa [wordLength, List.takeWhile_cons_of_pos (isWordChar_of_isWordStart hstart)] at this
    show Reads (if isReserved (c :: t.take (wordLength t)) then .keyword else .name) _ _
    split
    · rename_i hreserved
      exact Reads.keyword hword (List.contains_iff_mem.1 hreserved)
    · rename_i hreserved
      exact Reads.name hword (mt List.contains_iff_mem.2 hreserved)
  refine readsAt_ite (fun hdigit => ?_) fun _ => ?_
  · refine Reads.number fun hmem => ?_
    simp only [take_takeWhile_length] at hmem
    rcases List.mem_cons.1 hmem with rfl | hmem
    · exact absurd hdigit (by decide)
    · exact absurd (List.mem_takeWhile_imp hmem) (by decide)
  split <;> try exact Reads.mark rfl (noCloseTag_of_not_mem (by simp) _)
  exact readsAt_mark h

/-! ## All steps -/

/-- Each lexeme of a text is cut off from what the ones before it leave. -/
theorem lexemes_split {mode : Mode} {s : Text} {before after : List Lexeme} {l : Lexeme}
    (h : lexemes mode s = before ++ l :: after) :
    ∃ m c t, l = ⟨(cut m c t).kind, c :: t.take (cut m c t).extra⟩ ∧
      after = lexemes (cut m c t).mode (t.drop (cut m c t).extra) := by
  induction before generalizing mode s with
  | nil =>
      cases s with
      | nil => cases h
      | cons c t =>
          rw [lexemes_cons] at h
          obtain ⟨hl, hafter⟩ := List.cons.inj h
          exact ⟨mode, c, t, hl.symm, hafter.symm⟩
  | cons b before ih =>
      cases s with
      | nil => cases h
      | cons c t =>
          rw [lexemes_cons] at h
          exact ih (List.cons.inj h).2

/-- Each token of a source is cut off from its text and the texts of the tokens after it. -/
theorem cut_of_tokenize {source : Text} {before after : List Token} {t : Token}
    (h : tokenize source = before ++ t :: after) :
    ∃ m c u, t.kind = (cut m c u).kind ∧ t.text = c :: u.take (cut m c u).extra ∧
      textOf after = u.drop (cut m c u).extra := by
  have hlexemes : lexemes (startMode source) source =
      before.map toLexeme ++ t.toLexeme :: after.map toLexeme := by
    rw [← map_toLexeme_place 1 0 (lexemes (startMode source) source), ← tokenize, h,
      List.map_append, List.map_cons]
  obtain ⟨m, c, u, hl, hafter⟩ := lexemes_split hlexemes
  refine ⟨m, c, u, congrArg Lexeme.kind hl, congrArg Lexeme.text hl, ?_⟩
  rw [textOf_eq, hafter, flatten_lexemes]

/-- A token is outside of code, a tag, or a lexeme of code before the text of the tokens after. -/
theorem reads_of_tokenize {source : Text} {before after : List Token} {t : Token}
    (h : tokenize source = before ++ t :: after) :
    t.kind = .html ∨ t.kind = .openTag ∨ t.kind = .closeTag ∨
      Reads t.kind t.text (textOf after) := by
  obtain ⟨m, c, u, hkind, htext, hrest⟩ := cut_of_tokenize h
  rw [hkind, htext, hrest]
  cases m with
  | html =>
      show (htmlCut c u).kind = _ ∨ (htmlCut c u).kind = _ ∨ _
      unfold htmlCut
      split
      · exact Or.inr (Or.inl rfl)
      · exact Or.inl rfl
  | code =>
      show (codeCut c u).kind = _ ∨ (codeCut c u).kind = _ ∨ (codeCut c u).kind = _ ∨
        Reads (codeCut c u).kind (c :: u.take (codeCut c u).extra) (u.drop (codeCut c u).extra)
      unfold codeCut
      split
      · exact Or.inr (Or.inr (Or.inl rfl))
      · rename_i hclose
        exact Or.inr (Or.inr (Or.inr (reads_codeLexeme hclose)))

/-! ## Tokens by kind -/

/-- The text of a token is complete at its end and nowhere before. Only the last token of a source
may run to its end without ever being complete. -/
def ClosedOrLast (complete : Text → Text → Prop) (t : Token) (after : List Token) : Prop :=
  (complete t.text (textOf after) ∧
      ∀ n < t.text.length, ¬ complete (t.text.take n) (t.text.drop n ++ textOf after)) ∨
    (after = [] ∧ ∀ n ≤ t.text.length, ¬ complete (t.text.take n) (t.text.drop n))

section Kinds

variable {source : Text} {before after : List Token} {t : Token}
  (htokens : tokenize source = before ++ t :: after)

include htokens

theorem closedOrLast_of_ends {complete : Text → Text → Prop}
    (h : Ends complete t.text (textOf after)) : ClosedOrLast complete t after := by
  refine h.imp_right (And.imp_left fun hrest => ?_)
  cases after with
  | nil => rfl
  | cons u after =>
      rw [textOf_cons, List.append_eq_nil_iff] at hrest
      have hmem : u ∈ tokenize source := by
        rw [htokens]
        simp
      exact absurd hrest.1 (text_ne_nil_of_mem_tokenize hmem)

/-- A token of code is a lexeme of its kind. -/
theorem reads_of_kind {k : Kind} (hk : t.kind = k)
    (hcode : k ≠ .html ∧ k ≠ .openTag ∧ k ≠ .closeTag) : Reads k t.text (textOf after) := by
  rcases reads_of_tokenize htokens with h | h | h | h
  · exact absurd (hk.symm.trans h) hcode.1
  · exact absurd (hk.symm.trans h) hcode.2.1
  · exact absurd (hk.symm.trans h) hcode.2.2
  · rwa [hk] at h

theorem comment_of_kind (hk : t.kind = .blockComment ∨ t.kind = .docComment) :
    ['/', '*'] <+: t.text ∧ ClosedOrLast IsComment t after ∧
      (t.kind = .docComment ↔ OpensDoc t.text) := by
  rcases hk with hk | hk
  · cases reads_of_kind htokens hk (by decide) with
    | blockComment hopen h hdoc =>
        exact ⟨hopen, closedOrLast_of_ends htokens h, iff_of_false (by simp [hk]) hdoc⟩
    | mark hmark _ => cases hmark
  · cases reads_of_kind htokens hk (by decide) with
    | docComment hopen h hdoc =>
        exact ⟨hopen, closedOrLast_of_ends htokens h, iff_of_true hk hdoc⟩
    | mark hmark _ => cases hmark

theorem literal_of_kind (hk : t.kind = .literal) :
    (∃ q, (q = '\'' ∨ q = '"' ∨ q = '\x60') ∧ [q] <+: t.text ∧
        ClosedOrLast (IsQuoted q) t after) ∨
      ∃ header label, '\n' ∉ header ∧ IsLabel header label ∧
        ['<', '<', '<'] ++ header ++ ['\n'] <+: t.text ∧
        ClosedOrLast (IsHeredoc header label) t after := by
  cases reads_of_kind htokens hk (by decide) with
  | quoted hq hopen h => exact Or.inl ⟨_, hq, hopen, closedOrLast_of_ends htokens h⟩
  | heredoc hline hlabel hopen h =>
      exact Or.inr ⟨_, _, hline, hlabel, hopen, closedOrLast_of_ends htokens h⟩
  | mark hmark _ => cases hmark

theorem word_of_kind (hk : t.kind = .name ∨ t.kind = .keyword) :
    IsWord t.text (textOf after) ∧ (t.kind = .keyword ↔ lower t.text ∈ reservedWords) := by
  rcases hk with hk | hk
  · cases reads_of_kind htokens hk (by decide) with
    | name h hreserved => exact ⟨h, iff_of_false (by simp [hk]) hreserved⟩
    | mark hmark _ => cases hmark
  · cases reads_of_kind htokens hk (by decide) with
    | keyword h hreserved => exact ⟨h, iff_of_true hk hreserved⟩
    | mark hmark _ => cases hmark

end Kinds

/-- **Token texts obey their kinds, and only the last token can be unterminated.** A delimited
comment starts with `/*` and ends with its first `*/` from the third character on; it is a
documentation block if it starts with `/**` and a blank or a star. A literal is quoted and ends with
the first quote of its own that is not escaped, or a heredoc and ends with its label on the first
line that holds the label after blanks and no word character behind it. An attribute group ends with
the bracket that balances its first one outside of quoted parts. A line comment holds no line feed
and no `?>`. A name or a keyword starts with an underscore or a letter, consists of word characters
and takes all of them; it is a keyword if it is reserved, in any case of its ASCII letters. A
variable is a dollar sign and such a name. -/
theorem tokens_obey_kinds {source : Text} {before after : List Token} {t : Token}
    (htokens : tokenize source = before ++ t :: after) :
    (t.kind = .blockComment ∨ t.kind = .docComment → ['/', '*'] <+: t.text ∧
      ClosedOrLast IsComment t after ∧ (t.kind = .docComment ↔ OpensDoc t.text)) ∧
    (t.kind = .literal →
      (∃ q, (q = '\'' ∨ q = '"' ∨ q = '\x60') ∧ [q] <+: t.text ∧
        ClosedOrLast (IsQuoted q) t after) ∨
      ∃ header label, '\n' ∉ header ∧ IsLabel header label ∧
        ['<', '<', '<'] ++ header ++ ['\n'] <+: t.text ∧
        ClosedOrLast (IsHeredoc header label) t after) ∧
    (t.kind = .attributeGroup → ['#', '['] <+: t.text ∧ ClosedOrLast IsGroup t after) ∧
    (t.kind = .lineComment → '\n' ∉ t.text ∧ ¬ ['?', '>'] <:+: t.text) ∧
    (t.kind = .name ∨ t.kind = .keyword → IsWord t.text (textOf after) ∧
      (t.kind = .keyword ↔ lower t.text ∈ reservedWords)) ∧
    (t.kind = .dollarName → ∃ name, t.text = '$' :: name ∧ IsWord name (textOf after)) := by
  refine ⟨comment_of_kind htokens, literal_of_kind htokens, fun hk => ?_, fun hk => ?_,
    word_of_kind htokens, fun hk => ?_⟩
  · cases reads_of_kind htokens hk (by decide) with
    | group hopen h => exact ⟨hopen, closedOrLast_of_ends htokens h⟩
    | mark hmark _ => cases hmark
  · cases reads_of_kind htokens hk (by decide) with
    | lineComment hline h =>
        exact ⟨hline, fun hinside => h (hinside.trans (List.prefix_append _ _).isInfix)⟩
    | mark hmark _ => cases hmark
  · have hreads := reads_of_kind htokens hk (by decide)
    generalize t.text = s at hreads
    cases hreads with
    | dollarName h => exact ⟨_, rfl, h⟩
    | mark hmark _ => cases hmark

/-- A heredoc that a line with a longer word does not close, and the semicolon after it. -/
theorem tokens_obey_kinds_heredoc :
    let t : Token := { kind := .literal, text := "<<<E\n E1\n  E", line := 1, offset := 0 }
    let u : Token := { kind := .semicolon, text := ";", line := 3, offset := 12 }
    tokenize "<<<E\n E1\n  E;" = [] ++ t :: [u] ∧
      ((∃ q, (q = '\'' ∨ q = '"' ∨ q = '\x60') ∧ [q] <+: t.text ∧ ClosedOrLast (IsQuoted q) t [u]) ∨
        ∃ header label, '\n' ∉ header ∧ IsLabel header label ∧
          ['<', '<', '<'] ++ header ++ ['\n'] <+: t.text ∧
          ClosedOrLast (IsHeredoc header label) t [u]) := by
  intro t u
  have htokens : tokenize "<<<E\n E1\n  E;" = [] ++ t :: [u] := by decide +kernel
  exact ⟨htokens, (tokens_obey_kinds htokens).2.1 rfl⟩

end Token

end DocLint
