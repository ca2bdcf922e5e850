import DocLint.Proofs.Lexis

/-!
# Html and code

The two modes of the lexer, as an automaton over kinds and texts. A cut of the lexer is a step of
it, so the lexemes of a source are a run from the mode that its open tags decide.

* `Steps`, `steps_cut`: the steps, and the cut that makes each of them.
* `Alternates`, `alternates_lexemes`: the runs, by induction on the text that is left.
* `tokens_alternate`: the tokens of a source follow the modes, and where `?>` may stand in them;
  `shortTag_splits_closeTag`: it may also stand across two tokens.
-/

namespace DocLint.Token

open Text

/-- The text of an open tag: the tag and at most one line break. -/
def IsOpenTag (s : Text) : Prop :=
  ∃ tag lineBreak, s = tag ++ lineBreak ∧
    (sameLetters tag "<?php" = true ∨ tag = ['<', '?', '='] ∨ tag = ['<', '?']) ∧
    (lineBreak = [] ∨ lineBreak = ['\n'] ∨ lineBreak = ['\r', '\n'])

/-- `Steps m k s rest m'`: in the mode `m`, a lexeme `s` of the kind `k` before `rest` leaves the
lexer in the mode `m'`. -/
inductive Steps : Mode → Kind → Text → Text → Mode → Prop where
  | html {s rest : Text} (htext : ¬ ['<', '?'] <:+: s) (hrest : rest = [] ∨ ['<', '?'] <+: rest) :
      Steps .html .html s rest .html
  | openTag {s rest : Text} (h : IsOpenTag s) : Steps .html .openTag s rest .code
  | closeTag (rest : Text) : Steps .code .closeTag ['?', '>'] rest .html
  | code {k : Kind} {s rest : Text} (h : Reads k s rest) : Steps .code k s rest .code

/-- A run of lexemes from a mode on. Text outside of code holds no `<?` and lasts to an open tag,
only open tags lead into code, only close tags lead out of it, and neither text outside of code nor
an open tag stands in code. -/
inductive Alternates : Mode → List Lexeme → Prop where
  | done (m : Mode) : Alternates m []
  | html {l : Lexeme} {ls : List Lexeme} (hkind : l.kind = .html) (htext : ¬ ['<', '?'] <:+: l.text)
      (hnext : ∀ next ∈ ls.head?, next.kind = .openTag) (hrest : Alternates .html ls) :
      Alternates .html (l :: ls)
  | openTag {l : Lexeme} {ls : List Lexeme} (hkind : l.kind = .openTag)
      (hrest : Alternates .code ls) : Alternates .html (l :: ls)
  | closeTag {l : Lexeme} {ls : List Lexeme} (hkind : l.kind = .closeTag)
      (hrest : Alternates .html ls) : Alternates .code (l :: ls)
  | code {l : Lexeme} {ls : List Lexeme}
      (hkind : l.kind ≠ .html ∧ l.kind ≠ .openTag ∧ l.kind ≠ .closeTag)
      (hrest : Alternates .code ls) : Alternates .code (l :: ls)

/-! ## One step -/

theorem take_lineBreakExtent (t : Text) :
    t.take (lineBreakExtent t) = [] ∨ t.take (lineBreakExtent t) = ['\n'] ∨
      t.take (lineBreakExtent t) = ['\r', '\n'] := by
  unfold lineBreakExtent
  split
  · rename_i h
    obtain ⟨r, rfl⟩ := startsWith_iff.1 h
    exact Or.inr (Or.inr rfl)
  · split
    · rename_i h
      obtain ⟨r, rfl⟩ := startsWith_iff.1 h
      exact Or.inr (Or.inl rfl)
    · exact Or.inl rfl

theorem steps_openTag {c : Char} {t : Text} (h : c = '<' ∧ t.head? = some '?') :
    Steps .html (htmlCut c t).kind (c :: t.take (htmlCut c t).extra) (t.drop (htmlCut c t).extra)
      (htmlCut c t).mode := by
  obtain ⟨rfl, hhead⟩ := h
  obtain ⟨n, hn, htag⟩ : ∃ n, htmlCut '<' t = ⟨.openTag, n + lineBreakExtent (t.drop n), .code⟩ ∧
      (sameLetters ('<' :: t.take n) "<?php" = true ∨ '<' :: t.take n = ['<', '?', '='] ∨
        '<' :: t.take n = ['<', '?']) := by
    refine ⟨_, if_pos ⟨rfl, hhead⟩, ?_⟩
    split
    · rename_i hphp
      refine Or.inl (beq_iff_eq.2 ?_)
      exact congrArg (List.cons '<') (beq_iff_eq.1 hphp)
    · refine Or.inr ?_
      split
      · rename_i hecho
        obtain ⟨r, rfl⟩ := startsWith_iff.1 hecho
        exact Or.inl rfl
      · obtain ⟨r, rfl⟩ := List.head?_eq_some_iff.1 hhead
        exact Or.inr rfl
  rw [hn]
  refine Steps.openTag ⟨_, _, ?_, htag, take_lineBreakExtent (t.drop n)⟩
  rw [List.cons_append, ← List.take_add]

/-- Nothing occurs in the text before its first occurrence. -/
theorem not_infix_take_find? {p : Text} (hp : p ≠ []) (t : Text) :
    ¬ p <:+: t.take ((find? p t).getD t.length) := by
  cases hfind : find? p t with
  | none =>
      rw [Option.getD_none, List.take_length]
      intro hinside
      have hcontains := contains_iff.2 hinside
      rw [contains, hfind] at hcontains
      cases hcontains
  | some n =>
      rw [Option.getD_some]
      rintro ⟨a, r, heq⟩
      have hlength := congrArg List.length heq
      have hpos := List.length_pos_of_ne_nil hp
      simp only [List.length_append, List.length_take] at hlength
      refine not_prefix_drop_of_find? hfind (m := a.length) (by omega) ⟨r ++ t.drop n, ?_⟩
      conv_rhs => rw [← List.take_append_drop n t, ← heq]
      simp only [List.append_assoc, List.drop_left]

theorem steps_html {c : Char} {t : Text} (h : ¬ (c = '<' ∧ t.head? = some '?')) :
    Steps .html (htmlCut c t).kind (c :: t.take (htmlCut c t).extra) (t.drop (htmlCut c t).extra)
      (htmlCut c t).mode := by
  unfold htmlCut
  rw [if_neg h]
  refine Steps.html ?_ ?_
  · intro hinside
    rcases List.infix_cons_iff.1 hinside with hbegins | hinside
    · obtain ⟨hopen, hmark⟩ := List.cons_prefix_cons.1 hbegins
      obtain ⟨r, hr⟩ := hmark.trans (List.take_prefix _ t)
      exact h ⟨hopen.symm, hr ▸ rfl⟩
    · exact not_infix_take_find? (by decide) t hinside
  · show t.drop ((find? "<?" t).getD t.length) = [] ∨ _ <+: t.drop ((find? "<?" t).getD t.length)
    cases hfind : find? "<?" t with
    | none => exact Or.inl List.drop_length
    | some n => exact Or.inr (prefix_drop_of_find? hfind)

/-- What the lexer cuts off is a step, in either mode. -/
theorem steps_cut (m : Mode) (c : Char) (t : Text) :
    Steps m (cut m c t).kind (c :: t.take (cut m c t).extra) (t.drop (cut m c t).extra)
      (cut m c t).mode := by
  cases m with
  | html =>
      show Steps .html (htmlCut c t).kind (c :: t.take (htmlCut c t).extra)
        (t.drop (htmlCut c t).extra) (htmlCut c t).mode
      by_cases h : c = '<' ∧ t.head? = some '?'
      · exact steps_openTag h
      · exact steps_html h
  | code =>
      show Steps .code (codeCut c t).kind (c :: t.take (codeCut c t).extra)
        (t.drop (codeCut c t).extra) (codeCut c t).mode
      unfold codeCut
      split
      · rename_i h
        obtain ⟨rfl, hhead⟩ := h
        obtain ⟨r, rfl⟩ := List.head?_eq_some_iff.1 hhead
        exact Steps.closeTag r
      · rename_i h
        exact Steps.code (reads_codeLexeme h)

/-! ## Runs -/

theorem kind_of_reads {k : Kind} {s rest : Text} (h : Reads k s rest) :
    k ≠ .html ∧ k ≠ .openTag ∧ k ≠ .closeTag := by
  cases h with
  | mark hkind _ => refine ⟨?_, ?_, ?_⟩ <;> rintro rfl <;> cases hkind
  | _ => decide

/-- `<?` outside of code is read as an open tag. -/
theorem kind_head_lexemes {t : Text} (h : t = [] ∨ ['<', '?'] <+: t) :
    ∀ l ∈ (lexemes .html t).head?, l.kind = .openTag := by
  rcases h with rfl | ⟨r, rfl⟩
  · simp
  · rw [List.cons_append, lexemes_cons]
    rintro l ⟨⟩
    rfl

/-- Reading from any mode on follows the modes. -/
theorem alternates_lexemes (m : Mode) (t : Text) : Alternates m (lexemes m t) := by
  induction hn : t.length using Nat.strongRecOn generalizing m t with
  | ind n ih =>
      cases t with
      | nil => exact Alternates.done m
      | cons c t =>
          rw [lexemes_cons]
          have hshorter : (t.drop (cut m c t).extra).length < n := by
            rw [← hn, List.length_drop, List.length_cons]
            omega
          have hrest := ih _ hshorter (cut m c t).mode _ rfl
          have hstep := steps_cut m c t
          generalize (cut m c t).kind = k, c :: t.take (cut m c t).extra = s,
            t.drop (cut m c t).extra = rest, (cut m c t).mode = m' at hstep hrest
          cases hstep with
          | html htext hnext =>
              exact Alternates.html rfl htext (kind_head_lexemes hnext) hrest
          | openTag h => exact Alternates.openTag rfl hrest
          | closeTag => exact Alternates.closeTag rfl hrest
          | code h => exact Alternates.code (kind_of_reads h) hrest

/-- A token is a step before the text of the tokens after it. -/
theorem steps_of_tokenize {source : Text} {before after : List Token} {t : Token}
    (h : tokenize source = before ++ t :: after) :
    ∃ m m', Steps m t.kind t.text (textOf after) m' := by
  obtain ⟨m, c, u, hkind, htext, hrest⟩ := cut_of_tokenize h
  rw [hkind, htext, hrest]
  exact ⟨m, (cut m c u).mode, steps_cut m c u⟩

/-! ## Where `?>` stands -/

theorem not_mem_of_isOpenTag {s : Text} (h : IsOpenTag s) : '>' ∉ s := by
  obtain ⟨tag, lineBreak, rfl, htag, hbreak⟩ := h
  intro hmem
  rcases List.mem_append.1 hmem with hmem | hmem
  · rcases htag with hphp | rfl | rfl
    · have hlower : '>' ∈ lower tag := List.mem_map.2 ⟨'>', hmem, rfl⟩
      rw [beq_iff_eq.1 hphp] at hlower
      exact absurd hlower (by decide)
    · exact absurd hmem (by decide)
    · exact absurd hmem (by decide)
  · rcases hbreak with rfl | rfl | rfl <;> exact absurd hmem (by decide)

/-- Only the short open tag ends with a question mark. -/
theorem eq_of_isOpenTag {s : Text} (h : IsOpenTag s) (hlast : s.getLast? = some '?') :
    s = ['<', '?'] := by
  obtain ⟨tag, lineBreak, rfl, htag, hbreak⟩ := h
  obtain rfl : lineBreak = [] := by
    rcases hbreak with rfl | rfl | rfl
    · rfl
    · simp at hlast
    · simp at hlast
  rw [List.append_nil] at hlast ⊢
  rcases htag with hphp | rfl | rfl
  · have hlower : (lower tag).getLast? = some '?' := by
      rw [lower, List.getLast?_map, hlast]
      rfl
    rw [beq_iff_eq.1 hphp] at hlower
    exact absurd hlower (by decide)
  · exact absurd hlast (by decide)
  · rfl

/-- In code, `?>` stands in literals, delimited comments and attribute groups. -/
theorem kind_of_closeTag_infix {k : Kind} {s rest : Text} (h : Reads k s rest)
    (hclose : ['?', '>'] <:+: s) :
    k = .literal ∨ k = .blockComment ∨ k = .docComment ∨ k = .attributeGroup := by
  have hmark : '?' ∈ s := hclose.subset (by decide)
  have hno : ¬ NoCloseTag s rest := fun h => h (hclose.trans (List.prefix_append s _).isInfix)
  cases h with
  | blank h => exact absurd (h _ hmark) (by decide)
  | lineComment _ h => exact absurd h hno
  | dollarName h =>
      rcases List.mem_cons.1 hmark with heq | hmark
      · exact absurd heq (by decide)
      · exact absurd (h.chars _ hmark) (by decide)
  | keyword h _ => exact absurd (h.chars _ hmark) (by decide)
  | name h _ => exact absurd (h.chars _ hmark) (by decide)
  | number h => exact absurd hmark h
  | mark _ h => exact absurd h hno
  | _ => simp

theorem complete_of_ends {complete : Text → Text → Prop} {s rest : Text} (h : Ends complete s rest)
    (hrest : rest ≠ []) : complete s rest := by
  rcases h with ⟨h, _⟩ | ⟨hnil, _⟩
  · exact h
  · exact absurd hnil hrest

/-- In code, a lexeme with a question mark at its end is not before a `>`. -/
theorem head?_ne_of_reads {k : Kind} {s rest : Text} (h : Reads k s rest)
    (hlast : s.getLast? = some '?') : rest.head? ≠ some '>' := by
  intro hhead
  have hmark : '?' ∈ s := List.mem_of_getLast? hlast
  have hrest : rest ≠ [] := by
    rintro rfl
    cases hhead
  have hno : ¬ NoCloseTag s rest := by
    obtain ⟨a, rfl⟩ := List.getLast?_eq_some_iff.1 hlast
    obtain ⟨r, rfl⟩ := List.head?_eq_some_iff.1 hhead
    exact fun h => h ⟨a, [], by simp⟩
  have hend : ∀ {a b : Text}, s = a ++ b → b ≠ [] → b.getLast? = some '?' := by
    rintro a b rfl hb
    rwa [List.getLast?_append_of_ne_nil _ hb] at hlast
  cases h with
  | blank h => exact absurd (h _ hmark) (by decide)
  | group _ h =>
      obtain ⟨parts, hs, _, hclose, _⟩ := complete_of_ends h hrest
      obtain ⟨front, rfl⟩ := List.getLast?_eq_some_iff.1 hclose
      have hs : s = ('#' :: front.flatten) ++ [']'] := by
        rw [hs, List.flatten_append, List.cons_append]
        rfl
      exact absurd (hend hs (by decide)) (by decide)
  | lineComment _ h => exact hno h
  | docComment _ h _ =>
      obtain ⟨body, hs⟩ := complete_of_ends h hrest
      exact absurd (hend hs (by decide)) (by decide)
  | blockComment _ h _ =>
      obtain ⟨body, hs⟩ := complete_of_ends h hrest
      exact absurd (hend hs (by decide)) (by decide)
  | quoted hq _ h =>
      obtain ⟨body, hs, _⟩ := complete_of_ends h hrest
      have hquote := hend hs (List.cons_ne_nil _ _)
      rcases hq with rfl | rfl | rfl <;> exact absurd hquote (by decide)
  | heredoc _ hlabel _ h =>
      obtain ⟨_, _, _, _, _, _, _, hne, hword⟩ := hlabel
      obtain ⟨body, indent, hs, _⟩ := complete_of_ends h hrest
      exact absurd (hword _ (List.mem_of_getLast? (hend hs hne))) (by decide)
  | dollarName h =>
      rcases List.mem_cons.1 hmark with heq | hmark
      · exact absurd heq (by decide)
      · exact absurd (h.chars _ hmark) (by decide)
  | keyword h _ => exact absurd (h.chars _ hmark) (by decide)
  | name h _ => exact absurd (h.chars _ hmark) (by decide)
  | number h => exact h hmark
  | mark _ h => exact hno h

/-! ## The whole source -/

theorem startMode_eq_html_iff (source : Text) :
    startMode source = .html ↔ ['<', '?', '='] <:+: source ∨
      ∃ tag, tag <:+: source ∧ sameLetters tag "<?php" = true := by
  have hlower : contains "<?php" (lower source) = true ↔
      ∃ tag, tag <:+: source ∧ sameLetters tag "<?php" = true := by
    rw [contains_iff]
    constructor
    · rintro ⟨a, r, heq⟩
      obtain ⟨front, rest, rfl, hfront, _⟩ := List.append_eq_map_iff.1 heq
      obtain ⟨before, tag, rfl, _, htag⟩ := List.append_eq_map_iff.1 hfront.symm
      exact ⟨tag, ⟨before, rest, rfl⟩, beq_iff_eq.2 htag⟩
    · rintro ⟨tag, ⟨a, r, rfl⟩, htag⟩
      refine ⟨lower a, lower r, ?_⟩
      have htag : lower tag = "<?php" := beq_iff_eq.1 htag
      rw [← htag]
      simp only [lower, List.map_append]
  rw [← hlower, ← contains_iff]
  unfold startMode
  split
  · rename_i h
    exact iff_of_true rfl (by simpa using h)
  · rename_i h
    exact iff_of_false (by decide) (by simpa using h)

/-- A run outside of code comes to an open tag if `<?` stands in its texts. -/
theorem exists_openTag_of_infix {ls : List Lexeme} (h : Alternates .html ls)
    (hopen : ['<', '?'] <:+: (ls.map Lexeme.text).flatten) : ∃ l ∈ ls, l.kind = .openTag := by
  cases h with
  | done => exact absurd (List.infix_nil.1 hopen) (by decide)
  | @html l ls hkind htext hnext hrest =>
      cases ls with
      | nil => exact absurd (by simpa using hopen) htext
      | cons next ls => exact ⟨next, by simp, hnext next rfl⟩
  | openTag hkind _ => exact ⟨_, List.mem_cons_self, hkind⟩

theorem openTag_infix_of_startMode {source : Text} (h : startMode source = .html) :
    ['<', '?'] <:+: source := by
  rcases (startMode_eq_html_iff source).1 h with hecho | ⟨tag, htag, hphp⟩
  · exact List.IsInfix.trans ⟨[], ['='], rfl⟩ hecho
  · refine List.IsInfix.trans ?_ htag
    -- only letters change their case, so the first two characters are what they seem
    have hlower : tag.map Char.toLower = "<?php".toList := beq_iff_eq.1 hphp
    obtain ⟨c, rest, rfl, hc, hrest⟩ := List.map_eq_cons_iff.1 hlower
    obtain ⟨d, rest, rfl, hd, _⟩ := List.map_eq_cons_iff.1 hrest
    obtain rfl := eq_of_toLower_eq hc (by decide)
    obtain rfl := eq_of_toLower_eq hd (by decide)
    exact ⟨[], rest, rfl⟩

/-- A source that starts outside of code has an open tag. -/
theorem exists_openTag {source : Text} (h : startMode source = .html) :
    ∃ t ∈ tokenize source, t.kind = .openTag := by
  have hrun := alternates_lexemes (startMode source) source
  rw [h] at hrun
  obtain ⟨l, hl, hkind⟩ := exists_openTag_of_infix hrun
    (by rw [flatten_lexemes]; exact openTag_infix_of_startMode h)
  rw [← h, ← map_toLexeme_place 1 0 (lexemes (startMode source) source)] at hl
  obtain ⟨t, ht, rfl⟩ := List.mem_map.1 hl
  exact ⟨t, ht, hkind⟩

theorem kind_of_closeTag_mem {source : Text} {t : Token} (ht : t ∈ tokenize source)
    (hclose : ['?', '>'] <:+: t.text) :
    t.kind ∈ [.html, .closeTag, .literal, .blockComment, .docComment, .attributeGroup] := by
  obtain ⟨before, after, hsplit⟩ := List.append_of_mem ht
  obtain ⟨m, m', hstep⟩ := steps_of_tokenize hsplit
  generalize t.kind = k, t.text = s at hstep hclose
  cases hstep with
  | html _ _ => simp
  | openTag h => exact absurd (hclose.subset (by decide)) (not_mem_of_isOpenTag h)
  | closeTag _ => simp
  | code h =>
      rcases kind_of_closeTag_infix h hclose with rfl | rfl | rfl | rfl <;> simp

theorem openTag_of_closeTag_between {source : Text} {before after : List Token} {t u : Token}
    (htokens : tokenize source = before ++ t :: u :: after) (hlast : t.text.getLast? = some '?')
    (hhead : u.text.head? = some '>') : t.kind = .openTag ∧ t.text = ['<', '?'] := by
  obtain ⟨m, m', hstep⟩ := steps_of_tokenize htokens
  have hrest : (textOf (u :: after)).head? = some '>' := by
    rw [textOf_cons, List.head?_append, hhead]
    rfl
  generalize t.kind = k, t.text = s, textOf (u :: after) = rest at hstep hlast hrest
  cases hstep with
  | html _ hnext =>
      rcases hnext with rfl | ⟨r, rfl⟩
      · cases hrest
      · simp at hrest
  | openTag h => exact ⟨rfl, eq_of_isOpenTag h hlast⟩
  | closeTag _ => exact absurd hlast (by decide)
  | code h => exact absurd hrest (head?_ne_of_reads h hlast)

/-- **The tokens of a source alternate between html and code.** They are a run of the automaton of
the two modes, from html on exactly if `<?=` or, in any case of its letters, `<?php` stands in the
source; such a source has an open tag. A token that holds `?>` and is neither html nor a close tag
is a literal, a delimited comment or an attribute group, and where two tokens make a `?>` between
them, the first one is the short open tag of `<?>`. -/
theorem tokens_alternate (source : Text) :
    Alternates (startMode source) ((tokenize source).map toLexeme) ∧
    (startMode source = .html ↔ ['<', '?', '='] <:+: source ∨
      ∃ tag, tag <:+: source ∧ sameLetters tag "<?php" = true) ∧
    (startMode source = .html → ∃ t ∈ tokenize source, t.kind = .openTag) ∧
    (∀ t ∈ tokenize source, ['?', '>'] <:+: t.text →
      t.kind ∈ [.html, .closeTag, .literal, .blockComment, .docComment, .attributeGroup]) ∧
    (∀ before t u after, tokenize source = before ++ t :: u :: after →
      t.text.getLast? = some '?' → u.text.head? = some '>' →
      t.kind = .openTag ∧ t.text = ['<', '?']) := by
  refine ⟨?_, startMode_eq_html_iff source, exists_openTag, fun t => kind_of_closeTag_mem,
    fun before t u after => openTag_of_closeTag_between⟩
  rw [tokenize, map_toLexeme_place]
  exact alternates_lexemes (startMode source) source

/-- **A short open tag can take the `?` of a `?>`.** The source `<?=1?><?>` starts outside of code,
and the `?>` at its end lies in no token that may hold one: its tokens are `<?=`, `1`, `?>`, `<?`
and `>`. -/
theorem shortTag_splits_closeTag :
    let front : Text := "<?=1?><"
    let source := front ++ ['?', '>']
    startMode source = .html ∧
    ¬ ∃ t ∈ tokenize source,
      t.kind ∈ [Kind.html, .closeTag, .literal, .blockComment, .docComment, .attributeGroup] ∧
        t.offset ≤ utf8Length front ∧ utf8Length front + 2 ≤ t.finish := by
  decide +kernel

end DocLint.Token
