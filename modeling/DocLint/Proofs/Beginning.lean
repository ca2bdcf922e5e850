import DocLint.Proofs.Cutoff
import DocLint.Proofs.Modes

/-!
# Tokens of a beginning

A source that is cut off between two lexemes keeps the lexemes before the cut. Most lexemes do not
depend on the text behind them at all; a line comment and the text outside of code end before a
lexeme of two characters, so the cut must not go through that one. Only a line comment before two
carriage returns looks one lexeme further: it gives back the last carriage return that it can see.

* `Begins`: the text of the first lexemes of a text; `Begins.cases` takes the first of them off.
* `lineCommentExtent_of_begins`, `htmlExtent_of_begins`: the two extents that need a whole lexeme
  behind them.
* `cut_of_begins`: one step of the lexer; `lexemes_take`: all steps.
* `tokenize_take`: later text never changes earlier tokens.
-/

namespace DocLint.Token

open Text

variable {c d : Char} {s t rest rest' : Text} {n : Nat}

/-! ## Beginnings -/

/-- The text `r` is that of the first lexemes of `t`. -/
def Begins (m : Mode) (t r : Text) : Prop :=
  ∃ k, r = (((lexemes m t).take k).map Lexeme.text).flatten

theorem Begins.isPrefix {m : Mode} {r : Text} (h : Begins m t r) : r <+: t := by
  obtain ⟨k, rfl⟩ := h
  refine ⟨(((lexemes m t).drop k).map Lexeme.text).flatten, ?_⟩
  rw [← List.flatten_append, ← List.map_append, List.take_append_drop, flatten_lexemes]

/-- A beginning is empty, or it is the first lexeme and a beginning of the rest. -/
theorem Begins.cases {m : Mode} {r : Text} (h : Begins m t r) :
    r = [] ∨ ∃ c u r', t = c :: u ∧ r = c :: (u.take (cut m c u).extra ++ r') ∧
      Begins (cut m c u).mode (u.drop (cut m c u).extra) r' := by
  obtain ⟨k, rfl⟩ := h
  cases t with
  | nil => exact Or.inl (by simp)
  | cons c u =>
      cases k with
      | zero => exact Or.inl rfl
      | succ k =>
          refine Or.inr ⟨c, u, _, rfl, ?_, k, rfl⟩
          rw [lexemes_cons, List.take_succ_cons, List.map_cons, List.flatten_cons]
          rfl

/-! ## Line comments -/

/-- A line comment stops before the text: it is empty or starts with a line feed or `?>`. -/
def StopsLine (t : Text) : Prop := t = [] ∨ t.head? = some '\n' ∨ ['?', '>'] <+: t

theorem restOfLine_of_stopsLine (h : StopsLine t) : restOfLine t = [] := by
  rcases h with rfl | hlf | ⟨r, rfl⟩
  · rfl
  · obtain ⟨r, rfl⟩ := List.head?_eq_some_iff.1 hlf
    simp [restOfLine]
  · simp [restOfLine]

theorem stopsLine_drop (t : Text) : StopsLine (t.drop (restOfLine t).length) := by
  induction t with
  | nil => exact Or.inl rfl
  | cons c t ih =>
      rw [restOfLine]
      split
      · rename_i hstop
        rcases hstop with rfl | ⟨rfl, hhead⟩
        · exact Or.inr (Or.inl rfl)
        · obtain ⟨r, rfl⟩ := List.head?_eq_some_iff.1 hhead
          exact Or.inr (Or.inr ⟨r, rfl⟩)
      · exact ih

theorem restOfLine_append (hlf : '\n' ∉ s) (hclose : NoCloseTag s t) (ht : StopsLine t) :
    restOfLine (s ++ t) = s := by
  induction s with
  | nil => exact restOfLine_of_stopsLine ht
  | cons c s ih =>
      obtain ⟨hc, hs⟩ := not_or.1 (mt List.mem_cons.2 hlf)
      have hno : ¬ (c = '\n' ∨ c = '?' ∧ (s ++ t).head? = some '>') := by
        rintro (hc' | ⟨rfl, hhead⟩)
        · exact hc hc'.symm
        · apply hclose
          cases s with
          | nil =>
              obtain ⟨r, rfl⟩ := List.head?_eq_some_iff.1 hhead
              exact List.infix_rfl
          | cons d s =>
              have hd : d = '>' := by simpa using hhead
              subst hd
              exact ⟨[], s ++ t.take 1, rfl⟩
      have hbehind : NoCloseTag s t :=
        fun hinside => hclose (hinside.trans (List.suffix_cons c _).isInfix)
      rw [List.cons_append, restOfLine, if_neg hno, ih hs hbehind]

/-- No `?>` arises where text is cut off. -/
theorem NoCloseTag.of_isPrefix (hr : rest' <+: rest) (h : NoCloseTag s rest) :
    NoCloseTag s rest' := by
  obtain ⟨more, rfl⟩ := hr
  refine fun hinside => h (hinside.trans (List.IsPrefix.isInfix ?_))
  apply (List.prefix_append_right_inj s).2
  cases rest' with
  | nil => exact List.nil_prefix
  | cons d r => exact List.prefix_rfl

/-- The end of a line is a lexeme of its own or the start of one. -/
theorem StopsLine.begins {r : Text} (ht : StopsLine t) (h : Begins .code t r) : StopsLine r := by
  rcases h.cases with rfl | ⟨c, u, r', rfl, rfl, _⟩
  · exact Or.inl rfl
  · rcases ht with hnil | hlf | ⟨more, hclose⟩
    · cases hnil
    · exact Or.inr (Or.inl hlf)
    · obtain ⟨rfl, rfl⟩ := List.cons.inj hclose
      exact Or.inr (Or.inr ⟨r', rfl⟩)

/-- A carriage return before the end of a line is a lexeme, alone or with the line feed. -/
theorem stopsLine_behind_cr {r : Text} (ht : StopsLine t) (h : Begins .code ('\r' :: t) r) :
    r = [] ∨ ∃ r', r = '\r' :: r' ∧ StopsLine r' := by
  rcases h.cases with rfl | ⟨c, u, r', heq, rfl, hmore⟩
  · exact Or.inl rfl
  · obtain ⟨rfl, rfl⟩ := List.cons.inj heq
    refine Or.inr ⟨_, rfl, ?_⟩
    have hcut : cut .code '\r' t = ⟨.blank, (t.takeWhile isBlank).length, .code⟩ := rfl
    rw [hcut] at hmore ⊢
    have alone : t.takeWhile isBlank = [] →
        StopsLine (t.take (t.takeWhile isBlank).length ++ r') := by
      intro hblank
      rw [hblank] at hmore ⊢
      exact ht.begins hmore
    rcases ht with rfl | hlf | ⟨more, rfl⟩
    · exact alone rfl
    · obtain ⟨more, rfl⟩ := List.head?_eq_some_iff.1 hlf
      exact Or.inr (Or.inl rfl)
    · exact alone rfl

/-- A line comment, before a beginning of the lexemes behind it. Without the text behind, a carriage
return at its end would be taken for one before a line feed. -/
theorem lineCommentExtent_of_begins (hr : Begins .code rest rest')
    (hcr : ¬ ['\r', '\r'] <:+: s ++ rest) (h : lineCommentExtent (s ++ rest) = s.length) :
    lineCommentExtent (s ++ rest') = s.length := by
  obtain ⟨hbegins, hlf⟩ := restOfLine_prefix (s ++ rest)
  have hclose := noCloseTag_restOfLine (s ++ rest)
  have hstops := stopsLine_drop (s ++ rest)
  rw [lineCommentExtent] at h
  generalize restOfLine (s ++ rest) = line at hbegins hlf hclose hstops h
  obtain ⟨behind, heq⟩ := hbegins
  rw [← heq, List.drop_left] at hclose hstops
  cases hsuffix : dropSuffix? ['\r'] line with
  | none =>
      rw [hsuffix, Option.getD_none] at h
      obtain ⟨rfl, rfl⟩ := List.append_inj heq h
      have hline := restOfLine_append hlf (hclose.of_isPrefix hr.isPrefix) (hstops.begins hr)
      rw [lineCommentExtent, hline, hsuffix]
      rfl
  | some front =>
      have hfront := dropSuffix?_eq_some_iff.1 hsuffix
      rw [hsuffix, Option.getD_some] at h
      rw [hfront, List.append_assoc] at heq
      obtain ⟨rfl, rfl⟩ := List.append_inj heq h
      subst hfront
      rw [List.singleton_append] at hr hcr
      rcases stopsLine_behind_cr hstops hr with rfl | ⟨r', rfl, hstops'⟩
      · have hno : NoCloseTag front [] := by
          intro hinside
          apply hclose
          refine hinside.trans ?_
          exact ⟨[], ['\r'] ++ behind.take 1, by simp⟩
        have hlf' : '\n' ∉ front := fun hmem => hlf (List.mem_append_left _ hmem)
        have hline := restOfLine_append hlf' hno (Or.inl rfl)
        rw [lineCommentExtent, hline]
        cases hagain : dropSuffix? ['\r'] front with
        | none => rfl
        | some f =>
            refine absurd ?_ hcr
            rw [dropSuffix?_eq_some_iff.1 hagain]
            exact ⟨f, behind, by simp⟩
      · have hbehind : r' <+: behind := (List.cons_prefix_cons.1 hr.isPrefix).2
        have hline := restOfLine_append hlf (hclose.of_isPrefix hbehind) hstops'
        rw [List.append_assoc, List.singleton_append] at hline
        rw [lineCommentExtent, hline, hsuffix]
        rfl

theorem lineCommentExtent_slash (t : Text) : lineCommentExtent ('/' :: t) ≠ 0 := by
  have hline : restOfLine ('/' :: t) = '/' :: restOfLine t := if_neg (by simp)
  rw [lineCommentExtent, hline]
  cases h : dropSuffix? ['\r'] ('/' :: restOfLine t) with
  | none => exact Nat.succ_ne_zero _
  | some front =>
      have heq := dropSuffix?_eq_some_iff.1 h
      cases front with
      | nil => simp at heq
      | cons d front => exact Nat.succ_ne_zero _

/-! ## Outside of code -/

/-- Both characters of `<?` are in one lexeme. -/
theorem openTag_prefix_of_begins {r : Text} (ht : ['<', '?'] <+: t) (h : Begins .html t r) :
    r = [] ∨ ['<', '?'] <+: r := by
  obtain ⟨u, rfl⟩ := ht
  rcases h.cases with rfl | ⟨c, v, r', heq, rfl, _⟩
  · exact Or.inl rfl
  · obtain ⟨rfl, rfl⟩ := List.cons.inj heq
    right
    have hcut : (cut .html '<' ('?' :: u)).extra = tagExtent ('?' :: u) + _ :=
      congrArg Cut.extra (htmlCut_openTag rfl)
    obtain ⟨m, hm⟩ := Nat.exists_eq_add_one_of_ne_zero (Nat.ne_of_gt (tagExtent_pos ('?' :: u)))
    refine ⟨u.take (m + lineBreakExtent (('?' :: u).drop (m + 1))) ++ r', ?_⟩
    show _ = '<' :: (('?' :: u).take (cut .html '<' ('?' :: u)).extra ++ r')
    rw [hcut, hm, Nat.add_right_comm]
    rfl

/-- Text outside of code is read up to the next `<?`. -/
theorem htmlExtent_of_begins (hr : Begins .html rest rest')
    (h : (find? ['<', '?'] (s ++ rest)).getD (s ++ rest).length = s.length) :
    (find? ['<', '?'] (s ++ rest')).getD (s ++ rest').length = s.length := by
  have hstep : ∀ {d : Char} {t : Text}, ¬ startsWith ['<', '?'] (d :: t) = true →
      (find? ['<', '?'] (d :: t)).getD (d :: t).length =
        (find? ['<', '?'] t).getD t.length + 1 := by
    intro d t hd
    rw [find?, if_neg hd]
    cases find? ['<', '?'] t <;> rfl
  have hopen : ∀ {t : Text}, startsWith ['<', '?'] t = true → find? ['<', '?'] t = some 0 := by
    intro t ht
    obtain ⟨u, rfl⟩ := startsWith_iff.1 ht
    rfl
  induction s with
  | nil =>
      rw [List.nil_append] at h ⊢
      cases rest with
      | nil =>
          rw [List.prefix_nil.1 hr.isPrefix]
          rfl
      | cons d u =>
          by_cases hd : startsWith ['<', '?'] (d :: u) = true
          · rcases openTag_prefix_of_begins (startsWith_iff.1 hd) hr with rfl | hopens
            · rfl
            · rw [hopen (startsWith_iff.2 hopens)]
              rfl
          · rw [hstep hd] at h
            cases h
  | cons d s ih =>
      rw [List.cons_append] at h ⊢
      by_cases hd : startsWith ['<', '?'] (d :: (s ++ rest)) = true
      · rw [hopen hd] at h
        cases h
      · have hd' : ¬ startsWith ['<', '?'] (d :: (s ++ rest')) = true :=
          mt (startsWith_of_isPrefix ((List.prefix_append_right_inj (d :: s)).2 hr.isPrefix)) hd
        rw [hstep hd, List.length_cons, Nat.add_right_cancel_iff] at h
        rw [hstep hd', List.length_cons, ih h]

theorem htmlCut_of_begins (h : (htmlCut c (s ++ rest)).extra = s.length)
    (hr : Begins (htmlCut c (s ++ rest)).mode rest rest') :
    htmlCut c (s ++ rest') = htmlCut c (s ++ rest) := by
  by_cases hopen : c = '<' ∧ (s ++ rest).head? = some '?'
  · obtain ⟨rfl, hhead⟩ := hopen
    rw [htmlCut_openTag hhead] at h hr ⊢
    -- the tag is inside of the lexeme, and what is left of the lexeme is the line break
    have hpos := tagExtent_pos (s ++ rest)
    have htag := tagExtent_of_isPrefix (s := s) hr.isPrefix rfl
    generalize tagExtent (s ++ rest) = n at h hpos htag
    have hlength : n + lineBreakExtent ((s ++ rest).drop n) = s.length := h
    have hle : n ≤ s.length := by omega
    have hs : s ≠ [] := List.ne_nil_of_length_pos (by omega)
    rw [htmlCut_openTag ((head?_append_congr hs).trans hhead), htag hle]
    rw [List.drop_append_of_le_length hle] at hlength
    rw [List.drop_append_of_le_length hle, List.drop_append_of_le_length hle]
    have hbreak : lineBreakExtent (s.drop n ++ rest) = (s.drop n).length := by
      rw [List.length_drop]
      omega
    rw [lineBreakExtent_of_isPrefix hr.isPrefix hbreak, hbreak]
  · have hno : ¬ (c = '<' ∧ (s ++ rest').head? = some '?') := by
      rintro ⟨hc, hhead⟩
      exact hopen ⟨hc, head?_of_isPrefix ((List.prefix_append_right_inj s).2 hr.isPrefix) hhead⟩
    unfold htmlCut at h hr ⊢
    rw [if_neg hopen] at h hr ⊢
    rw [if_neg hno]
    have hfind : (find? "<?" (s ++ rest)).getD (s ++ rest).length = s.length := h
    have hfind' : (find? "<?" (s ++ rest')).getD (s ++ rest').length = s.length :=
      htmlExtent_of_begins hr hfind
    rw [hfind, hfind']

/-! ## Code -/

/-- A kind that is found from the text of the lexeme. -/
theorem lexeme_congr {m : Nat} (kind : Text → Kind) (hn : n = s.length) (hm : m = s.length) :
    (kind ((s ++ rest').take m), m) = (kind ((s ++ rest).take n), n) := by
  subst hn hm
  rw [List.take_left, List.take_left]

/-- The first character of a lexeme that is not empty. -/
theorem eq_cons_of_head? (h : (s ++ rest).head? = some d) (hs : s ≠ []) : ∃ s', s = d :: s' := by
  rw [List.head?_append_of_ne_nil _ hs] at h
  exact List.head?_eq_some_iff.1 h

theorem wordLength_pos (h : t.head?.any isWordStart = true) : 0 < wordLength t := by
  cases t with
  | nil => cases h
  | cons d t =>
      rw [wordLength, List.takeWhile_cons_of_pos (isWordChar_of_isWordStart h)]
      exact Nat.succ_pos _

/-- What the lexer cuts off in code stays, one case for each sort of lexeme. -/
theorem codeLexeme_of_begins (h : (codeLexeme c (s ++ rest)).2 = s.length)
    (hr : Begins .code rest rest') (hcr : ¬ ['\r', '\r'] <:+: s ++ rest) :
    codeLexeme c (s ++ rest') = codeLexeme c (s ++ rest) := by
  have hrest := hr.isPrefix
  have hwhole := (List.prefix_append_right_inj s).2 hrest
  unfold codeLexeme at h ⊢
  -- the conditions look at the second character, which the lexeme holds wherever they do
  refine ite_of_taken Prod.snd h id (fun hblank hn => ⟨hblank, ?_⟩) fun _ h => ?_
  · exact Prod.ext rfl ((length_takeWhile_of_isPrefix hrest hn).trans hn.symm)
  refine ite_of_taken Prod.snd h (And.imp_right (head?_of_isPrefix hwhole)) ?_ fun _ h => ?_
  · rintro ⟨hc, hhead⟩ hn
    have hs : s ≠ [] := by
      rintro rfl
      obtain ⟨u, hu⟩ := List.head?_eq_some_iff.1 hhead
      rw [hu, groupExtent, if_pos rfl] at hn
      cases hn
    obtain ⟨s, rfl⟩ := eq_cons_of_head? hhead hs
    exact ⟨⟨hc, rfl⟩, Prod.ext rfl ((groupExtent_of_isPrefix hrest hn).trans hn.symm)⟩
  refine ite_of_taken Prod.snd h
    (Or.imp_right (And.imp_right (head?_of_isPrefix hwhole))) ?_ fun _ h => ?_
  · intro hopen hn
    refine ⟨hopen.imp_right (And.imp_right fun hhead => ?_),
      Prod.ext rfl ((lineCommentExtent_of_begins hr hcr hn).trans hn.symm)⟩
    have hs : s ≠ [] := by
      rintro rfl
      obtain ⟨u, hu⟩ := List.head?_eq_some_iff.1 hhead
      rw [hu] at hn
      exact lineCommentExtent_slash u hn
    exact (head?_append_congr hs).trans hhead
  refine ite_of_taken Prod.snd h (And.imp_right (head?_of_isPrefix hwhole)) ?_ fun _ h => ?_
  · rintro ⟨hc, hhead⟩ hn
    have hs : s ≠ [] := by
      rintro rfl
      cases hn
    obtain ⟨s, rfl⟩ := eq_cons_of_head? hhead hs
    refine ⟨⟨hc, rfl⟩, lexeme_congr
      (fun u => if isDocBlock (c :: u) then .docComment else .blockComment) hn ?_⟩
    exact congrArg (· + 1) (commentExtent_of_isPrefix hrest (Nat.succ.inj hn))
  refine ite_of_taken Prod.snd h id (fun hq hn => ⟨hq, ?_⟩) fun _ h => ?_
  · have hslash : c ≠ '\\' := by
      rcases hq with rfl | rfl | rfl <;> decide
    exact Prod.ext rfl ((quotedExtent_of_isPrefix hslash hrest hn).trans hn.symm)
  refine ite_of_taken Prod.snd h (And.imp_right (startsWith_of_isPrefix hwhole)) ?_ fun _ h => ?_
  · rintro ⟨hc, hstart⟩ hn
    obtain ⟨hle, heq⟩ := heredoc_of_isPrefix hrest hn
    exact ⟨⟨hc, (startsWith_append_congr (p := "<<") hle).trans hstart⟩, heq⟩
  refine ite_of_taken Prod.snd h ?_ ?_ fun _ h => ?_
  · refine And.imp_right fun hstart => ?_
    obtain ⟨d, hd, hword⟩ := (Option.any_eq_true _ _).1 hstart
    exact (Option.any_eq_true _ _).2 ⟨d, head?_of_isPrefix hwhole hd, hword⟩
  · rintro ⟨hc, hstart⟩ hn
    have hs : s ≠ [] := by
      rintro rfl
      exact Nat.ne_of_gt (wordLength_pos hstart) hn
    rw [head?_append_congr hs]
    exact ⟨⟨hc, hstart⟩,
      Prod.ext rfl ((length_takeWhile_of_isPrefix hrest hn).trans hn.symm)⟩
  refine ite_of_taken Prod.snd h id (fun hstart hn => ⟨hstart, ?_⟩) fun _ h => ?_
  · exact lexeme_congr (fun u => if isReserved (c :: u) then .keyword else .name) hn
      (length_takeWhile_of_isPrefix hrest hn)
  refine ite_of_taken Prod.snd h id (fun hdigit hn => ⟨hdigit, ?_⟩) fun _ h => ?_
  · exact Prod.ext rfl ((length_takeWhile_of_isPrefix hrest hn).trans hn.symm)
  split at h <;> try rfl
  exact mark_of_isPrefix hrest h

theorem codeCut_of_begins (h : (codeCut c (s ++ rest)).extra = s.length)
    (hr : Begins (codeCut c (s ++ rest)).mode rest rest')
    (hcr : ¬ ['\r', '\r'] <:+: s ++ rest) :
    codeCut c (s ++ rest') = codeCut c (s ++ rest) := by
  have hwhole := (List.prefix_append_right_inj s).2 hr.isPrefix
  unfold codeCut at h hr ⊢
  refine ite_of_taken Cut.extra h (And.imp_right (head?_of_isPrefix hwhole)) ?_ fun hcode h => ?_
  · rintro ⟨hc, hhead⟩ hn
    have hs : s ≠ [] := by
      rintro rfl
      cases hn
    exact ⟨⟨hc, (head?_append_congr hs).trans hhead⟩, rfl⟩
  · rw [if_neg hcode] at hr
    rw [codeLexeme_of_begins h hr hcr]

/-! ## All steps -/

/-- **One step.** Cutting off behind later lexemes does not move a cut. -/
theorem cut_of_begins {m : Mode} (h : (cut m c (s ++ rest)).extra = s.length)
    (hr : Begins (cut m c (s ++ rest)).mode rest rest')
    (hcr : ¬ ['\r', '\r'] <:+: s ++ rest) : cut m c (s ++ rest') = cut m c (s ++ rest) := by
  cases m with
  | html => exact htmlCut_of_begins h hr
  | code => exact codeCut_of_begins h hr hcr

/-- The first lexemes of a text are the lexemes of their own text. -/
theorem lexemes_take (m : Mode) {t : Text} (hcr : ¬ ['\r', '\r'] <:+: t) (k : Nat) :
    lexemes m (((lexemes m t).take k).map Lexeme.text).flatten = (lexemes m t).take k := by
  induction k generalizing m t with
  | zero => rfl
  | succ k ih =>
      cases t with
      | nil => rfl
      | cons c u =>
          obtain ⟨s, rest, rfl, hs⟩ : ∃ s rest, u = s ++ rest ∧ (cut m c u).extra = s.length := by
            refine ⟨u.take (cut m c u).extra, u.drop (cut m c u).extra, ?_, ?_⟩
            · exact (List.take_append_drop _ u).symm
            · exact (List.length_take_of_le (cut_extra_le m c u)).symm
          have hno : ¬ ['\r', '\r'] <:+: s ++ rest :=
            fun h => hcr (h.trans (List.suffix_cons c _).isInfix)
          have hrest : ¬ ['\r', '\r'] <:+: rest :=
            fun h => hno (h.trans (List.suffix_append s rest).isInfix)
          -- the other lexemes begin the rest, so the first cut is the same before them
          have hcut := cut_of_begins hs ⟨k, rfl⟩ hno
          rw [lexemes_cons, hs, List.take_left, List.drop_left, List.take_succ_cons, List.map_cons,
            List.flatten_cons, List.cons_append, lexemes_cons, hcut, hs, List.take_left,
            List.drop_left, ih _ hrest]

theorem place_take (line offset : Nat) (ls : List Lexeme) (k : Nat) :
    (place line offset ls).take k = place line offset (ls.take k) := by
  induction ls generalizing line offset k with
  | nil => cases k <;> rfl
  | cons l ls ih =>
      cases k with
      | zero => rfl
      | succ k => rw [place, List.take_succ_cons, List.take_succ_cons, place, ih]

/-- **Later text never changes earlier tokens.** In a source without two carriage returns in a row,
the text of the first tokens, if it is read from the same mode on, has these tokens, with their
kinds, texts, lines and offsets. -/
theorem tokenize_take {source : Text} (hcr : ¬ ['\r', '\r'] <:+: source) {k : Nat}
    (hmode : startMode (textOf ((tokenize source).take k)) = startMode source) :
    tokenize (textOf ((tokenize source).take k)) = (tokenize source).take k := by
  have htext : textOf ((tokenize source).take k) =
      (((lexemes (startMode source) source).take k).map Lexeme.text).flatten := by
    rw [textOf_eq, List.map_take, tokenize, map_toLexeme_place]
  rw [tokenize, hmode, htext, lexemes_take (startMode source) hcr, tokenize, place_take]

/-- A comment cut off before a line break, and a heredoc cut off behind its label. -/
theorem tokenize_take_heredoc :
    let source : Text := "<?php # a\r\n<<<E\nE;1"
    ¬ ['\r', '\r'] <:+: source ∧
      textOf ((tokenize source).take 5) = "<?php # a\r\n<<<E\nE" ∧
      startMode (textOf ((tokenize source).take 5)) = startMode source ∧
      tokenize "<?php # a\r\n<<<E\nE" = (tokenize source).take 5 := by
  intro source
  have hcr : ¬ ['\r', '\r'] <:+: source := mt contains_iff.2 (by decide +kernel)
  have htext : textOf ((tokenize source).take 5) = "<?php # a\r\n<<<E\nE" := by decide +kernel
  have hmode : startMode (textOf ((tokenize source).take 5)) = startMode source := by
    decide +kernel
  refine ⟨hcr, htext, hmode, ?_⟩
  rw [← htext]
  exact tokenize_take hcr hmode

/-- Of two carriage returns before a line feed, the comment keeps the first one only as long as it
sees the second one. -/
example : (tokenize "#\r\r\n").map (·.text) = ["#\r", "\r\n"] ∧
    (tokenize "#\r").map (·.text) = ["#", "\r"] := by
  decide +kernel

end DocLint.Token
