import DocLint.Proofs.LineBreak
import DocLint.Proofs.CutLength

/-!
# Lexemes with line breaks of two characters

Every lexeme reaches to the same place when each line feed has a carriage return before it, so that
the source has the same lexemes with longer line breaks.

* `quotedExtent_crlf`, `groupExtent_crlf`, `lineCommentExtent_crlf`, `commentExtent_crlf`,
  `heredocExtent?_crlf`: how far lexemes reach; each meets the carriage return in its own way.
* `cut_crlf`, `cut_lf`: one lexeme, by its first character; `lexemes_crlf`: all of them.
* `not_mem_text_of_isWord`: names, keywords, variables and operators hold no line break.
* `tokenize_crlf`: the tokens, their offsets aside.

A text to be changed holds no carriage return of its own, since a line comment leaves one out.
-/

namespace DocLint

open Text

/-- The kinds whose texts the recognisers compare or take as names. -/
def Kind.isWord : Kind → Bool
  | name | keyword | dollarName | punct => true
  | _ => false

/-- The lexeme with longer line breaks. -/
def Lexeme.crlf (l : Lexeme) : Lexeme := { l with text := Text.crlf l.text }

namespace Token

variable {t : Text}

/-! ## Extents -/

theorem quotedExtent_cons {q c : Char} (hc : c ≠ '\\') (hq : c ≠ q) (t : Text) :
    quotedExtent q (c :: t) = quotedExtent q t + 1 := by
  cases t with
  | nil => rfl
  | cons d t => rw [quotedExtent, if_neg hc, if_neg hq]

/-- A backslash before a line break takes the carriage return with it; the line feed follows as any
other character. -/
theorem quotedExtent_crlf {q : Char} (hr : q ≠ '\r') (hn : q ≠ '\n') (t : Text) :
    quotedExtent q (crlf t) = wide (quotedExtent q t) t := by
  have hlf : ∀ u, quotedExtent q ('\n' :: u) = quotedExtent q u + 1 :=
    quotedExtent_cons (by decide) (Ne.symm hn)
  have hcr : ∀ u, quotedExtent q ('\r' :: u) = quotedExtent q u + 1 :=
    quotedExtent_cons (by decide) (Ne.symm hr)
  fun_induction quotedExtent q t with
  | case1 => rfl
  | case2 c =>
      by_cases hc : c = '\n'
      · subst hc
        rw [crlf_lf, hcr, hlf]
        rfl
      · rw [crlf_cons hc, wide_cons hc]
        rfl
  | case3 d t ih =>
      rw [crlf_cons (by decide), wide_cons (by decide)]
      by_cases hd : d = '\n'
      · subst hd
        rw [crlf_lf, quotedExtent, if_pos rfl, hlf, ih, wide_lf]
      · rw [crlf_cons hd, quotedExtent, if_pos rfl, ih, wide_cons hd]
  | case4 d t hq =>
      rw [crlf_cons hn, wide_cons hn]
      cases hu : crlf (d :: t) with
      | nil => rfl
      | cons e u => rw [quotedExtent, if_neg hq, if_pos rfl, wide_zero]
  | case5 c d t hslash hq ih =>
      by_cases hc : c = '\n'
      · subst hc
        rw [crlf_lf, hcr, hlf, ih, wide_lf]
      · rw [crlf_cons hc, quotedExtent_cons hslash hq, ih, wide_cons hc]

/-- The scan is in no quotes of a line break. -/
def Quoting.Sound : Quoting → Prop
  | .outside => True
  | .inside q => q ≠ '\r' ∧ q ≠ '\n'
  | .escaped q => q ≠ '\r' ∧ q ≠ '\n'

theorem Quoting.Sound.next {quoting : Quoting} (h : quoting.Sound) (c : Char) :
    (quoting.next c).Sound := by
  cases quoting with
  | outside =>
      rw [Quoting.next]
      split
      · rename_i hc
        rcases hc with rfl | rfl <;> exact ⟨by decide, by decide⟩
      · trivial
  | inside q =>
      rw [Quoting.next]
      split
      · exact h
      split
      · trivial
      · exact h
  | escaped q => exact h

theorem groupExtent_crlf {quoting : Quoting} (h : quoting.Sound) (depth : Nat) (t : Text) :
    groupExtent quoting depth (crlf t) = wide (groupExtent quoting depth t) t := by
  induction t generalizing quoting depth with
  | nil => cases quoting <;> rfl
  | cons c t ih =>
      by_cases hc : c = '\n'
      · subst hc
        rw [crlf_lf]
        cases quoting with
        | outside => simp [groupExtent, Quoting.next, ih h]
        | inside q =>
            simp [groupExtent, Quoting.next, ih h, Ne.symm h.1, Ne.symm h.2]
        | escaped q =>
            have hinside : (Quoting.inside q).Sound := h
            simp [groupExtent, Quoting.next, ih hinside, Ne.symm h.2]
      · rw [crlf_cons hc]
        cases quoting with
        | outside =>
            rw [groupExtent, groupExtent]
            split
            · rw [ih h, wide_cons hc]
            split
            · split
              · rw [wide_cons hc]
                rfl
              · rw [ih h, wide_cons hc]
            · rw [ih (h.next c), wide_cons hc]
        | inside q => rw [groupExtent, groupExtent, ih (h.next c), wide_cons hc]
        | escaped q => rw [groupExtent, groupExtent, ih (h.next c), wide_cons hc]

/-- The rest of a line is a beginning of the text without line feeds. -/
theorem restOfLine_prefix (t : Text) : restOfLine t <+: t ∧ '\n' ∉ restOfLine t := by
  induction t with
  | nil => exact ⟨List.prefix_refl _, List.not_mem_nil⟩
  | cons c t ih =>
      rw [restOfLine]
      split
      · exact ⟨List.nil_prefix, List.not_mem_nil⟩
      · rename_i hc
        refine ⟨(List.prefix_cons_inj c).2 ih.1, fun hmem => ?_⟩
        rcases List.mem_cons.1 hmem with heq | hmem
        · exact hc (Or.inl heq.symm)
        · exact ih.2 hmem

theorem restOfLine_crlf (t : Text) :
    restOfLine (crlf t) = restOfLine t ∨ restOfLine (crlf t) = restOfLine t ++ ['\r'] := by
  induction t with
  | nil => exact Or.inl rfl
  | cons c t ih =>
      by_cases hc : c = '\n'
      · subst hc
        exact Or.inr rfl
      · have hhead := head?_crlf_iff (d := '>') (by decide) (by decide) t
        rw [crlf_cons hc, restOfLine, restOfLine]
        simp only [hhead]
        split
        · exact Or.inl rfl
        · exact ih.imp (congrArg (c :: ·)) (congrArg (c :: ·))

theorem lineCommentExtent_crlf (h : '\r' ∉ t) :
    lineCommentExtent (crlf t) = wide (lineCommentExtent t) t := by
  obtain ⟨hbegins, hno⟩ := restOfLine_prefix t
  have hcr : '\r' ∉ restOfLine t := fun hr => h (hbegins.mem hr)
  have hextent : lineCommentExtent t = (restOfLine t).length := by
    simp only [lineCommentExtent, dropSuffix?_of_not_mem hcr, Option.getD_none]
  rw [hextent, wide_of_begins hbegins hno]
  unfold lineCommentExtent
  rcases restOfLine_crlf t with hline | hline
  · simp only [hline, dropSuffix?_of_not_mem hcr, Option.getD_none]
  · simp only [hline, dropSuffix?_concat, if_true, Option.getD_some]

theorem commentExtent_crlf (t : Text) : commentExtent (crlf t) = wide (commentExtent t) t := by
  unfold commentExtent
  rw [find?_crlf (by decide) (by simp)]
  cases hn : find? ['*', '/'] t with
  | none => exact (wide_length t).symm
  | some n =>
      have hmark : wide 2 (t.drop n) = 2 := wide_of_begins (prefix_drop_of_find? hn) (by decide)
      simp only [Option.map_some]
      rw [wide_add, hmark]

/-! ## Heredocs -/

theorem find?_lf_append {h : Text} (hh : '\n' ∉ h) (r : Text) :
    find? ['\n'] (h ++ '\n' :: r) = some h.length := by
  induction h with
  | nil => simp [find?, startsWith, dropPrefix?]
  | cons c h ih =>
      obtain ⟨hc, hh⟩ := not_or.1 (mt List.mem_cons.2 hh)
      rw [List.cons_append, find?, ih hh]
      simp [startsWith, dropPrefix?, hc]

/-- The first line of a text, or no line feed at all. -/
theorem find?_lf (t : Text) :
    '\n' ∉ t ∧ find? ['\n'] t = none ∨
      ∃ h r, t = h ++ '\n' :: r ∧ '\n' ∉ h ∧ find? ['\n'] t = some h.length := by
  by_cases hlf : '\n' ∈ t
  · obtain ⟨h, r, rfl, hh⟩ := List.eq_append_cons_of_mem hlf
    exact Or.inr ⟨h, r, rfl, hh, find?_lf_append hh r⟩
  · refine Or.inl ⟨hlf, Option.eq_none_iff_forall_not_mem.2 fun n hn => hlf ?_⟩
    exact List.mem_of_mem_drop ((prefix_drop_of_find? hn).mem List.mem_cons_self)

theorem trim_append_cr (t : Text) : trim (t ++ ['\r']) = trim t := by
  have hblank : isBlank '\r' = true := by decide
  unfold trim trimOf trimStartOf trimEndOf
  rw [List.dropWhile_append]
  split
  · rename_i hempty
    rw [List.isEmpty_iff.1 hempty, List.dropWhile_cons_of_pos hblank]
    rfl
  · rw [List.reverse_append, List.reverse_singleton, List.singleton_append,
      List.dropWhile_cons_of_pos hblank]

theorem heredocLabel?_append_cr (header : Text) :
    heredocLabel? (header ++ ['\r']) = heredocLabel? header := by
  unfold heredocLabel?
  rw [trim_append_cr]

theorem plain_of_heredocLabel? {header label : Text} (h : heredocLabel? header = some label) :
    Plain label := by
  unfold heredocLabel? at h
  simp only at h
  split at h
  · cases h
  · rename_i hword
    rw [Option.some.inj h, Bool.or_eq_true, not_or, bne_iff_ne, not_not] at hword
    have hall := List.takeWhile_eq_self_iff.1
      ((List.takeWhile_prefix isWordChar).eq_of_length hword.2)
    exact ⟨fun hmem => absurd (hall _ hmem) (by decide), fun hmem => absurd (hall _ hmem) (by decide)⟩

theorem closingLabel?_crlf {label : Text} (hlabel : Plain label) (line : Text) :
    closingLabel? label (crlf line) = (closingLabel? label line).map (wide · line) := by
  have hblank : isBlank '\n' = isBlank '\r' := by decide
  have hword : isWordChar '\n' = isWordChar '\r' := by decide
  unfold closingLabel?
  simp only [length_takeWhile_crlf hblank, drop_wide, dropPrefix?_crlf hlabel]
  cases hrest : dropPrefix? label (line.drop (line.takeWhile isBlank).length) with
  | none => rfl
  | some rest =>
      have hbegins : label <+: line.drop (line.takeWhile isBlank).length :=
        ⟨rest, (dropPrefix?_eq_some_iff.1 hrest).symm⟩
      simp only [Option.map_some, any_head?_crlf hword]
      split
      · rfl
      · rw [Option.map_some, wide_add, wide_of_begins hbegins hlabel.2]

theorem heredocBodyExtent_crlf {label : Text} (hlabel : Plain label) (ls : List Text) :
    heredocBodyExtent label (ls.map crlf) = wide (heredocBodyExtent label ls) ls.flatten := by
  induction ls with
  | nil => rfl
  | cons line ls ih =>
      rw [List.map_cons, heredocBodyExtent, heredocBodyExtent, closingLabel?_crlf hlabel,
        List.flatten_cons]
      cases hn : closingLabel? label line with
      | none => simp only [Option.map_none, ih, wide_append_right]
      | some n => simp only [Option.map_some, wide_append_left (closingLabel?_le hn)]

theorem heredocExtent?_crlf (t : Text) :
    heredocExtent? (crlf t) = (heredocExtent? t).map (wide · t) := by
  rcases find?_lf t with ⟨hno, hnone⟩ | ⟨h, r, rfl, hh, hsome⟩
  · rw [crlf_eq_self hno, heredocExtent?, hnone]
    rfl
  · have hlong : crlf (h ++ '\n' :: r) = (h ++ ['\r']) ++ '\n' :: crlf r := by
      rw [crlf_append, crlf_lf, crlf_eq_self hh]
      simp
    have hcr : '\n' ∉ h ++ ['\r'] := by simpa using hh
    have hdrop : ∀ a b : Text, (a ++ '\n' :: b).drop (a.length + 1) = b := fun a b => by simp
    unfold heredocExtent?
    rw [hsome, hlong, find?_lf_append hcr]
    simp only [List.take_left, heredocLabel?_append_cr, hdrop, pieces_crlf]
    cases hlabel : heredocLabel? h with
    | none => rfl
    | some label =>
        simp only [Option.map_some, heredocBodyExtent_crlf (plain_of_heredocLabel? hlabel),
          flatten_pieces, Nat.add_assoc, wide_append_right, crlf_eq_self hh]
        rw [Nat.add_comm 1 (heredocBodyExtent _ _), wide_lf]
        simp
        omega

/-! ## Cuts -/

/-- The cut with the longer line breaks of the text it is made in. -/
def widen (t : Text) (k : Cut) : Cut := { k with extra := wide k.extra t }

theorem lineBreakExtent_crlf (h : '\r' ∉ t) :
    lineBreakExtent (crlf t) = wide (lineBreakExtent t) t := by
  cases t with
  | nil => rfl
  | cons c t =>
      by_cases hc : c = '\n'
      · subst hc
        simp [lineBreakExtent, startsWith, dropPrefix?]
      · have hr : '\r' ≠ c := fun heq => h (heq ▸ List.mem_cons_self)
        simp [crlf_cons hc, lineBreakExtent, startsWith, dropPrefix?, Ne.symm hc, hr]

theorem sameLetters_take {p : Text} (hp : lower p = p) (t : Text) :
    sameLetters (t.take p.length) p = startsWith p (lower t) := by
  have htake : lower (t.take p.length) = (lower t).take p.length := List.map_take
  rw [sameLetters, hp, htake, Bool.eq_iff_iff, beq_iff_eq, startsWith_iff, List.prefix_iff_eq_take]
  exact eq_comm

theorem wide_lower (n : Nat) (t : Text) : wide n (lower t) = wide n t := by
  have htake : (lower t).take n = lower (t.take n) := List.map_take.symm
  rw [wide, htake, ← lower_crlf, lower, List.length_map, wide]

theorem htmlCut_crlf {c : Char} (h : '\r' ∉ t) : htmlCut c (crlf t) = widen t (htmlCut c t) := by
  have hhead := head?_crlf_iff (d := '?') (by decide) (by decide) t
  have hphp : ∀ u : Text, sameLetters (u.take 4) "?php" = startsWith "?php" (lower u) :=
    sameLetters_take (p := "?php") (by decide)
  unfold htmlCut
  simp only [hhead, hphp, lower_crlf, startsWith_crlf (p := "?php") (by decide),
    startsWith_crlf (p := "?=") (by decide)]
  split
  · rename_i hopen
    -- the tag itself holds no line break
    have htag : ∀ tag, tag = (if startsWith "?php" (lower t) then 4
        else if startsWith "?=" t then 2 else 1) → wide tag t = tag := by
      rintro tag rfl
      split
      · rename_i hstart
        rw [← wide_lower]
        exact wide_of_begins (startsWith_iff.1 hstart) (by decide)
      split
      · rename_i hstart
        exact wide_of_begins (startsWith_iff.1 hstart) (by decide)
      · obtain ⟨t, rfl⟩ := List.head?_eq_some_iff.1 hopen.2
        rfl
    generalize hn : (if startsWith "?php" (lower t) then 4
        else if startsWith "?=" t then 2 else 1) = tag
    have hwide := htag tag hn.symm
    have hdrop : (crlf t).drop tag = crlf (t.drop tag) := by
      rw [← drop_wide, hwide]
    have hbreak := lineBreakExtent_crlf fun hr => h (List.mem_of_mem_drop (i := tag) hr)
    rw [widen, wide_add, hwide, hdrop, hbreak]
  · rw [find?_crlf (p := "<?") (by decide) (by decide), widen]
    cases find? "<?" t with
    | none => rw [Option.map_none, Option.getD_none, Option.getD_none, wide_length]
    | some n => rfl

theorem isDocBlock_crlf (text : Text) : isDocBlock (crlf text) = isDocBlock text := by
  unfold isDocBlock
  rw [dropPrefix?_crlf (p := "/**") (by decide)]
  cases dropPrefix? "/**" text with
  | none => rfl
  | some rest =>
      cases rest with
      | nil => rfl
      | cons c rest =>
          by_cases hc : c = '\n'
          · subst hc
            rfl
          · rw [Option.map_some, crlf_cons hc]

theorem find?_operators_crlf {c : Char} (hc : c ≠ '\n') (t : Text) :
    operators.find? (startsWith · (c :: crlf t)) = operators.find? (startsWith · (c :: t)) := by
  have hplain : ∀ op ∈ operators, Plain op := by decide
  have hstart : ∀ op ∈ operators, startsWith op (c :: crlf t) = startsWith op (c :: t) := by
    intro op hop
    rw [← crlf_cons hc, startsWith_crlf (hplain op hop)]
  rw [← List.head?_filter, ← List.head?_filter, List.filter_congr hstart]

theorem operator_eq {c : Char} {t op : Text}
    (h : operators.find? (startsWith · (c :: t)) = some op) :
    ∃ rest, op = c :: rest ∧ rest <+: t ∧ '\n' ∉ op := by
  have hplain : ∀ op ∈ operators, op ≠ [] ∧ '\n' ∉ op := by decide
  obtain ⟨hne, hno⟩ := hplain op (List.mem_of_find?_eq_some h)
  have hop : op <+: c :: t := startsWith_iff.1 (by simpa using List.find?_some h)
  cases op with
  | nil => exact absurd rfl hne
  | cons d rest =>
      obtain ⟨rfl, hrest⟩ := List.cons_prefix_cons.1 hop
      exact ⟨rest, rfl, hrest, hno⟩

theorem not_mem_take_wordLength (t : Text) : '\n' ∉ t.take (wordLength t) := by
  rw [wordLength, ← List.prefix_iff_eq_take.1 (List.takeWhile_prefix _)]
  intro hmem
  exact absurd (List.mem_takeWhile_imp hmem) (by decide)

/-- A choice between two lexemes is made in the same way. -/
theorem ite_widen {p q : Prop} [Decidable p] [Decidable q] {x x' y y' : Kind × Nat} (hpq : p ↔ q)
    (hx : q → x' = (x.1, wide x.2 t)) (hy : ¬q → y' = (y.1, wide y.2 t)) :
    (if p then x' else y') = ((if q then x else y).1, wide (if q then x else y).2 t) := by
  by_cases h : q
  · rw [if_pos (hpq.2 h), if_pos h]
    exact hx h
  · rw [if_neg (mt hpq.1 h), if_neg h]
    exact hy h

/-- One case for each kind of lexeme in code. -/
theorem codeLexeme_crlf {c : Char} (hc : c ≠ '\n') (hr : '\r' ∉ c :: t) :
    codeLexeme c (crlf t) = ((codeLexeme c t).1, wide (codeLexeme c t).2 t) := by
  have hcr : c ≠ '\r' := fun heq => hr (heq ▸ List.mem_cons_self)
  have hrt : '\r' ∉ t := fun hmem => hr (List.mem_cons_of_mem _ hmem)
  have hword : wordLength (crlf t) = wide (wordLength t) t := length_takeWhile_crlf (by decide) t
  have hhead : ∀ {d : Char}, d ≠ '\r' ∧ d ≠ '\n' → ((crlf t).head? = some d ↔ t.head? = some d) :=
    fun hd => head?_crlf_iff hd.1 hd.2 t
  unfold codeLexeme
  refine ite_widen Iff.rfl (fun _ => ?_) fun _ => ?_
  · rw [length_takeWhile_crlf (by decide)]
  refine ite_widen (and_congr_right' (hhead (by decide))) (fun _ => ?_) fun _ => ?_
  · have houtside : Quoting.outside.Sound := trivial
    rw [groupExtent_crlf houtside]
  refine ite_widen (or_congr_right (and_congr_right' (hhead (by decide)))) (fun _ => ?_) fun _ => ?_
  · rw [lineCommentExtent_crlf hrt]
  refine ite_widen (and_congr_right' (hhead (by decide))) (fun hstar => ?_) fun _ => ?_
  · obtain ⟨t, rfl⟩ := List.head?_eq_some_iff.1 hstar.2
    have hextra : commentExtent ((crlf ('*' :: t)).drop 1) + 1 =
        wide (commentExtent t + 1) ('*' :: t) := by
      rw [crlf_cons (by decide), wide_cons (by decide)]
      exact congrArg (· + 1) (commentExtent_crlf t)
    simp only [hextra, take_wide, ← crlf_cons hc, isDocBlock_crlf]
    rfl
  refine ite_widen Iff.rfl (fun _ => ?_) fun _ => ?_
  · rw [quotedExtent_crlf hcr hc]
  refine ite_widen (and_congr_right' ?_) (fun hopen => ?_) fun _ => ?_
  · rw [startsWith_crlf (by decide)]
  · obtain ⟨t, rfl⟩ : ∃ u, t = '<' :: '<' :: u := by
      obtain ⟨u, rfl⟩ := startsWith_iff.1 hopen.2
      exact ⟨u, rfl⟩
    have hshift : ∀ n, wide (n + 2) ('<' :: '<' :: t) = wide n t + 2 := fun n => by
      rw [wide_cons (by decide), wide_cons (by decide)]
    rw [crlf_cons (by decide), crlf_cons (by decide), List.drop_succ_cons, List.drop_succ_cons,
      List.drop_succ_cons, List.drop_succ_cons, List.drop_zero, List.drop_zero,
      heredocExtent?_crlf]
    cases heredocExtent? t with
    | none => exact Prod.ext rfl (hshift 0).symm
    | some n => exact Prod.ext rfl (hshift n).symm
  refine ite_widen (and_congr_right' ?_) (fun _ => ?_) fun _ => ?_
  · rw [any_head?_crlf (by decide)]
  · rw [hword]
  refine ite_widen Iff.rfl (fun _ => ?_) fun _ => ?_
  · simp only [hword, take_wide, crlf_eq_self (not_mem_take_wordLength t)]
  refine ite_widen Iff.rfl (fun _ => ?_) fun _ => ?_
  · rw [length_takeWhile_crlf (by decide)]
  -- brackets, `;` and `,` take no further character
  rw [find?_operators_crlf hc]
  refine Prod.ext rfl ?_
  split <;> try rfl
  split
  · rename_i op hop
    obtain ⟨rest, rfl, hrest, hno⟩ := operator_eq hop
    exact (wide_of_begins hrest fun hmem => hno (List.mem_cons_of_mem _ hmem)).symm
  · rfl

/-- The lexeme at the front, when its first character is no line feed. -/
theorem cut_crlf (mode : Mode) {c : Char} (hc : c ≠ '\n') (hr : '\r' ∉ c :: t) :
    cut mode c (crlf t) = widen t (cut mode c t) := by
  cases mode with
  | html => exact htmlCut_crlf fun hmem => hr (List.mem_cons_of_mem _ hmem)
  | code =>
      have hhead := head?_crlf_iff (d := '>') (by decide) (by decide) t
      show codeCut c (crlf t) = widen t (codeCut c t)
      unfold codeCut
      simp only [hhead, codeLexeme_crlf hc hr]
      split
      · rename_i hclose
        obtain ⟨t, rfl⟩ := List.head?_eq_some_iff.1 hclose.2
        rfl
      · rfl

/-- The lexeme at the front, when it starts with a line break. -/
theorem cut_lf (mode : Mode) (t : Text) :
    cut mode '\r' ('\n' :: crlf t) =
      { widen t (cut mode '\n' t) with extra := wide (cut mode '\n' t).extra t + 1 } := by
  cases mode with
  | html =>
      show htmlCut '\r' ('\n' :: crlf t) = _
      have hfind : find? "<?" ('\n' :: crlf t) = (find? "<?" (crlf t)).map (· + 1) := rfl
      simp only [cut, htmlCut, widen]
      rw [if_neg (by simp), if_neg (by simp), hfind, find?_crlf (p := "<?") (by decide) (by decide)]
      cases find? "<?" t with
      | none => simp [wide_length]
      | some n => rfl
  | code =>
      have hcut : ∀ (c : Char) (u : Text), isBlank c = true → c ≠ '?' →
          codeCut c u = ⟨.blank, (u.takeWhile isBlank).length, .code⟩ := by
        intro c u hblank hne
        simp [codeCut, codeLexeme, hblank, hne]
      show codeCut '\r' ('\n' :: crlf t) = _
      rw [hcut _ _ (by decide) (by decide)]
      show _ = Cut.mk (codeCut '\n' t).kind (wide (codeCut '\n' t).extra t + 1) (codeCut '\n' t).mode
      rw [hcut _ _ (by decide) (by decide), List.takeWhile_cons_of_pos (by decide), List.length_cons,
        length_takeWhile_crlf (by decide)]

/-! ## Lexemes and tokens -/

/-- **The lexemes are the same with longer line breaks.** -/
theorem lexemes_crlf (mode : Mode) (h : '\r' ∉ t) :
    lexemes mode (crlf t) = (lexemes mode t).map (·.crlf) := by
  induction hn : t.length using Nat.strongRecOn generalizing mode t with
  | ind n ih =>
      cases t with
      | nil => rfl
      | cons c t =>
          have hrest : lexemes (cut mode c t).mode (crlf (t.drop (cut mode c t).extra)) =
              (lexemes (cut mode c t).mode (t.drop (cut mode c t).extra)).map (·.crlf) := by
            refine ih _ ?_ _ (fun hr => h (List.mem_cons_of_mem _ (List.mem_of_mem_drop hr))) rfl
            rw [← hn, List.length_drop, List.length_cons]
            omega
          rw [lexemes_cons, List.map_cons, ← hrest, ← drop_wide]
          by_cases hc : c = '\n'
          · subst hc
            rw [crlf_lf, lexemes_cons, cut_lf]
            simp only [widen, List.take_succ_cons, List.drop_succ_cons, take_wide]
            rfl
          · rw [crlf_cons hc, lexemes_cons, cut_crlf mode hc h]
            simp only [widen, take_wide, ← crlf_cons hc]
            rfl

/-! ## Words -/

/-- A lexeme of a name or an operator holds no line feed. -/
def Unbroken (c : Char) (t : Text) (x : Kind × Nat) : Prop :=
  x.1.isWord = true → '\n' ∉ c :: t.take x.2

theorem unbroken_of_kind {c : Char} {x : Kind × Nat} (h : x.1.isWord = false) :
    Unbroken c t x := fun hword => by
  rw [h] at hword
  cases hword

theorem unbroken_of_rest {c : Char} {x : Kind × Nat} (hc : c ≠ '\n') (h : '\n' ∉ t.take x.2) :
    Unbroken c t x := by
  intro _ hmem
  rcases List.mem_cons.1 hmem with heq | hmem
  · exact hc heq.symm
  · exact h hmem

theorem unbroken_ite {c : Char} {p : Prop} [Decidable p] {x y : Kind × Nat}
    (hx : p → Unbroken c t x) (hy : ¬p → Unbroken c t y) : Unbroken c t (if p then x else y) := by
  by_cases h : p
  · rw [if_pos h]; exact hx h
  · rw [if_neg h]; exact hy h

theorem unbroken_codeLexeme (c : Char) (t : Text) : Unbroken c t (codeLexeme c t) := by
  unfold codeLexeme
  refine unbroken_ite (fun _ => unbroken_of_kind rfl) fun hblank => ?_
  have hc : c ≠ '\n' := by
    rintro rfl
    exact hblank (by decide)
  refine unbroken_ite (fun _ => unbroken_of_kind rfl) fun _ => ?_
  refine unbroken_ite (fun _ => unbroken_of_kind rfl) fun _ => ?_
  refine unbroken_ite (fun _ => unbroken_of_kind ?_) fun _ => ?_
  · simp only
    split <;> rfl
  refine unbroken_ite (fun _ => unbroken_of_kind rfl) fun _ => ?_
  refine unbroken_ite (fun hopen => ?_) fun _ => ?_
  · obtain ⟨u, rfl⟩ := startsWith_iff.1 hopen.2
    split
    · exact unbroken_of_kind rfl
    · exact unbroken_of_rest hc (by simp)
  refine unbroken_ite (fun _ => unbroken_of_rest hc (not_mem_take_wordLength t)) fun _ => ?_
  refine unbroken_ite (fun _ => unbroken_of_rest hc (not_mem_take_wordLength t)) fun _ => ?_
  refine unbroken_ite (fun _ => unbroken_of_kind rfl) fun _ => ?_
  split <;> try exact unbroken_of_kind rfl
  split
  · rename_i op hop
    obtain ⟨rest, rfl, hrest, hno⟩ := operator_eq hop
    refine unbroken_of_rest hc ?_
    simp only [List.length_cons, Nat.add_sub_cancel, ← List.prefix_iff_eq_take.1 hrest]
    exact fun hmem => hno (List.mem_cons_of_mem _ hmem)
  · exact unbroken_of_rest hc List.not_mem_nil

theorem unbroken_cut (mode : Mode) (c : Char) (t : Text) :
    Unbroken c t ((cut mode c t).kind, (cut mode c t).extra) := by
  cases mode with
  | html =>
      show Unbroken c t ((htmlCut c t).kind, (htmlCut c t).extra)
      unfold htmlCut
      split
      · exact unbroken_of_kind rfl
      · exact unbroken_of_kind rfl
  | code =>
      show Unbroken c t ((codeCut c t).kind, (codeCut c t).extra)
      unfold codeCut
      split
      · exact unbroken_of_kind rfl
      · exact unbroken_codeLexeme c t

/-- Names, keywords, variables and operators hold no line break. -/
theorem not_mem_text_of_isWord {mode : Mode} {l : Lexeme} (hl : l ∈ lexemes mode t)
    (hword : l.kind.isWord = true) : '\n' ∉ l.text := by
  induction hn : t.length using Nat.strongRecOn generalizing mode t with
  | ind n ih =>
      cases t with
      | nil => cases hl
      | cons c t =>
          rw [lexemes_cons] at hl
          rcases List.mem_cons.1 hl with rfl | hl
          · exact unbroken_cut mode c t hword
          · refine ih _ ?_ hl rfl
            rw [← hn, List.length_drop, List.length_cons]
            omega

/-! ## Tokens -/

theorem startMode_crlf (source : Text) : startMode (crlf source) = startMode source := by
  unfold startMode
  rw [contains_crlf (by decide) (by decide), lower_crlf, contains_crlf (by decide) (by decide)]

/-- The token without its offset. -/
def onLine (t : Token) : Token := { t with offset := 0 }

/-- The token with longer line breaks, without its offset. -/
def crlfOnLine (t : Token) : Token := { t with text := Text.crlf t.text, offset := 0 }

theorem place_crlf (line offset offset' : Nat) (ls : List Lexeme) :
    (place line offset' (ls.map (·.crlf))).map onLine = (place line offset ls).map crlfOnLine := by
  induction ls generalizing line offset offset' with
  | nil => rfl
  | cons l ls ih =>
      have hbreaks : breaks l.crlf.text = breaks l.text := breaks_crlf l.text
      rw [List.map_cons, place, place, List.map_cons, List.map_cons, hbreaks,
        ih (line + breaks l.text) (offset + utf8Length l.text)]
      rfl

/-- **The tokens are the same with longer line breaks, on the same lines.** -/
theorem tokenize_crlf {source : Text} (h : '\r' ∉ source) :
    (tokenize (crlf source)).map onLine = (tokenize source).map crlfOnLine := by
  unfold tokenize
  rw [startMode_crlf, lexemes_crlf _ h]
  exact place_crlf 1 0 0 _

end Token

end DocLint
