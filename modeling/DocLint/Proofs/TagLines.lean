import DocLint.Proofs.Location
import DocLint.Proofs.Words

/-!
# The lines of tags

A tag says on which line of the source it stands. The line is counted in two steps, up to the
comment by the lexer and inside of the comment by its own lines, of which a carriage return and the
comment marks have been cut off.

* `OnLine`: a mark stands on a line of the source; `onLine_of_lines`: the lines of a part of the
  source stand on lines of the source.
* `contentLine_isInfix`: what is read off a line stands on it.
* `exists_line_of_tag`, `pairwise_line_readTags`, `exists_lineOf_eq`: the lines of tags and the
  first line with a mark, inside of a comment.
* `tags_on_source_lines`: the lines of tags are lines of the source that hold them.
-/

namespace DocLint

namespace Text

variable {t l p : Text} {k : Nat}

/-- The mark stands on the line `n` of the source; line feeds separate the lines, and the first of
them is the line 1. -/
def OnLine (mark source : Text) (n : Nat) : Prop :=
  ∃ k l, n = 1 + k ∧ (splitOn '\n' source)[k]? = some l ∧ mark <:+: l

/-! ## Parts of a source -/

theorem splitOn_cons_of_ne {c sep : Char} (h : c ≠ sep) (t : Text) :
    ∃ q qs, splitOn sep t = q :: qs ∧ splitOn sep (c :: t) = (c :: q) :: qs := by
  obtain ⟨q, qs, hq⟩ := List.exists_cons_of_ne_nil (splitOn_ne_nil sep t)
  refine ⟨q, qs, hq, ?_⟩
  rw [splitOn, if_neg h, hq]

/-- Behind another text, the lines of a text move down by its line feeds. -/
theorem exists_line_behind (front : Text) (h : (splitOn '\n' t)[k]? = some l) :
    ∃ l', (splitOn '\n' (front ++ t))[breaks front + k]? = some l' ∧ l <:+: l' := by
  induction front with
  | nil => exact ⟨l, by simpa using h, List.infix_rfl⟩
  | cons c front ih =>
      obtain ⟨l', hl', hinside⟩ := ih
      rw [List.cons_append, breaks_cons]
      by_cases hc : c = '\n'
      · refine ⟨l', ?_, hinside⟩
        rw [splitOn, if_pos hc, if_pos hc, Nat.add_right_comm, List.getElem?_cons_succ]
        exact hl'
      · obtain ⟨q, qs, hq, hsplit⟩ := splitOn_cons_of_ne hc (front ++ t)
        rw [hq] at hl'
        rw [hsplit, if_neg hc, Nat.add_zero]
        -- only the first line grows by the character
        cases hn : breaks front + k with
        | zero =>
            rw [hn, List.getElem?_cons_zero, Option.some.injEq] at hl'
            subst hl'
            exact ⟨c :: q, by simp, List.infix_cons hinside⟩
        | succ n =>
            rw [hn, List.getElem?_cons_succ] at hl'
            exact ⟨l', by simpa using hl', hinside⟩

/-- Before another text, the lines of a text stay where they are. -/
theorem exists_line_before (back : Text) (h : (splitOn '\n' t)[k]? = some l) :
    ∃ l', (splitOn '\n' (t ++ back))[k]? = some l' ∧ l <+: l' := by
  induction t generalizing k l with
  | nil =>
      obtain ⟨q, qs, hq⟩ := List.exists_cons_of_ne_nil (splitOn_ne_nil '\n' back)
      cases k with
      | zero =>
          rw [splitOn, List.getElem?_cons_zero, Option.some.injEq] at h
          subst h
          exact ⟨q, by simp [hq], List.nil_prefix⟩
      | succ k => simp [splitOn] at h
  | cons c t ih =>
      rw [List.cons_append]
      by_cases hc : c = '\n'
      · rw [splitOn, if_pos hc] at h ⊢
        cases k with
        | zero => exact ⟨l, h, List.prefix_rfl⟩
        | succ k => exact ih h
      · obtain ⟨q, qs, hq, hsplit⟩ := splitOn_cons_of_ne hc t
        obtain ⟨r, rs, hr, hlonger⟩ := splitOn_cons_of_ne hc (t ++ back)
        rw [hq, hr] at ih
        rw [hsplit] at h
        rw [hlonger]
        cases k with
        | zero =>
            obtain ⟨l', hl', hbegins⟩ := ih (k := 0) rfl
            simp only [List.getElem?_cons_zero, Option.some.injEq] at h hl' ⊢
            subst h hl'
            exact ⟨c :: r, rfl, List.cons_prefix_cons.2 ⟨rfl, hbegins⟩⟩
        | succ k => exact ih (k := k + 1) h

/-- A piece is a line, with its line feed if it has one. -/
theorem exists_line_of_pieces (h : (pieces t)[k]? = some p) :
    ∃ l, (splitOn '\n' t)[k]? = some l ∧ (p = l ∨ p = l ++ ['\n']) := by
  induction t generalizing k p with
  | nil => simp [pieces] at h
  | cons c t ih =>
      by_cases hc : c = '\n'
      · rw [pieces, if_pos hc] at h
        rw [splitOn, if_pos hc]
        cases k with
        | zero =>
            rw [List.getElem?_cons_zero, Option.some.injEq] at h
            exact ⟨[], rfl, Or.inr (by rw [← h, hc]; rfl)⟩
        | succ k => exact ih h
      · obtain ⟨q, qs, hq, hsplit⟩ := splitOn_cons_of_ne hc t
        rw [pieces, if_neg hc] at h
        rw [hsplit]
        cases hp : pieces t with
        | nil =>
            -- nothing follows the character
            have ht : t = [] := by simpa [hp] using (flatten_pieces t).symm
            subst ht
            cases hq
            exact ⟨p, by simpa [hp] using h, Or.inl rfl⟩
        | cons p' ps =>
            rw [hp] at h
            cases k with
            | zero =>
                obtain ⟨l, hl, hline⟩ := ih (k := 0) (by rw [hp]; rfl)
                simp only [hq, List.getElem?_cons_zero, Option.some.injEq] at h hl
                subst h hl
                exact ⟨c :: q, rfl, hline.imp (congrArg (c :: ·)) (congrArg (c :: ·))⟩
            | succ k =>
                obtain ⟨l, hl, hline⟩ := ih (k := k + 1) (by rw [hp]; exact h)
                exact ⟨l, by simpa [hq] using hl, hline⟩

/-- Without a carriage return at its end, a line is still a part of a line. -/
theorem exists_line_of_lines (h : (lines t)[k]? = some l) :
    ∃ l', (splitOn '\n' t)[k]? = some l' ∧ l <+: l' := by
  rw [lines, List.getElem?_map, Option.map_eq_some_iff] at h
  obtain ⟨p, hp, rfl⟩ := h
  obtain ⟨l', hl', hline⟩ := exists_line_of_pieces hp
  refine ⟨l', hl', ?_⟩
  have hcr : ∀ q, (dropSuffix? ['\r'] q).getD q <+: q := by
    intro q
    cases hq : dropSuffix? ['\r'] q with
    | none => exact List.prefix_rfl
    | some r => exact ⟨['\r'], (dropSuffix?_eq_some_iff.1 hq).symm⟩
  unfold chomp
  cases hlf : dropSuffix? ['\n'] p with
  | none =>
      rcases hline with rfl | rfl
      · exact List.prefix_rfl
      · rw [dropSuffix?_eq_some_iff.2 rfl] at hlf
        cases hlf
  | some q =>
      have hq := dropSuffix?_eq_some_iff.1 hlf
      rcases hline with rfl | rfl
      · exact (hcr q).trans ⟨['\n'], hq.symm⟩
      · rw [List.append_cancel_right hq]
        exact hcr q

/-- What stands on a line of a part of the source stands on a line of the source. -/
theorem onLine_of_lines {mark : Text} (front back : Text) (h : (lines t)[k]? = some l)
    (hmark : mark <:+: l) : OnLine mark (front ++ (t ++ back)) (1 + breaks front + k) := by
  obtain ⟨line, hline, hbegins⟩ := exists_line_of_lines h
  obtain ⟨longer, hlonger, hmore⟩ := exists_line_before back hline
  obtain ⟨whole, hwhole, hinside⟩ := exists_line_behind front hlonger
  refine ⟨breaks front + k, whole, Nat.add_assoc .., hwhole, ?_⟩
  exact hmark.trans ((hbegins.trans hmore).isInfix.trans hinside)

end Text

open Text

namespace DocBlock

variable {raw mark : Text} {n : Nat}

/-! ## Lines of a comment -/

theorem trim_isInfix (t : Text) : trim t <:+: t := by
  obtain ⟨front, back, ht, _⟩ := Token.trimOf_spec isBlank t
  exact ⟨front, back, ht.symm⟩

theorem trimStartOf_isInfix (p : Char → Bool) (t : Text) : trimStartOf p t <:+: t :=
  (List.dropWhile_suffix p).isInfix

/-- What is read off a line of a comment stands on the line. -/
theorem contentLine_isInfix (isFirst isLast : Bool) (line : Text) :
    contentLine isFirst isLast line <:+: line := by
  have hlast : ∀ t : Text, (if isLast then (dropSuffix? "*/" t).getD t else t) <:+: t := by
    intro t
    split
    · cases h : dropSuffix? "*/" t with
      | none => exact List.infix_rfl
      | some r => exact ⟨[], "*/".toList, (dropSuffix?_eq_some_iff.1 h).symm⟩
    · exact List.infix_rfl
  unfold contentLine
  refine (trim_isInfix _).trans ?_
  cases isFirst with
  | true =>
      refine (hlast _).trans ?_
      refine (trimStartOf_isInfix _ _).trans ?_
      exact (trimStartOf_isInfix _ _).trans (trim_isInfix line)
  | false =>
      refine (trimStartOf_isInfix _ _).trans ?_
      exact (hlast _).trans (trim_isInfix line)

theorem exists_of_getElem?_contentLines {k : Nat} {c : Text} (h : (contentLines raw)[k]? = some c) :
    ∃ l, (lines raw)[k]? = some l ∧ c <:+: l := by
  rw [contentLines, List.getElem?_map, Option.map_eq_some_iff] at h
  obtain ⟨⟨l, i⟩, hl, rfl⟩ := h
  rw [List.getElem?_zipIdx, Option.map_eq_some_iff] at hl
  obtain ⟨l', hl', heq⟩ := hl
  cases heq
  exact ⟨l, hl', contentLine_isInfix _ _ l⟩

/-! ## Tags of a comment -/

/-- A tag has the number and the first word of a content line. -/
theorem exists_of_mem_readTags {content : List Text} {tag : Tag} (h : tag ∈ readTags n content) :
    ∃ k c, content[k]? = some c ∧ tag.line = n + k ∧ '@' :: tag.name <+: c := by
  induction content generalizing n with
  | nil => cases h
  | cons c content ih =>
      -- a tag of a later line is found there
      have later : tag ∈ readTags (n + 1) content →
          ∃ k d, (c :: content)[k]? = some d ∧ tag.line = n + k ∧ '@' :: tag.name <+: d := by
        intro h
        obtain ⟨k, d, hd, hline, hname⟩ := ih h
        exact ⟨k + 1, d, by simpa using hd, by omega, hname⟩
      rw [readTags] at h
      split at h
      · rename_i htag
        rcases List.mem_cons.1 h with rfl | h
        · obtain ⟨t, rfl⟩ := List.head?_eq_some_iff.1 (beq_iff_eq.1 htag)
          refine ⟨0, '@' :: t, rfl, rfl, List.cons_prefix_cons.2 ⟨rfl, ?_⟩⟩
          show (spanWord t).1 <+: t
          rw [spanWord_eq]
          exact List.takeWhile_prefix _
        · exact later h
      · exact later h

/-- A tag stands on its line of the comment. -/
theorem exists_line_of_tag {tag : Tag} (h : tag ∈ readTags n (contentLines raw)) :
    ∃ k l, (lines raw)[k]? = some l ∧ tag.line = n + k ∧ '@' :: tag.name <:+: l := by
  obtain ⟨k, c, hc, hline, hname⟩ := exists_of_mem_readTags h
  obtain ⟨l, hl, hinside⟩ := exists_of_getElem?_contentLines hc
  exact ⟨k, l, hl, hline, hname.isInfix.trans hinside⟩

/-- Tags stand on different lines, in order. -/
theorem pairwise_line_readTags (n : Nat) (content : List Text) :
    ((readTags n content).map (·.line)).Pairwise (· < ·) := by
  rw [line_readTags]
  refine List.Pairwise.sublist (List.filter_sublist.map _) ?_
  rw [List.zipIdx_map_snd]
  exact List.pairwise_lt_range'

/-- A mark that stands on a line of the comment is looked up on the first such line. -/
theorem exists_lineOf_eq (d : DocBlock) {k : Nat} {l : Text} (hl : (lines d.raw)[k]? = some l)
    (hmark : mark <:+: l) :
    ∃ j l', d.lineOf mark = d.line + j ∧ j ≤ k ∧ (lines d.raw)[j]? = some l' ∧ mark <:+: l' := by
  obtain ⟨hk, rfl⟩ := List.getElem?_eq_some_iff.1 hl
  unfold lineOf
  cases hfind : (lines d.raw).findIdx? (contains mark ·) with
  | none =>
      have hno := List.findIdx?_eq_none_iff.1 hfind _ (List.getElem_mem hk)
      rw [contains_iff.2 hmark] at hno
      cases hno
  | some j =>
      obtain ⟨hj, hcontains, hfirst⟩ := List.findIdx?_eq_some_iff_getElem.1 hfind
      refine ⟨j, (lines d.raw)[j], rfl, ?_, List.getElem?_eq_getElem hj, contains_iff.1 hcontains⟩
      apply Nat.le_of_not_lt
      intro hlt
      exact hfirst k hlt (contains_iff.2 hmark)

/-! ## Lines of the source -/

/-- **The lines of tags are lines of the source.** For a comment of a source, the line of each tag
holds `@` and the name of the tag, the lines of the tags increase and lie between the first and the
last line of the comment, and the line that is looked up for a tag's name is not behind a tag of
that name and holds it. -/
theorem tags_on_source_lines (path source : Text) (d : DocBlock)
    (hd : d ∈ (SourceFile.parse path source).outline.docs) :
    (∀ tag ∈ d.tags, OnLine ('@' :: tag.name) source tag.line) ∧
    (d.tags.map (·.line)).Pairwise (· < ·) ∧
    (∀ tag ∈ d.tags, d.line ≤ tag.line ∧ tag.line ≤ d.line + breaks d.raw) ∧
    (∀ tag ∈ d.tags, d.lineOf ('@' :: tag.name) ≤ tag.line ∧
      OnLine ('@' :: tag.name) source (d.lineOf ('@' :: tag.name))) := by
  obtain ⟨t, ht, hread⟩ := Outline.Pass.isOf_of_mem_docs hd
  obtain ⟨hcut, hline, _⟩ := Token.tokenize_split ht
  have hraw : d.raw = t.text := by rw [hread]; rfl
  have hfirst : d.line = t.line := by rw [hread]; rfl
  have htags : d.tags = readTags d.line (contentLines d.raw) := by rw [hread]; rfl
  generalize Token.textOf ((Token.tokenize source).take d.tokenIndex) = front,
    Token.textOf ((Token.tokenize source).drop (d.tokenIndex + 1)) = back at hcut hline
  -- the lines of the comment are lines of the source from its first line on
  have hsource : ∀ {mark l : Text} {k : Nat}, (lines d.raw)[k]? = some l → mark <:+: l →
      OnLine mark source (d.line + k) := by
    intro mark l k hl hmark
    rw [hraw] at hl
    rw [hfirst, hline, hcut]
    exact onLine_of_lines _ _ hl hmark
  rw [htags]
  refine ⟨fun tag htag => ?_, pairwise_line_readTags _ _, fun tag htag => ?_, fun tag htag => ?_⟩
  · obtain ⟨k, l, hl, hat, hname⟩ := exists_line_of_tag htag
    rw [hat]
    exact hsource hl hname
  · obtain ⟨k, l, hl, hat, _⟩ := exists_line_of_tag htag
    have hk := (List.getElem?_eq_some_iff.1 hl).1
    have hlength := length_pieces_le d.raw
    rw [lines, List.length_map] at hk
    omega
  · obtain ⟨k, l, hl, hat, hname⟩ := exists_line_of_tag htag
    obtain ⟨j, l', hlookup, hle, hl', hfound⟩ := exists_lineOf_eq d hl hname
    rw [hlookup]
    exact ⟨by omega, hsource hl' hfound⟩

/-- Two tags behind carriage returns, the name of the first one also in the description. -/
theorem tags_on_source_lines_crlf :
    let source : Text := "<?php\r\n\r\n/** As @param:\r\n * @param int $x\r\n * @return int */"
    let raw : Text := "/** As @param:\r\n * @param int $x\r\n * @return int */"
    let token : Token := { kind := .docComment, text := raw, line := 3, offset := 9 }
    let d := DocBlock.ofToken token 2
    d ∈ (SourceFile.parse "a.php" source).outline.docs ∧
      d.tags.map (fun tag => (tag.name, tag.line)) = [("param".toList, 4), ("return".toList, 5)] ∧
      d.lineOf "@param" = 3 ∧
      (∀ tag ∈ d.tags, d.lineOf ('@' :: tag.name) ≤ tag.line ∧
        OnLine ('@' :: tag.name) source (d.lineOf ('@' :: tag.name))) := by
  intro source raw token d
  have hd : d ∈ (SourceFile.parse "a.php" source).outline.docs := by decide +kernel
  refine ⟨hd, by decide +kernel, by decide +kernel, ?_⟩
  exact (tags_on_source_lines "a.php" source d hd).2.2.2

end DocBlock

end DocLint
