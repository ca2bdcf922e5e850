import DocLint.Proofs.Closing
import DocLint.Proofs.Words
import DocLint.Rule.Content

/-!
# Marks of comments

The marks of a comment are stripped line by line. The first line loses the slashes and the stars in
front and the last line one `*/` behind; where both are one line, and where the last line has stars
of its own, the rules meet, and something of the marks can be left over.

* `trim_blanks_append`, `trim_append_blanks`, `trim_eq_self`: blanks at the ends.
* `contentLines_of_line`, `contentLines_of_lines`: the content of a comment, line by line.
* `paragraphs_append`, `readTags_append`: paragraphs between empty lines, and lines without a tag.
* `BareBlock`: comments of marks only; `contentLines_bare`: what is left of their marks.
* `bare_block_empty_iff`: which of them are read as empty.
-/

namespace DocLint

/-! ## Blanks at the ends -/

namespace Text

variable {r t : Text}

theorem trim_blanks_append (hr : ∀ c ∈ r, isBlank c = true) (t : Text) :
    trim (r ++ t) = trim t := by
  unfold trim trimOf trimStartOf
  rw [List.dropWhile_append_of_pos hr]

theorem trim_append_blanks (hr : ∀ c ∈ r, isBlank c = true) (t : Text) :
    trim (t ++ r) = trim t := by
  have hr' : ∀ c ∈ r.reverse, isBlank c = true := fun c hc => hr c (List.mem_reverse.1 hc)
  have hblank : (r ++ []).dropWhile isBlank = [] := List.dropWhile_append_of_pos hr
  rw [List.append_nil] at hblank
  unfold trim trimOf trimStartOf trimEndOf
  rw [List.dropWhile_append]
  split
  · rename_i hempty
    rw [hblank, List.isEmpty_iff.1 hempty]
  · rw [List.reverse_append, List.dropWhile_append_of_pos hr']

/-- A text without blanks at its ends. -/
def IsTrimmed (t : Text) : Prop :=
  (∀ c ∈ t.head?, isBlank c = false) ∧ ∀ c ∈ t.getLast?, isBlank c = false

instance (t : Text) : Decidable (IsTrimmed t) :=
  decidable_of_iff (t.head?.all (!isBlank ·) = true ∧ t.getLast?.all (!isBlank ·) = true)
    (by simp [IsTrimmed, Option.all_eq_true])

theorem trimStartOf_eq_self {p : Char → Bool} (h : ∀ c ∈ t.head?, p c = false) :
    trimStartOf p t = t := by
  cases t with
  | nil => rfl
  | cons c t => exact List.dropWhile_cons_of_neg (Bool.not_eq_true _ ▸ h c rfl)

theorem forall_head?_cons {P : Char → Prop} {c : Char} (h : P c) : ∀ d ∈ (c :: t).head?, P d := by
  intro d hd
  rw [← Option.mem_some_iff.1 hd]
  exact h

theorem trim_eq_self (h : IsTrimmed t) : trim t = t := by
  have hlast : ∀ c ∈ t.reverse.head?, isBlank c = false := by
    intro c hc
    rw [List.head?_reverse] at hc
    exact h.2 c hc
  rw [trim, trimOf, trimStartOf_eq_self h.1]
  show (trimStartOf isBlank t.reverse).reverse = t
  rw [trimStartOf_eq_self hlast, List.reverse_reverse]

/-- Blanks around a text without blanks at its ends. -/
theorem trim_between {a b : Text} (ha : ∀ c ∈ a, isBlank c = true) (hb : ∀ c ∈ b, isBlank c = true)
    (h : IsTrimmed t) : trim (a ++ t ++ b) = t := by
  rw [trim_append_blanks hb, trim_blanks_append ha, trim_eq_self h]

end Text

open Text

namespace DocBlock

/-! ## Lines and their content -/

variable {first last : Text} {middle : List Text}

theorem contentLine_first (l : Text) :
    contentLine true false l = trim (((trim l).dropWhile (· == '/')).dropWhile (· == '*')) := rfl

theorem contentLine_middle (l : Text) :
    contentLine false false l = trim ((trim l).dropWhile (· == '*')) := rfl

theorem contentLine_last {l t : Text} (h : dropSuffix? "*/" (trim l) = some t) :
    contentLine false true l = trim (t.dropWhile (· == '*')) := by
  show trim (((dropSuffix? "*/" (trim l)).getD (trim l)).dropWhile (· == '*')) = _
  rw [h, Option.getD_some]

theorem contentLine_only (l : Text) :
    contentLine true true l =
      let t := ((trim l).dropWhile (· == '/')).dropWhile (· == '*')
      trim ((dropSuffix? "*/" t).getD t) := rfl

theorem contentLine_chomp (isFirst isLast : Bool) (l : Text) :
    contentLine isFirst isLast (chomp (l ++ ['\n'])) = contentLine isFirst isLast l := by
  have htrim : trim (chomp (l ++ ['\n'])) = trim l := by
    rw [chomp, dropSuffix?_concat, if_pos rfl]
    show trim ((dropSuffix? ['\r'] l).getD l) = trim l
    cases h : dropSuffix? ['\r'] l with
    | none => rfl
    | some q =>
        have hcr : ∀ c ∈ ['\r'], isBlank c = true := List.forall_mem_singleton.2 rfl
        rw [dropSuffix?_eq_some_iff.1 h, Option.getD_some, trim_append_blanks hcr]
  rw [contentLine, contentLine, htrim]

/-- A comment of one line. -/
theorem contentLines_of_line (h : '\n' ∉ first) (hne : first ≠ []) :
    contentLines first = [contentLine true true first] := by
  have hlines : lines first = [first] := by
    rw [lines, Token.pieces_of_not_mem h hne, List.map_singleton, chomp, dropSuffix?_of_not_mem h]
  rw [contentLines, hlines]
  rfl

theorem lines_of_lines (hfirst : '\n' ∉ first) (hmiddle : ∀ l ∈ middle, '\n' ∉ l)
    (hlast : '\n' ∉ last) (hne : last ≠ []) :
    lines (first ++ middle.flatMap ('\n' :: ·) ++ '\n' :: last) =
      (first :: middle).map (fun l => chomp (l ++ ['\n'])) ++ [last] := by
  induction middle generalizing first with
  | nil =>
      rw [List.flatMap_nil, List.append_nil, lines, Token.pieces_append_lf hfirst,
        Token.pieces_of_not_mem hlast hne]
      simp [chomp, dropSuffix?_of_not_mem hlast]
  | cons l middle ih =>
      obtain ⟨hl, hmiddle⟩ := List.forall_mem_cons.1 hmiddle
      have ih := ih hl hmiddle
      rw [lines] at ih ⊢
      rw [List.flatMap_cons, List.cons_append, List.append_assoc, List.cons_append,
        Token.pieces_append_lf hfirst, List.map_cons, ih]
      rfl

/-- What depends on the first and on the last place of a list. -/
theorem map_zipIdx_ends {α β : Type} (f : Bool → Bool → α → β) (a b : α) (m : List α) :
    let ls := a :: (m ++ [b])
    (ls.zipIdx.map fun (l, i) => f (i == 0) (i + 1 == ls.length) l) =
      f true false a :: (m.map (f false false) ++ [f false true b]) := by
  intro ls
  have hlen : ls.length = m.length + 2 := by simp [ls]
  have hmiddle : (m.zipIdx 1).map (fun (l, i) => f (i == 0) (i + 1 == m.length + 2) l) =
      m.map (f false false) := by
    nth_rewrite 3 [← List.zipIdx_map_fst 1 m]
    rw [List.map_map]
    refine List.map_congr_left fun x hx => ?_
    obtain ⟨hle, hlt, _⟩ := List.mem_zipIdx hx
    have hfirst : (x.2 == 0) = false := beq_false_of_ne (by omega)
    have hlast : (x.2 + 1 == m.length + 2) = false := beq_false_of_ne (by omega)
    simp only [hfirst, hlast, Function.comp]
  rw [hlen, List.zipIdx_cons, List.zipIdx_append, List.map_cons, List.map_append, hmiddle]
  simp [Nat.add_comm]

/-- A comment of two or more lines. -/
theorem contentLines_of_lines (hfirst : '\n' ∉ first) (hmiddle : ∀ l ∈ middle, '\n' ∉ l)
    (hlast : '\n' ∉ last) (hne : last ≠ []) :
    contentLines (first ++ middle.flatMap ('\n' :: ·) ++ '\n' :: last) =
      contentLine true false first ::
        (middle.map (contentLine false false) ++ [contentLine false true last]) := by
  rw [contentLines, lines_of_lines hfirst hmiddle hlast hne, List.map_cons, List.cons_append]
  simp only [map_zipIdx_ends]
  rw [List.map_map, contentLine_chomp]
  simp only [Function.comp_def, contentLine_chomp]

/-! ## Paragraphs and tags -/

theorem paragraphs_cons_nil (ls : List Text) : paragraphs ([] :: ls) = paragraphs ls := rfl

theorem groups_append {p : List Text} (h : ∀ l ∈ p, l ≠ []) (ls : List Text) :
    groups (p ++ [] :: ls) = p :: groups ls := by
  induction p with
  | nil => rfl
  | cons l p ih =>
      obtain ⟨hl, hp⟩ := List.forall_mem_cons.1 h
      rw [List.cons_append, groups, if_neg (by simpa using hl), ih hp]

/-- Lines that are not empty up to an empty one are a paragraph. -/
theorem paragraphs_append {p : List Text} (hne : p ≠ []) (h : ∀ l ∈ p, l ≠ []) (ls : List Text) :
    paragraphs (p ++ [] :: ls) = p :: paragraphs ls := by
  rw [paragraphs, groups_append h, List.filter_cons_of_pos (by simpa using hne), paragraphs]

/-- Lines that start no tag only count. -/
theorem readTags_append {ls : List Text} (h : ∀ l ∈ ls, isTagLine l = false) (n : Nat)
    (more : List Text) : readTags n (ls ++ more) = readTags (n + ls.length) more := by
  induction ls generalizing n with
  | nil => rfl
  | cons l ls ih =>
      obtain ⟨hl, hls⟩ := List.forall_mem_cons.1 h
      rw [List.cons_append, readTags, if_neg (by simp [hl]), ih hls, List.length_cons,
        Nat.add_right_comm, Nat.add_assoc]

/-! ## Comments of marks only -/

/-- Stars in a row. -/
def stars (n : Nat) : Text := List.replicate n '*'

/-- Blanks on one line. -/
def IsGap (t : Text) : Prop := ∀ c ∈ t, isBlank c = true ∧ c ≠ '\n'

/-- A line of a comment with nothing but stars between blanks, and there may be no stars. -/
structure Row where
  indent : Text
  stars : Nat
  gap : Text
  indent_isGap : IsGap indent
  gap_isGap : IsGap gap

/-- The characters of the row. -/
def Row.text (r : Row) : Text := r.indent ++ DocBlock.stars r.stars ++ r.gap

/-- A comment of marks only: a slash and stars, blanks, stars and a slash, with rows of stars if it
has more than one line. Without anything between them the opening stars may be the closing ones. -/
structure BareBlock where
  opening : Nat
  gap : Text
  rows : List Row
  closing : Nat
  two_le_opening : 2 ≤ opening
  gap_isGap : IsGap gap
  one_le_closing : 1 ≤ closing ∨ gap = [] ∧ rows = []

namespace BareBlock

/-- The characters of the comment. -/
def text (b : BareBlock) : Text :=
  '/' :: stars b.opening ++ b.gap ++ b.rows.flatMap (fun r => '\n' :: r.text) ++ stars b.closing ++
    ['/']

/-- What is left of the marks on the last line. -/
def residue (b : BareBlock) : Text :=
  match b.rows.getLast? with
  | none => if b.gap = [] then ['/'] else stars (b.closing - 1)
  | some r => if r.stars = 0 ∨ r.gap = [] then [] else stars (b.closing - 1)

/-- One star closes the comment after a blank, or the closing stars belong to the stars in front of
the last line. -/
def IsStripped (b : BareBlock) : Prop :=
  match b.rows.getLast? with
  | none => b.gap ≠ [] ∧ b.closing = 1
  | some r => r.stars = 0 ∨ r.gap = [] ∨ b.closing = 1

end BareBlock

/-! ### One line of marks -/

theorem IsGap.blank {t : Text} (h : IsGap t) : ∀ c ∈ t, isBlank c = true := fun c hc => (h c hc).1

theorem not_blank_of_mem_stars {n : Nat} {c : Char} (h : c ∈ stars n) : isBlank c = false := by
  rw [List.eq_of_mem_replicate h]
  decide

theorem isTrimmed_of_not_blank {t : Text} (h : ∀ c ∈ t, isBlank c = false) : IsTrimmed t :=
  ⟨fun c hc => h c (List.mem_of_mem_head? hc), fun c hc => h c (List.mem_of_getLast? hc)⟩

theorem isTrimmed_stars (n : Nat) : IsTrimmed (stars n) :=
  isTrimmed_of_not_blank fun _ => not_blank_of_mem_stars

theorem dropWhile_stars_append (n : Nat) (t : Text) :
    (stars n ++ t).dropWhile (· == '*') = t.dropWhile (· == '*') :=
  List.dropWhile_append_of_pos fun _ hc => beq_iff_eq.2 (List.eq_of_mem_replicate hc)

theorem dropWhile_stars (n : Nat) : (stars n).dropWhile (· == '*') = [] := by
  have := dropWhile_stars_append n []
  rwa [List.append_nil] at this

theorem dropWhile_gap_append {gap : Text} (hgap : IsGap gap) (hne : gap ≠ []) (t : Text) :
    (gap ++ t).dropWhile (· == '*') = gap ++ t := by
  obtain ⟨c, gap, rfl⟩ := List.exists_cons_of_ne_nil hne
  refine List.dropWhile_beq_eq_self_of_head?_ne ?_
  rintro ⟨⟩
  exact absurd (hgap _ List.mem_cons_self).1 (by decide)

theorem dropSuffix?_closing {n : Nat} (hn : 1 ≤ n) (t : Text) :
    dropSuffix? "*/" (t ++ stars n ++ ['/']) = some (t ++ stars (n - 1)) := by
  obtain ⟨m, rfl⟩ := Nat.exists_eq_add_of_le' hn
  rw [dropSuffix?_eq_some_iff, Nat.add_sub_cancel, stars, List.replicate_succ']
  simp [stars]

theorem dropWhile_opening {n : Nat} (hn : 1 ≤ n) (t : Text) :
    (('/' :: stars n ++ t).dropWhile (· == '/')).dropWhile (· == '*') = t.dropWhile (· == '*') := by
  obtain ⟨m, rfl⟩ := Nat.exists_eq_add_of_le' hn
  rw [← dropWhile_stars_append (m + 1) t, stars, List.replicate_succ]
  rfl

/-- The first of several lines. -/
theorem contentLine_opening {n : Nat} {gap : Text} (hn : 1 ≤ n) (hgap : IsGap gap) :
    contentLine true false ('/' :: stars n ++ gap) = [] := by
  have htrim : trim ('/' :: stars n ++ gap) = '/' :: stars n ++ [] := by
    rw [trim_append_blanks hgap.blank, List.append_nil, trim_eq_self]
    refine isTrimmed_of_not_blank fun c hc => ?_
    rcases List.mem_cons.1 hc with rfl | hc
    · decide
    · exact not_blank_of_mem_stars hc
  rw [contentLine_first, htrim, dropWhile_opening hn]
  rfl

theorem contentLine_row (r : Row) : contentLine false false r.text = [] := by
  have htrim : trim r.text = stars r.stars :=
    trim_between r.indent_isGap.blank r.gap_isGap.blank (isTrimmed_stars _)
  rw [contentLine_middle, htrim, dropWhile_stars]
  rfl

theorem trim_gap_stars {gap : Text} (hgap : IsGap gap) (n : Nat) :
    trim (gap ++ stars n) = stars n := by
  rw [trim_blanks_append hgap.blank, trim_eq_self (isTrimmed_stars n)]

theorem not_blank_slash (t : Text) : ∀ c ∈ (t ++ ['/']).getLast?, isBlank c = false := by
  intro c hc
  rw [List.getLast?_concat, Option.mem_some_iff] at hc
  rw [← hc]
  decide

theorem trim_stars_slash {n : Nat} (hn : 1 ≤ n) (t : Text) :
    trim (stars n ++ t ++ ['/']) = stars n ++ t ++ ['/'] := by
  obtain ⟨m, rfl⟩ := Nat.exists_eq_add_of_le' hn
  refine trim_eq_self ⟨?_, not_blank_slash _⟩
  rw [stars, List.replicate_succ]
  exact forall_head?_cons (by decide)

/-- The last of several lines. -/
theorem contentLine_closing (r : Row) {n : Nat} (hn : 1 ≤ n) :
    contentLine false true (r.text ++ stars n ++ ['/']) =
      if r.stars = 0 ∨ r.gap = [] then [] else stars (n - 1) := by
  have hindent := r.indent_isGap.blank
  by_cases hstars : r.stars = 0
  · have htrim : trim (r.text ++ stars n ++ ['/']) = [] ++ stars n ++ ['/'] := by
      have hline : r.text ++ stars n ++ ['/'] =
          r.indent ++ (r.gap ++ (stars n ++ [] ++ ['/'])) := by
        simp [Row.text, hstars, stars]
      rw [hline, trim_blanks_append hindent, trim_blanks_append r.gap_isGap.blank,
        trim_stars_slash hn, List.append_nil, List.nil_append]
    rw [if_pos (Or.inl hstars), contentLine_last (by rw [htrim, dropSuffix?_closing hn]),
      List.nil_append, dropWhile_stars]
    rfl
  · have htrim : trim (r.text ++ stars n ++ ['/']) =
        stars r.stars ++ r.gap ++ stars n ++ ['/'] := by
      rw [Row.text, List.append_assoc r.indent, List.append_assoc r.indent,
        List.append_assoc r.indent, trim_blanks_append hindent, List.append_assoc (stars r.stars),
        trim_stars_slash (Nat.pos_of_ne_zero hstars)]
    rw [contentLine_last (by rw [htrim, dropSuffix?_closing hn]), List.append_assoc,
      dropWhile_stars_append]
    by_cases hgap : r.gap = []
    · rw [if_pos (Or.inr hgap), hgap, List.nil_append, dropWhile_stars]
      rfl
    · rw [if_neg (not_or.2 ⟨hstars, hgap⟩), dropWhile_gap_append r.gap_isGap hgap,
        trim_gap_stars r.gap_isGap]

/-- The only line of a comment of marks. -/
theorem contentLine_marks {m n : Nat} {gap : Text} (hm : 1 ≤ m) (hgap : IsGap gap)
    (hn : 1 ≤ n ∨ gap = []) :
    contentLine true true ('/' :: stars m ++ gap ++ stars n ++ ['/']) =
      if gap = [] then ['/'] else stars (n - 1) := by
  have htrim : trim ('/' :: stars m ++ gap ++ stars n ++ ['/']) =
      '/' :: stars m ++ (gap ++ stars n ++ ['/']) := by
    rw [trim_eq_self ⟨?_, not_blank_slash _⟩]
    · simp
    · exact forall_head?_cons (by decide)
  rw [contentLine_only, htrim, dropWhile_opening hm]
  by_cases hempty : gap = []
  · rw [if_pos hempty, hempty, List.nil_append, dropWhile_stars_append]
    decide
  · rw [if_neg hempty, List.append_assoc, dropWhile_gap_append hgap hempty, ← List.append_assoc]
    simp only [dropSuffix?_closing (hn.resolve_right hempty), Option.getD_some, trim_gap_stars hgap]

theorem lf_not_mem_gap {t : Text} (h : IsGap t) : '\n' ∉ t := fun hmem => (h _ hmem).2 rfl

theorem lf_not_mem_stars (n : Nat) : '\n' ∉ stars n :=
  fun hmem => absurd (List.eq_of_mem_replicate hmem) (by decide)

theorem lf_not_mem_row (r : Row) : '\n' ∉ r.text := by
  simp [Row.text, lf_not_mem_gap r.indent_isGap, lf_not_mem_gap r.gap_isGap, lf_not_mem_stars]

/-- A comment of marks has nothing on its lines but what is left of the last one. -/
theorem contentLines_bare (b : BareBlock) :
    contentLines b.text = List.replicate b.rows.length [] ++ [b.residue] := by
  have hopening : 1 ≤ b.opening := Nat.le_of_succ_le b.two_le_opening
  have hgap := lf_not_mem_gap b.gap_isGap
  rcases List.eq_nil_or_concat b.rows with hrows | ⟨rows, r, hrows⟩
  · have htext : b.text = '/' :: stars b.opening ++ b.gap ++ stars b.closing ++ ['/'] := by
      simp [BareBlock.text, hrows]
    have hresidue : b.residue = if b.gap = [] then ['/'] else stars (b.closing - 1) := by
      simp [BareBlock.residue, hrows]
    rw [htext, contentLines_of_line (by simp [hgap, lf_not_mem_stars]) (by simp),
      contentLine_marks hopening b.gap_isGap (b.one_le_closing.imp_right And.left), hresidue, hrows]
    rfl
  · have hclosing : 1 ≤ b.closing := b.one_le_closing.resolve_right (by simp [hrows])
    rw [List.concat_eq_append] at hrows
    have htext : b.text = ('/' :: stars b.opening ++ b.gap) ++
        (rows.map Row.text).flatMap ('\n' :: ·) ++
          '\n' :: (r.text ++ stars b.closing ++ ['/']) := by
      simp [BareBlock.text, hrows, List.flatMap_map]
    have hresidue : b.residue =
        if r.stars = 0 ∨ r.gap = [] then [] else stars (b.closing - 1) := by
      simp [BareBlock.residue, hrows]
    have hmiddle : (rows.map Row.text).map (contentLine false false) =
        List.replicate rows.length [] := by
      rw [List.map_map, List.map_eq_replicate_iff]
      exact fun r _ => contentLine_row r
    rw [htext, contentLines_of_lines (by simp [hgap, lf_not_mem_stars])
        (List.forall_mem_map.2 fun r _ => lf_not_mem_row r)
        (by simp [lf_not_mem_row, lf_not_mem_stars]) (by simp),
      contentLine_opening hopening b.gap_isGap, hmiddle, contentLine_closing r hclosing, hresidue,
      hrows, List.length_append]
    rfl

/-! ### Comments of marks read as documentation -/

theorem isTagLine_residue (b : BareBlock) : isTagLine b.residue = false := by
  have hstars : ∀ n, isTagLine (stars n) = false := fun n => by cases n <;> rfl
  unfold BareBlock.residue
  split
  · split
    · rfl
    · exact hstars _
  · split
    · rfl
    · exact hstars _

theorem residue_eq_nil_iff (b : BareBlock) : b.residue = [] ↔ b.IsStripped := by
  have hclosing : b.gap ≠ [] ∨ b.rows ≠ [] → 1 ≤ b.closing := by
    rintro h
    refine b.one_le_closing.resolve_right ?_
    rintro ⟨hgap, hrows⟩
    exact h.elim (· hgap) (· hrows)
  have hstars : stars (b.closing - 1) = [] ↔ b.closing ≤ 1 := by
    rw [stars, List.replicate_eq_nil_iff, Nat.sub_eq_zero_iff_le]
  unfold BareBlock.residue BareBlock.IsStripped
  split
  · by_cases hgap : b.gap = []
    · simp [hgap]
    · have := hclosing (Or.inl hgap)
      rw [if_neg hgap, hstars]
      exact ⟨fun h => ⟨hgap, by omega⟩, fun h => by omega⟩
  · rename_i r hr
    have := hclosing (Or.inr (by rintro h; rw [h] at hr; cases hr))
    by_cases hmarks : r.stars = 0 ∨ r.gap = []
    · rw [if_pos hmarks]
      exact ⟨fun _ => hmarks.elim Or.inl (Or.inr ∘ Or.inl), fun _ => rfl⟩
    · rw [if_neg hmarks, hstars, ← or_assoc, or_iff_right hmarks]
      omega

theorem paragraphs_replicate_append (n : Nat) (ls : List Text) :
    paragraphs (List.replicate n [] ++ ls) = paragraphs ls := by
  induction n with
  | zero => rfl
  | succ n ih => rw [List.replicate_succ, List.cons_append, paragraphs_cons_nil, ih]

/-- What is left of the marks is the description. -/
theorem read_bare (b : BareBlock) (isInline : Bool) (line index : Nat) :
    let d := read b.text isInline line index
    d.short = b.residue ∧ d.long = [] ∧ d.tags = [] := by
  have hcontent := contentLines_bare b
  have hno : ∀ l ∈ contentLines b.text, isTagLine l = false := by
    intro l hl
    rw [hcontent, List.mem_append, List.mem_singleton] at hl
    rcases hl with hl | rfl
    · rw [List.eq_of_mem_replicate hl]
      rfl
    · exact isTagLine_residue b
  have htags : readTags line (contentLines b.text) = [] := by
    have := readTags_append hno line []
    rwa [List.append_nil] at this
  have hdescription : descriptionLines (contentLines b.text) = contentLines b.text := by
    rw [descriptionLines, List.takeWhile_eq_self_iff]
    exact fun l hl => by rw [hno l hl]; rfl
  have hparagraphs : descriptionParagraphs (contentLines b.text) =
      if b.residue = [] then [] else [b.residue] := by
    rw [descriptionParagraphs, hdescription, hcontent, paragraphs_replicate_append]
    split
    · rename_i h
      rw [h]
      rfl
    · rename_i h
      rw [paragraphs, groups, if_neg (by simpa using h)]
      rfl
  refine ⟨?_, ?_, htags⟩
  · rw [short_read, hparagraphs]
    split
    · rename_i h
      rw [h]
      rfl
    · rfl
  · rw [long_read, hparagraphs]
    split
    · rfl
    · rfl

end DocBlock

/-! ## The rule on short descriptions -/

theorem SourceFile.classes_without (f : SourceFile) (c : ClassDecl) :
    (f.without (.classLike c)).outline.classes = f.outline.classes.filter (· ≠ c) := by
  show (f.outline.declarations.filter _).filterMap _ = (f.outline.declarations.filterMap _).filter _
  rw [List.filterMap_filter, List.filter_filterMap]
  refine List.filterMap_congr fun d _ => ?_
  cases d <;> simp [Declaration.classLike?, Option.filter]

namespace Rule

/-- What the rule finds in the documentation of a file. -/
def fileFinding (d : DocBlock) : Finding := ({ : Finding }.atLine d.line).withField "object" "file"

/-- What the rule finds in the documentation of a class. -/
def classFinding (c : ClassDecl) (d : DocBlock) : Finding :=
  ({ : Finding }.atLine d.line).withField "object" ("class " ++ c.name)

theorem summaries_file {f : SourceFile} {d : DocBlock} (hd : f.outline.fileDoc = some d) :
    fileFinding d ∈ summaries.findings f ↔ d.short = [] := by
  have hclasses : fileFinding d ∉ classesFailing f lacksSummary classFinding := by
    intro hmem
    obtain ⟨c, _, hc⟩ := List.mem_filterMap.1 hmem
    obtain ⟨e, _, he⟩ := Option.map_eq_some_iff.1 hc
    have := congrArg (fun x : Finding => x.fields) he
    simp [fileFinding, classFinding, Finding.withField, Finding.atLine] at this
  show _ ∈ ((f.outline.fileDoc.filter lacksSummary).map fileFinding).toList ++
    classesFailing f lacksSummary classFinding ↔ _
  rw [List.mem_append, or_iff_left hclasses, hd]
  by_cases hshort : d.short = []
  · simp [Option.filter, lacksSummary, hshort]
  · simp [Option.filter, lacksSummary, hshort]

/-- Without an element, what is read off the others is less if something is read off the element. -/
theorem filterMap_without_ne_iff {α β : Type} [DecidableEq α] {g : α → Option β} {a : α}
    {l : List α} (ha : a ∈ l) : (l.filter (· ≠ a)).filterMap g ≠ l.filterMap g ↔ g a ≠ none := by
  constructor
  · intro hne hnone
    refine hne ?_
    rw [List.filterMap_filter]
    refine List.filterMap_congr fun e _ => ?_
    by_cases he : e = a
    · simp [he, hnone]
    · simp [he]
  · intro hsome heq
    obtain ⟨x, hx⟩ := Option.ne_none_iff_exists'.1 hsome
    obtain ⟨s, t, rfl⟩ := List.append_of_mem ha
    have hle : ∀ l : List α, ((l.filter (· ≠ a)).filterMap g).length ≤ (l.filterMap g).length :=
      fun l => ((List.filter_sublist (p := (· ≠ a))).filterMap g).length_le
    have hlength := congrArg List.length heq
    rw [List.filter_append, List.filter_cons_of_neg (by simp), List.filterMap_append,
      List.filterMap_append, List.filterMap_cons_some hx, List.length_append, List.length_append,
      List.length_cons] at hlength
    have hs := hle s
    have ht := hle t
    omega

theorem summaries_class {f : SourceFile} {c : ClassDecl} (hc : c ∈ f.outline.classes) {d : DocBlock}
    (hd : c.doc = some d) :
    summaries.findings (f.without (.classLike c)) ≠ summaries.findings f ↔ d.short = [] := by
  have hfile : ∀ g : SourceFile, summaries.findings g =
      ((g.outline.fileDoc.filter lacksSummary).map fileFinding).toList ++
        g.outline.classes.filterMap fun c => (c.doc.filter lacksSummary).map (classFinding c) :=
    fun _ => rfl
  have hdoc : (f.without (.classLike c)).outline.fileDoc = f.outline.fileDoc := rfl
  rw [hfile, hfile, SourceFile.classes_without, hdoc, ne_eq, List.append_right_inj, ← ne_eq,
    filterMap_without_ne_iff hc, hd]
  by_cases hshort : d.short = []
  · simp [Option.filter, lacksSummary, hshort]
  · simp [Option.filter, lacksSummary, hshort]

end Rule

namespace DocBlock

/-- **Which comments of marks are read as empty.** Nothing but the short description is left over,
and it is empty exactly if one star closes the comment after a blank or after a line break, or the
closing stars belong to the stars in front of the last line. The rule on short descriptions reports
the comment of a file or of a class in the same cases. -/
theorem bare_block_empty_iff (b : BareBlock) :
    (∀ (t : Token) (index : Nat), t.text = b.text →
      let d := ofToken t index
      d.long = [] ∧ d.tags = [] ∧ d.short = b.residue ∧ (d.short = [] ↔ b.IsStripped)) ∧
    ∀ path source : Text,
      let f := SourceFile.parse path source
      (∀ d, f.outline.fileDoc = some d → d.raw = b.text →
        (Rule.fileFinding d ∈ Rule.summaries.findings f ↔ b.IsStripped)) ∧
      ∀ c ∈ f.outline.classes, ∀ d, c.doc = some d → d.raw = b.text →
        (Rule.summaries.findings (f.without (.classLike c)) ≠ Rule.summaries.findings f ↔
          b.IsStripped) := by
  have hread : ∀ (t : Token) (index : Nat), t.text = b.text →
      let d := ofToken t index
      d.long = [] ∧ d.tags = [] ∧ d.short = b.residue ∧ (d.short = [] ↔ b.IsStripped) := by
    intro t index ht d
    have hd : d = read b.text (startsWith (inlineMark t.kind) b.text) t.line index := by
      rw [← ht]
      rfl
    rw [hd]
    obtain ⟨hshort, hlong, htags⟩ :=
      read_bare b (startsWith (inlineMark t.kind) b.text) t.line index
    exact ⟨hlong, htags, hshort, hshort ▸ residue_eq_nil_iff b⟩
  have hshort : ∀ {ts : List Token} {d : DocBlock}, d.IsOf ts → d.raw = b.text →
      (d.short = [] ↔ b.IsStripped) := by
    rintro ts d ⟨t, _, hd⟩ hraw
    rw [hd] at hraw ⊢
    exact (hread t _ hraw).2.2.2
  refine ⟨hread, fun path source => ⟨?_, ?_⟩⟩
  · intro d hd hraw
    have hof := Outline.Pass.isOf_of_mem_docs (Outline.Pass.fileDoc_mem_docs hd)
    exact (Rule.summaries_file hd).trans (hshort hof hraw)
  · intro c hc d hd hraw
    have hof := Outline.Pass.isOf_doc (Outline.mem_classes.1 hc) hd
    exact (Rule.summaries_class hc hd).trans (hshort hof hraw)

/-- A blank between the marks. -/
theorem bare_block_empty_iff_spaced :
    let f := SourceFile.parse "a.php" "<?php /** */ class A \x7b\x7d"
    ∃ c ∈ f.outline.classes,
      Rule.summaries.findings (f.without (.classLike c)) ≠ Rule.summaries.findings f := by
  intro f
  let b : BareBlock := {
    opening := 2, gap := " ", rows := [], closing := 1
    two_le_opening := by decide, gap_isGap := List.forall_mem_singleton.2 (by decide)
    one_le_closing := by decide }
  have hclasses : f.outline.classes.map (fun c => c.doc.map (·.raw)) = [some b.text] := by
    decide +kernel
  obtain ⟨c, hc, hraw⟩ := List.map_eq_singleton_iff.1 hclasses
  obtain ⟨d, hd, hraw⟩ := Option.map_eq_some_iff.1 hraw
  have hmem : c ∈ f.outline.classes := hc ▸ List.mem_singleton_self c
  have hiff := ((bare_block_empty_iff b).2 "a.php" _).2 c hmem d hd hraw
  exact ⟨c, hmem, hiff.2 ⟨List.cons_ne_nil _ _, rfl⟩⟩

/-- **A comment of marks need not be read as empty.** Without a blank its closing slash is left, and
behind a blank all but one of the closing stars; a class with such a comment is not reported. -/
theorem bare_block_leaves_marks :
    (ofToken ⟨⟨.docComment, "/***/"⟩, 1, 0⟩ 0).short = "/".toList ∧
      (ofToken ⟨⟨.docComment, "/** **/"⟩, 1, 0⟩ 0).short = "*".toList ∧
      (ofToken ⟨⟨.docComment, "/**\n * **/"⟩, 1, 0⟩ 0).short = "*".toList ∧
      let f := SourceFile.parse "a.php" "<?php /***/ class A \x7b\x7d"
      f.outline.classes.map (fun c => c.doc.map (·.raw)) = [some "/***/".toList] ∧
        Rule.summaries.findings f = [] := by
  decide +kernel

end DocBlock

end DocLint
