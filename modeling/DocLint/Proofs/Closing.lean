import DocLint.Proofs.LineBreakLexer
import Mathlib.Data.List.Basic

/-!
# Where lexemes close

A comment, a quoted literal, a heredoc and an attribute group each close at a place of their own.
Here a lexeme is complete by what stands in it, said without reading it from the left, and the
extents are shown to be the first place at which it is complete, or the end of the text.

* `IsComment`, `IsQuoted`, `IsHeredoc`, `IsGroup`: the complete lexemes.
* `Ends`: a lexeme ends where it is first complete; one that never is takes the rest of the source.
* `firstAt_commentExtent`, `firstAt_quotedExtent`, `firstAt_heredocBodyExtent`,
  `firstAt_groupExtent`: the extents.
-/

namespace DocLint

open Text

/-! ## Occurrences -/

namespace Text

variable {p t : Text} {n : Nat}

/-- Nothing before the place that is found is an occurrence. -/
theorem not_prefix_drop_of_find? (h : find? p t = some n) {m : Nat} (hm : m < n) :
    ¬ p <+: t.drop m := by
  induction t generalizing n m with
  | nil =>
      unfold find? at h
      split at h
      · cases h
        omega
      · cases h
  | cons c t ih =>
      unfold find? at h
      split at h
      · cases h
        omega
      · rename_i hstart
        obtain ⟨k, hk, rfl⟩ := Option.map_eq_some_iff.1 h
        cases m with
        | zero => exact fun hp => hstart (startsWith_iff.2 hp)
        | succ m => exact ih hk (by omega)

theorem find?_ne_none (h : p <+: t.drop n) : find? p t ≠ none := by
  induction t generalizing n with
  | nil =>
      rw [List.drop_nil, List.prefix_nil] at h
      simp [find?, h]
  | cons c t ih =>
      unfold find?
      split
      · simp
      · rename_i hstart
        cases n with
        | zero => exact absurd (startsWith_iff.2 h) hstart
        | succ n => simpa using ih h

/-- A text is contained where it occurs. -/
theorem contains_iff : contains p t = true ↔ p <:+: t := by
  unfold contains
  constructor
  · intro h
    obtain ⟨n, hn⟩ := Option.isSome_iff_exists.1 h
    obtain ⟨r, hr⟩ := find?_eq_some hn
    exact ⟨t.take n, r, hr.symm⟩
  · rintro ⟨a, r, rfl⟩
    refine Option.isSome_iff_ne_none.2 (find?_ne_none (n := a.length) ?_)
    rw [List.append_assoc, List.drop_left]
    exact List.prefix_append p r

end Text

namespace Token

/-! ## Complete lexemes -/

/-- The lexeme `s` before `rest` ends where it is first complete. One that is never complete takes
the rest of the source. -/
def Ends (complete : Text → Text → Prop) (s rest : Text) : Prop :=
  (complete s rest ∧ ∀ n < s.length, ¬ complete (s.take n) (s.drop n ++ rest)) ∨
    (rest = [] ∧ ∀ n ≤ s.length, ¬ complete (s.take n) (s.drop n))

/-- A delimited comment. -/
def IsComment (s _rest : Text) : Prop := ∃ body, s = ['/', '*'] ++ body ++ ['*', '/']

/-- The number of backslashes at the end of a text. -/
def slashesBehind (t : Text) : Nat := (t.reverse.takeWhile (· == '\\')).length

/-- A text between two quotes `q`, of which the second is not escaped: it has an even number of
backslashes before it. -/
def IsQuoted (q : Char) (s _rest : Text) : Prop :=
  ∃ body, s = q :: body ++ [q] ∧ slashesBehind body % 2 = 0

/-- The label that the rest of a line after `<<<` gives: word characters, with any quotes around
them and blanks around these. -/
def IsLabel (header label : Text) : Prop :=
  ∃ front opening closing back, header = front ++ opening ++ label ++ closing ++ back ∧
    (∀ c ∈ front ++ back, isBlank c = true) ∧ (∀ c ∈ opening ++ closing, c = '"' ∨ c = '\'') ∧
    label ≠ [] ∧ ∀ c ∈ label, isWordChar c = true

/-- A heredoc: the line with its label, whole lines, and a line that starts with blanks and the
label, which no word character follows. -/
def IsHeredoc (header label s rest : Text) : Prop :=
  ∃ body indent, s = ['<', '<', '<'] ++ header ++ ['\n'] ++ body ++ indent ++ label ∧
    (body = [] ∨ body.getLast? = some '\n') ∧ (∀ c ∈ indent, isBlank c = true ∧ c ≠ '\n') ∧
    rest.head?.any isWordChar = false

/-- A quoted part, or a character that opens none. -/
def IsPart (p : Text) : Prop :=
  (∃ c, p = [c] ∧ c ≠ '\'' ∧ c ≠ '"') ∨
    ∃ q, (q = '\'' ∨ q = '"') ∧ IsQuoted q p [] ∧ ∀ n < p.length, ¬ IsQuoted q (p.take n) []

/-- An attribute group: outside of the quoted parts there are as many closing brackets as opening
ones, and it ends with a closing one. -/
def IsGroup (s _rest : Text) : Prop :=
  ∃ parts : List Text, s = '#' :: parts.flatten ∧ (∀ p ∈ parts, IsPart p) ∧
    parts.getLast? = some [']'] ∧ parts.count ['['] = parts.count [']']

/-- The place of a text at which `closes` holds first, or its end. -/
def FirstAt (closes : Text → Text → Prop) (t : Text) (n : Nat) : Prop :=
  (∀ m < n, ¬ closes (t.take m) (t.drop m)) ∧ (closes (t.take n) (t.drop n) ∨ n = t.length)

/-- A lexeme with a fixed beginning ends where what follows the beginning closes first. -/
theorem ends_of_firstAt {complete closes : Text → Text → Prop} (front : Text) {t : Text} {n : Nat}
    (hclose : ∀ u r, complete (front ++ u) r ↔ closes u r)
    (hfront : ∀ m < front.length, ∀ r, ¬ complete (front.take m) r)
    (hle : n ≤ t.length) (h : FirstAt closes t n) :
    Ends complete (front ++ t.take n) (t.drop n) := by
  have hbefore : ∀ m < front.length + n,
      ¬ complete ((front ++ t).take m) ((front ++ t).drop m) := by
    intro m hm
    by_cases hshort : m < front.length
    · rw [List.take_append_of_le_length (by omega)]
      exact hfront m hshort _
    · obtain ⟨k, rfl⟩ := Nat.exists_eq_add_of_le (Nat.le_of_not_lt hshort)
      rw [List.take_length_add_append, List.drop_length_add_append, hclose]
      exact h.1 k (by omega)
  have hlength : (front ++ t.take n).length = front.length + n := by
    rw [List.length_append, List.length_take, Nat.min_eq_left hle]
  have htake : ∀ m ≤ front.length + n, (front ++ t.take n).take m = (front ++ t).take m := by
    intro m hm
    rw [← List.take_length_add_append, List.take_take, Nat.min_eq_left hm]
  have hdrop : ∀ m ≤ front.length + n,
      (front ++ t.take n).drop m ++ t.drop n = (front ++ t).drop m := by
    intro m hm
    rw [← List.drop_append_of_le_length (by omega), List.append_assoc, List.take_append_drop]
  by_cases hc : closes (t.take n) (t.drop n)
  · refine Or.inl ⟨(hclose _ _).2 hc, fun m hm => ?_⟩
    rw [hlength] at hm
    rw [htake m (by omega), hdrop m (by omega)]
    exact hbefore m hm
  · obtain rfl := h.2.resolve_left hc
    rw [List.take_length, List.drop_length] at *
    refine Or.inr ⟨rfl, fun m hm => ?_⟩
    rw [List.length_append] at hm
    rcases Nat.lt_or_ge m (front.length + t.length) with hlt | hge
    · exact hbefore m hlt
    · obtain rfl : m = front.length + t.length := by omega
      rw [← List.length_append, List.take_length, List.drop_length, hclose]
      exact hc

/-! ## Comments -/

theorem prefix_drop_of_take_eq {t body p : Text} {m : Nat} (h : t.take m = body ++ p) :
    p <+: t.drop body.length := by
  refine ⟨t.drop m, ?_⟩
  have ht : t = body ++ (p ++ t.drop m) := by
    rw [← List.append_assoc, ← h, List.take_append_drop]
  conv_rhs => rw [ht]
  rw [List.drop_left]

theorem firstAt_commentExtent (t : Text) :
    FirstAt (fun u _ => ∃ body, u = body ++ ['*', '/']) t (commentExtent t) := by
  unfold commentExtent
  cases hfind : find? ['*', '/'] t with
  | none =>
      refine ⟨?_, Or.inr rfl⟩
      rintro m _ ⟨body, hbody⟩
      exact find?_ne_none (prefix_drop_of_take_eq hbody) hfind
  | some n =>
      show FirstAt _ t (n + 2)
      constructor
      · rintro m hm ⟨body, hbody⟩
        have hlength := congrArg List.length hbody
        rw [List.length_take, List.length_append] at hlength
        have hlt : body.length < n := by
          simp only [List.length_cons, List.length_nil] at hlength
          omega
        exact not_prefix_drop_of_find? hfind hlt (prefix_drop_of_take_eq hbody)
      · left
        obtain ⟨r, hr⟩ := prefix_drop_of_find? hfind
        refine ⟨t.take n, ?_⟩
        rw [List.take_add, ← hr]
        rfl

/-- A delimited comment ends with its first `*/` from the third character on. -/
theorem ends_comment (t : Text) :
    Ends IsComment (['/', '*'] ++ t.take (commentExtent t)) (t.drop (commentExtent t)) := by
  refine ends_of_firstAt _ ?_ ?_ (commentExtent_le t) (firstAt_commentExtent t)
  · intro u _
    unfold IsComment
    simp only [List.append_assoc, List.append_cancel_left_eq]
  · rintro m hm _ ⟨body, hbody⟩
    have hlength := congrArg List.length hbody
    simp only [List.length_take, List.length_append, List.length_cons, List.length_nil] at hlength
    omega

/-! ## Quotes -/

theorem slashesBehind_cons {c : Char} (hc : c ≠ '\\') (t : Text) :
    slashesBehind (c :: t) = slashesBehind t := by
  unfold slashesBehind
  rw [List.reverse_cons, List.takeWhile_append]
  split
  · rename_i hall
    rw [List.takeWhile_cons_of_neg (by simpa using hc), List.append_nil, hall]
  · rfl

/-- A backslash takes the next character with it. -/
theorem slashesBehind_escape (d : Char) (t : Text) :
    slashesBehind ('\\' :: d :: t) % 2 = slashesBehind t % 2 := by
  unfold slashesBehind
  rw [List.reverse_cons, List.reverse_cons, List.append_assoc, List.takeWhile_append]
  split
  · rename_i hall
    by_cases hd : d = '\\'
    · subst hd
      simp [hall]
    · simp [hd, hall]
  · rfl

/-- The text closes a quotation that `q` has opened. -/
def Shuts (q : Char) (u _rest : Text) : Prop := ∃ body, u = body ++ [q] ∧ slashesBehind body % 2 = 0

theorem not_shuts_nil (q : Char) (r : Text) : ¬ Shuts q [] r := by
  rintro ⟨body, hbody, _⟩
  simp at hbody

theorem shuts_cons {q c : Char} (hc : c ≠ '\\') (u r : Text) :
    Shuts q (c :: u) r ↔ c = q ∧ u = [] ∨ Shuts q u r := by
  constructor
  · rintro ⟨body, hbody, heven⟩
    cases body with
    | nil =>
        obtain ⟨rfl, rfl⟩ := List.cons.inj hbody
        exact Or.inl ⟨rfl, rfl⟩
    | cons d body =>
        obtain ⟨rfl, rfl⟩ := List.cons.inj hbody
        rw [slashesBehind_cons hc] at heven
        exact Or.inr ⟨body, rfl, heven⟩
  · rintro (⟨rfl, rfl⟩ | ⟨body, rfl, heven⟩)
    · exact ⟨[], rfl, rfl⟩
    · exact ⟨c :: body, rfl, by rwa [slashesBehind_cons hc]⟩

theorem shuts_escape {q : Char} (hq : q ≠ '\\') (d : Char) (u r : Text) :
    Shuts q ('\\' :: d :: u) r ↔ Shuts q u r := by
  constructor
  · rintro ⟨body, hbody, heven⟩
    match body, hbody with
    | [], hbody => exact absurd (List.cons.inj hbody).1.symm hq
    | [c], hbody =>
        rw [← (List.cons.inj hbody).1] at heven
        exact absurd heven (by decide)
    | c :: e :: body, hbody =>
        obtain ⟨hc, htail⟩ := List.cons.inj hbody
        rw [← hc, slashesBehind_escape] at heven
        exact ⟨body, (List.cons.inj htail).2, heven⟩
  · rintro ⟨body, rfl, heven⟩
    exact ⟨'\\' :: d :: body, rfl, by rwa [slashesBehind_escape]⟩

theorem not_shuts_slash {q : Char} (hq : q ≠ '\\') (r : Text) : ¬ Shuts q ['\\'] r := by
  rintro ⟨body, hbody, _⟩
  cases body with
  | nil => exact hq (List.cons.inj hbody).1.symm
  | cons d body => simp at hbody

/-- A character that neither closes nor escapes moves the first closing place on by one. -/
theorem FirstAt.cons {closes closes' : Text → Text → Prop} {c : Char} {t : Text} {n : Nat}
    (h : FirstAt closes t n) (hnil : ∀ r, ¬ closes' [] r)
    (hcons : ∀ u r, closes' (c :: u) r ↔ closes u r) : FirstAt closes' (c :: t) (n + 1) := by
  constructor
  · intro m hm
    cases m with
    | zero => exact hnil _
    | succ m => exact fun hc => h.1 m (by omega) ((hcons _ _).1 hc)
  · exact h.2.imp (hcons _ _).2 (by rw [List.length_cons]; exact congrArg (· + 1))

theorem firstAt_quotedExtent {q : Char} (hq : q ≠ '\\') (t : Text) :
    FirstAt (Shuts q) t (quotedExtent q t) := by
  fun_induction quotedExtent q t with
  | case1 => exact ⟨fun m hm => absurd hm (by omega), Or.inr rfl⟩
  | case2 c =>
      refine ⟨fun m hm => ?_, Or.inr rfl⟩
      obtain rfl : m = 0 := by omega
      exact not_shuts_nil q _
  | case3 d t ih =>
      constructor
      · intro m hm
        rcases m with - | - | m
        · exact not_shuts_nil q _
        · exact not_shuts_slash hq _
        · exact fun hc => ih.1 m (by omega) ((shuts_escape hq d _ _).1 hc)
      · exact ih.2.imp (shuts_escape hq d _ _).2 (by simp)
  | case4 d t _ =>
      constructor
      · intro m hm
        obtain rfl : m = 0 := by omega
        exact not_shuts_nil q _
      · exact Or.inl ((shuts_cons hq _ _).2 (Or.inl ⟨rfl, rfl⟩))
  | case5 c d t hslash hne ih =>
      refine ih.cons (not_shuts_nil q) fun u r => ?_
      rw [shuts_cons hslash]
      exact or_iff_right fun h => hne h.1

theorem isQuoted_cons {q : Char} (u r : Text) : IsQuoted q (q :: u) r ↔ Shuts q u r := by
  unfold IsQuoted Shuts
  simp only [List.cons_append, List.cons.injEq, true_and]

/-- A quoted literal ends with the first quote that is not escaped. -/
theorem ends_quoted {q : Char} (hq : q ≠ '\\') (t : Text) :
    Ends (IsQuoted q) (q :: t.take (quotedExtent q t)) (t.drop (quotedExtent q t)) := by
  refine ends_of_firstAt [q] isQuoted_cons ?_ (quotedExtent_le q t)
    (firstAt_quotedExtent hq t)
  rintro m hm _ ⟨body, hbody, _⟩
  obtain rfl : m = 0 := by simpa using hm
  cases hbody

/-! ## Heredocs -/

theorem isWordChar_of_isBlank {c : Char} (h : isBlank c = true) : isWordChar c = false := by
  have hblanks : ∀ n ∈ [9, 10, 11, 12, 13, 32, 0x85, 0xA0, 0x1680, 0x2000, 0x2001, 0x2002, 0x2003,
      0x2004, 0x2005, 0x2006, 0x2007, 0x2008, 0x2009, 0x200A, 0x2028, 0x2029, 0x202F, 0x205F,
      0x3000], isWordChar (Char.ofNat n) = false := by decide +kernel
  rw [← Char.ofNat_toNat c]
  apply hblanks
  have hspace : c = ' ' → c.toNat = 32 := by
    rintro rfl
    rfl
  simp only [isBlank, inClass, isAscii, isAsciiBlank, inRanges, blankRanges, List.any_cons,
    List.any_nil, Bool.or_false, decide_eq_true_eq] at h
  simp only [List.mem_cons, List.not_mem_nil, or_false]
  split at h
  · simp only [Bool.or_eq_true, beq_iff_eq, Bool.and_eq_true, decide_eq_true_eq] at h
    rcases h with h | h
    · have := hspace h
      omega
    · omega
  · simp only [Bool.or_eq_true, Bool.and_eq_true, decide_eq_true_eq] at h
    omega

/-- Trimming takes characters of the class away at both ends. -/
theorem trimOf_spec (p : Char → Bool) (t : Text) :
    ∃ a b, t = a ++ trimOf p t ++ b ∧ ∀ c ∈ a ++ b, p c = true := by
  refine ⟨t.takeWhile p, ((t.dropWhile p).reverse.takeWhile p).reverse, ?_, ?_⟩
  · have hend : t.dropWhile p =
        trimOf p t ++ ((t.dropWhile p).reverse.takeWhile p).reverse := by
      unfold trimOf trimEndOf trimStartOf
      rw [← List.reverse_append, List.takeWhile_append_dropWhile, List.reverse_reverse]
    rw [List.append_assoc, ← hend, List.takeWhile_append_dropWhile]
  · intro c hc
    rcases List.mem_append.1 hc with hc | hc
    · exact List.mem_takeWhile_imp hc
    · exact List.mem_takeWhile_imp (List.mem_reverse.1 hc)

theorem isLabel_of_heredocLabel? {header label : Text} (h : heredocLabel? header = some label) :
    IsLabel header label := by
  unfold heredocLabel? at h
  simp only at h
  split at h
  · cases h
  · rename_i hword
    rw [Option.some.inj h, Bool.or_eq_true, not_or, bne_iff_ne, not_not, List.isEmpty_iff] at hword
    have hall := List.takeWhile_eq_self_iff.1
      ((List.takeWhile_prefix isWordChar).eq_of_length hword.2)
    obtain ⟨front, back, houter, hblank⟩ := trimOf_spec isBlank header
    obtain ⟨opening, closing, hinner, hquote⟩ :=
      trimOf_spec (fun c => c == '"' || c == '\'') (trim header)
    refine ⟨front, opening, closing, back, ?_, hblank, ?_, hword.1, hall⟩
    · rw [Option.some.inj h] at hinner
      rw [← trim, hinner] at houter
      simpa only [List.append_assoc] using houter
    · intro c hc
      simpa using hquote c hc

/-- What follows the line of the label closes the heredoc. -/
def LabelEnds (label u rest : Text) : Prop :=
  ∃ body indent, u = body ++ indent ++ label ∧ (body = [] ∨ body.getLast? = some '\n') ∧
    (∀ c ∈ indent, isBlank c = true ∧ c ≠ '\n') ∧ rest.head?.any isWordChar = false

theorem pieces_of_not_mem {u : Text} (h : '\n' ∉ u) (hne : u ≠ []) : pieces u = [u] := by
  induction u with
  | nil => exact absurd rfl hne
  | cons c u ih =>
      obtain ⟨hc, hu⟩ := not_or.1 (mt List.mem_cons.2 h)
      rw [pieces, if_neg (Ne.symm hc)]
      cases u with
      | nil => rfl
      | cons d u => rw [ih hu (by simp)]

theorem pieces_append_lf {u : Text} (h : '\n' ∉ u) (t : Text) :
    pieces (u ++ '\n' :: t) = (u ++ ['\n']) :: pieces t := by
  induction u with
  | nil => rw [List.nil_append, pieces, if_pos rfl, List.nil_append]
  | cons c u ih =>
      obtain ⟨hc, hu⟩ := not_or.1 (mt List.mem_cons.2 h)
      rw [List.cons_append, pieces, if_neg (Ne.symm hc), ih hu]
      rfl

section Label

variable {label : Text} (hne : label ≠ []) (hword : ∀ c ∈ label, isWordChar c = true)

include hword in
theorem lf_not_mem_label : '\n' ∉ label := fun hmem => absurd (hword _ hmem) (by decide)

include hne hword in
theorem closingLabel?_eq_some_iff {line : Text} {n : Nat} :
    closingLabel? label line = some n ↔ ∃ indent more, line = indent ++ label ++ more ∧
      (∀ c ∈ indent, isBlank c = true) ∧ more.head?.any isWordChar = false ∧
      n = indent.length + label.length := by
  unfold closingLabel?
  constructor
  · intro h
    simp only at h
    split at h
    · cases h
    · rename_i more hmore
      split at h
      · cases h
      · rename_i hnext
        refine ⟨line.takeWhile isBlank, more, ?_, fun c hc => List.mem_takeWhile_imp hc,
          Bool.eq_false_iff.2 hnext, (Option.some.inj h).symm⟩
        rw [List.append_assoc, ← dropPrefix?_eq_some_iff.1 hmore]
        conv_lhs => rw [← List.take_append_drop (line.takeWhile isBlank).length line]
        rw [← List.prefix_iff_eq_take.1 (List.takeWhile_prefix isBlank)]
  · rintro ⟨indent, more, rfl, hblank, hnext, rfl⟩
    obtain ⟨l, label', rfl⟩ := List.exists_cons_of_ne_nil hne
    have hl : isBlank l = false := by
      cases hb : isBlank l with
      | false => rfl
      | true =>
          have := isWordChar_of_isBlank hb
          rw [hword l List.mem_cons_self] at this
          cases this
    have hindent : (indent ++ l :: label' ++ more).takeWhile isBlank = indent := by
      rw [List.append_assoc, List.takeWhile_append_of_pos hblank, List.cons_append,
        List.takeWhile_cons_of_neg (by simp [hl]), List.append_nil]
    have hrest : dropPrefix? (l :: label') ((indent ++ l :: label' ++ more).drop indent.length) =
        some more := by
      rw [dropPrefix?_eq_some_iff, List.append_assoc, List.drop_left]
    simp only [hindent, hrest, hnext]
    rfl

include hword in
/-- A whole line before them changes nothing for what follows. -/
theorem labelEnds_line (u v r : Text) :
    LabelEnds label (u ++ '\n' :: v) r ↔ LabelEnds label v r := by
  constructor
  · rintro ⟨body, indent, heq, hbody, hindent, hnext⟩
    have hno : '\n' ∉ indent ++ label := by
      intro hmem
      rcases List.mem_append.1 hmem with hmem | hmem
      · exact (hindent _ hmem).2 rfl
      · exact lf_not_mem_label hword hmem
    rw [List.append_assoc] at heq
    rcases List.append_eq_append_iff.1 heq with ⟨a, rfl, ha⟩ | ⟨a, _, ha⟩
    · cases a with
      | nil => exact absurd (ha ▸ List.mem_cons_self) hno
      | cons d a =>
          obtain ⟨rfl, rfl⟩ := List.cons.inj ha
          refine ⟨a, indent, (List.append_assoc ..).symm, ?_, hindent, hnext⟩
          cases a with
          | nil => exact Or.inl rfl
          | cons e a =>
              have hlast := hbody.resolve_left (by simp)
              rw [List.append_cons, List.getLast?_append_of_ne_nil _ (by simp)] at hlast
              exact Or.inr hlast
    · exact absurd (ha ▸ List.mem_append_right a List.mem_cons_self) hno
  · rintro ⟨body, indent, rfl, hbody, hindent, hnext⟩
    refine ⟨u ++ '\n' :: body, indent, by simp, Or.inr ?_, hindent, hnext⟩
    rcases hbody with rfl | hbody
    · simp
    · rw [List.getLast?_append, List.getLast?_cons, hbody]
      rfl

include hne hword in
/-- Inside of a line, the label ends a heredoc where the line says so. -/
theorem labelEnds_inside {u t : Text} {m : Nat} (hu : '\n' ∉ u) (hm : m ≤ u.length) :
    LabelEnds label ((u ++ t).take m) ((u ++ t).drop m) ↔
      closingLabel? label (u ++ t.take 1) = some m := by
  have hhead : ∀ more : Text, (more ++ t).head?.any isWordChar =
      (more ++ t.take 1).head?.any isWordChar := by
    intro more
    cases more with
    | nil => cases t <;> rfl
    | cons c more => rfl
  rw [closingLabel?_eq_some_iff hne hword, List.take_append_of_le_length hm,
    List.drop_append_of_le_length hm]
  constructor
  · rintro ⟨body, indent, heq, hbody, hindent, hnext⟩
    obtain rfl : body = [] := by
      refine hbody.resolve_right fun hlast => hu (List.mem_of_mem_take (i := m) ?_)
      rw [heq]
      exact List.mem_append_left _ (List.mem_append_left _ (List.mem_of_getLast? hlast))
    refine ⟨indent, u.drop m ++ t.take 1, ?_, fun c hc => (hindent c hc).1, ?_, ?_⟩
    · rw [← List.append_assoc, ← List.nil_append indent, ← heq, List.take_append_drop]
    · rw [← hhead, hnext]
    · rw [← List.length_append, ← List.nil_append indent, ← heq, List.length_take,
        Nat.min_eq_left hm]
  · rintro ⟨indent, more, heq, hblank, hnext, rfl⟩
    have htake : u.take (indent.length + label.length) = indent ++ label := by
      calc u.take (indent.length + label.length)
          = (u ++ t.take 1).take (indent.length + label.length) :=
            (List.take_append_of_le_length hm).symm
        _ = indent ++ label := by rw [heq, ← List.length_append, List.take_left]
    have hdrop : u.drop (indent.length + label.length) ++ t.take 1 = more := by
      rw [← List.drop_append_of_le_length hm, heq, ← List.length_append, List.drop_left]
    refine ⟨[], indent, htake, Or.inl rfl, fun c hc => ⟨hblank c hc, ?_⟩, ?_⟩
    · rintro rfl
      refine hu (List.mem_of_mem_take (i := indent.length + label.length) ?_)
      rw [htake]
      exact List.mem_append_left _ hc
    · rw [hhead, hdrop, hnext]

/-- Where the first line holds the label is the first place at which the heredoc closes. -/
theorem firstAt_of_line {t line : Text} {k last : Nat}
    (hinside : ∀ m ≤ last, LabelEnds label (t.take m) (t.drop m) ↔
      closingLabel? label line = some m)
    (hk : k ≤ last) (hline : closingLabel? label line = some k) :
    FirstAt (LabelEnds label) t k := by
  refine ⟨fun m hm hends => ?_, Or.inl ((hinside k hk).2 hline)⟩
  rw [hinside m (by omega), hline, Option.some.injEq] at hends
  omega

include hne hword in
theorem firstAt_heredocBodyExtent (t : Text) :
    FirstAt (LabelEnds label) t (heredocBodyExtent label (pieces t)) := by
  induction hn : t.length using Nat.strongRecOn generalizing t with
  | ind n ih =>
      by_cases hlf : '\n' ∈ t
      · obtain ⟨u, t, rfl, hu⟩ := List.eq_append_cons_of_mem hlf
        have hinside : ∀ m ≤ u.length,
            (LabelEnds label ((u ++ '\n' :: t).take m) ((u ++ '\n' :: t).drop m) ↔
              closingLabel? label (u ++ ['\n']) = some m) :=
          fun m hm => labelEnds_inside hne hword hu hm
        rw [pieces_append_lf hu, heredocBodyExtent]
        split
        · rename_i k hline
          refine firstAt_of_line hinside ?_ hline
          -- the line feed belongs neither to the blanks nor to the label
          obtain ⟨indent, more, heq, _, _, rfl⟩ := (closingLabel?_eq_some_iff hne hword).1 hline
          have hlength := congrArg List.length heq
          simp only [List.length_append, List.length_singleton] at hlength
          by_contra hlong
          obtain rfl : more = [] := List.length_eq_zero_iff.1 (by omega)
          have hlast := congrArg List.getLast? heq
          rw [List.append_nil, List.getLast?_concat, List.getLast?_append_of_ne_nil _ hne] at hlast
          exact lf_not_mem_label hword (List.mem_of_getLast? hlast.symm)
        · rename_i hline
          have hrest := ih t.length (by rw [← hn]; simp; omega) t rfl
          have hlater : ∀ m, LabelEnds label ((u ++ '\n' :: t).take ((u ++ ['\n']).length + m))
              ((u ++ '\n' :: t).drop ((u ++ ['\n']).length + m)) ↔
              LabelEnds label (t.take m) (t.drop m) := by
            intro m
            rw [List.append_cons u '\n' t, List.take_length_add_append, List.drop_length_add_append,
              List.append_assoc, List.singleton_append, labelEnds_line hword]
          constructor
          · intro m hm
            by_cases hshort : m ≤ u.length
            · rw [hinside m hshort, hline]
              simp
            · obtain ⟨m, rfl⟩ : ∃ k, m = (u ++ ['\n']).length + k :=
                Nat.exists_eq_add_of_le (by simp; omega)
              rw [hlater]
              exact hrest.1 m (by omega)
          · refine hrest.2.imp (hlater _).2 fun hend => ?_
            rw [hend]
            simp
            omega
      · have hinside : ∀ m ≤ t.length, (LabelEnds label (t.take m) (t.drop m) ↔
            closingLabel? label t = some m) := by
          intro m hm
          have := labelEnds_inside hne hword (t := []) hlf hm
          simpa only [List.append_nil, List.take_nil] using this
        by_cases hnil : t = []
        · subst hnil
          exact ⟨fun m hm => absurd hm (by simp [pieces, heredocBodyExtent]), Or.inr rfl⟩
        rw [pieces_of_not_mem hlf hnil, heredocBodyExtent]
        split
        · rename_i k hline
          exact firstAt_of_line hinside (closingLabel?_le hline) hline
        · rename_i hline
          refine ⟨fun m hm hends => ?_, Or.inr rfl⟩
          rw [hinside m (Nat.le_of_lt hm), hline] at hends
          cases hends

end Label

/-- A heredoc with a label ends with the first line that holds the label. -/
theorem ends_heredoc {header label : Text} (hlabel : IsLabel header label) (t : Text) :
    Ends (IsHeredoc header label)
      (['<', '<', '<'] ++ header ++ ['\n'] ++ t.take (heredocBodyExtent label (pieces t)))
      (t.drop (heredocBodyExtent label (pieces t))) := by
  obtain ⟨_, _, _, _, _, _, _, hne, hword⟩ := hlabel
  have hle : heredocBodyExtent label (pieces t) ≤ t.length := by
    conv_rhs => rw [← flatten_pieces t]
    exact heredocBodyExtent_le label (pieces t)
  refine ends_of_firstAt _ ?_ ?_ hle (firstAt_heredocBodyExtent hne hword t)
  · intro u r
    unfold IsHeredoc LabelEnds
    simp only [List.append_assoc, List.append_cancel_left_eq]
  · rintro m hm _ ⟨body, indent, heq, _⟩
    have hlength := congrArg List.length heq
    simp only [List.length_take, List.length_append, List.length_cons, List.length_nil]
      at hlength hm
    omega

/-! ## Attribute groups -/

theorem exists_cons_of_isQuoted {q : Char} {s r : Text} (h : IsQuoted q s r) : ∃ u, s = q :: u := by
  obtain ⟨body, rfl, _⟩ := h
  exact ⟨body ++ [q], rfl⟩

theorem ne_nil_of_isPart {p : Text} (h : IsPart p) : p ≠ [] := by
  rintro rfl
  rcases h with ⟨c, hc, _⟩ | ⟨q, _, hquoted, _⟩
  · cases hc
  · obtain ⟨u, hu⟩ := exists_cons_of_isQuoted hquoted
    cases hu

/-- A text starts with one part at most. -/
theorem isPart_unique {p p' u u' : Text} (h : IsPart p) (h' : IsPart p') (heq : p ++ u = p' ++ u') :
    p = p' := by
  have hhead : p.head? = p'.head? := by
    have := congrArg List.head? heq
    rwa [List.head?_append_of_ne_nil _ (ne_nil_of_isPart h),
      List.head?_append_of_ne_nil _ (ne_nil_of_isPart h')] at this
  rcases h with ⟨c, rfl, hc⟩ | ⟨q, hq, hquoted, hfirst⟩
  · rcases h' with ⟨c', rfl, _⟩ | ⟨q', hq', hquoted', _⟩
    · simpa using hhead
    · obtain ⟨v, rfl⟩ := exists_cons_of_isQuoted hquoted'
      obtain rfl : c = q' := by simpa using hhead
      exact absurd hq' (not_or.2 hc)
  · rcases h' with ⟨c', rfl, hc'⟩ | ⟨q', _, hquoted', hfirst'⟩
    · obtain ⟨v, rfl⟩ := exists_cons_of_isQuoted hquoted
      obtain rfl : q = c' := by simpa using hhead
      exact absurd hq (not_or.2 hc')
    · -- neither part can be a beginning of the other
      obtain rfl : q = q' := by
        obtain ⟨v, rfl⟩ := exists_cons_of_isQuoted hquoted
        obtain ⟨v', rfl⟩ := exists_cons_of_isQuoted hquoted'
        simpa using hhead
      rcases List.append_eq_append_iff.1 heq with ⟨a, rfl, _⟩ | ⟨a, rfl, _⟩
      · cases a with
        | nil => exact (List.append_nil p).symm
        | cons d a =>
            refine absurd ?_ (hfirst' p.length (by simp))
            rwa [List.take_left]
      · cases a with
        | nil => exact List.append_nil p'
        | cons d a =>
            refine absurd ?_ (hfirst p'.length (by simp))
            rwa [List.take_left]

/-- Outside of its quoted parts the text closes `depth` brackets more than it opens, the last of
them at its end. -/
def Balances (depth : Nat) (u _rest : Text) : Prop :=
  ∃ parts : List Text, u = parts.flatten ∧ (∀ p ∈ parts, IsPart p) ∧
    parts.getLast? = some [']'] ∧ parts.count [']'] = parts.count ['['] + depth

theorem not_balances_nil (depth : Nat) (r : Text) : ¬ Balances depth [] r := by
  rintro ⟨parts, hflat, _, hlast, _⟩
  have hmem := List.flatten_eq_nil_iff.1 hflat.symm _ (List.mem_of_getLast? hlast)
  cases hmem

/-- A text that starts with a part is balanced by the parts after it. -/
theorem balances_append {p : Text} (hp : IsPart p) {depth : Nat} {u r : Text} :
    Balances depth (p ++ u) r ↔ ∃ parts : List Text, u = parts.flatten ∧
      (∀ p ∈ parts, IsPart p) ∧ (p :: parts).getLast? = some [']'] ∧
      (p :: parts).count [']'] = (p :: parts).count ['['] + depth := by
  constructor
  · rintro ⟨parts, hflat, hparts, hlast, hcount⟩
    cases parts with
    | nil => cases hlast
    | cons p' parts =>
        rw [List.flatten_cons] at hflat
        obtain rfl := isPart_unique hp (hparts p' List.mem_cons_self) hflat
        exact ⟨parts, List.append_cancel_left hflat,
          fun x hx => hparts x (List.mem_cons_of_mem _ hx), hlast, hcount⟩
  · rintro ⟨parts, rfl, hparts, hlast, hcount⟩
    refine ⟨p :: parts, rfl, fun x hx => ?_, hlast, hcount⟩
    rcases List.mem_cons.1 hx with rfl | hx
    · exact hp
    · exact hparts x hx

theorem getLast?_cons_of_ne {p x : Text} (h : p ≠ x) (parts : List Text) :
    (p :: parts).getLast? = some x ↔ parts.getLast? = some x := by
  rw [List.getLast?_cons]
  cases parts.getLast? with
  | none => simp [h]
  | some y => simp

/-- A part that is no bracket changes nothing. -/
theorem balances_append_part {p : Text} (hp : IsPart p) (hopen : p ≠ ['[']) (hclose : p ≠ [']'])
    {depth : Nat} (u r : Text) : Balances depth (p ++ u) r ↔ Balances depth u r := by
  rw [balances_append hp]
  simp only [getLast?_cons_of_ne hclose, List.count_cons_of_ne hopen, List.count_cons_of_ne hclose]
  rfl

theorem balances_opening {depth : Nat} (u r : Text) :
    Balances depth ('[' :: u) r ↔ Balances (depth + 1) u r := by
  rw [← List.singleton_append, balances_append (Or.inl ⟨'[', rfl, by decide, by decide⟩)]
  simp only [getLast?_cons_of_ne (p := ['[']) (x := [']']) (by decide), List.count_cons_self,
    List.count_cons_of_ne (b := ['[']) (a := [']']) (by decide), Nat.add_assoc, Nat.add_comm 1]
  rfl

theorem balances_closing {depth : Nat} (u r : Text) :
    Balances (depth + 1) (']' :: u) r ↔ depth = 0 ∧ u = [] ∨ Balances depth u r := by
  rw [← List.singleton_append, balances_append (Or.inl ⟨']', rfl, by decide, by decide⟩)]
  simp only [List.count_cons_self, List.count_cons_of_ne (b := [']']) (a := ['[']) (by decide),
    ← Nat.add_assoc, Nat.add_right_cancel_iff]
  constructor
  · rintro ⟨parts, rfl, hparts, hlast, hcount⟩
    cases parts with
    | nil => exact Or.inl ⟨by simpa using hcount.symm, rfl⟩
    | cons p parts => exact Or.inr ⟨p :: parts, rfl, hparts, by simpa using hlast, hcount⟩
  · rintro (⟨rfl, rfl⟩ | ⟨parts, rfl, hparts, hlast, hcount⟩)
    · exact ⟨[], rfl, by simp, rfl, rfl⟩
    · refine ⟨parts, rfl, hparts, ?_, hcount⟩
      rw [List.getLast?_cons, hlast]
      rfl

/-- A quotation in a group reaches as far as a quoted literal. -/
theorem groupExtent_inside {q : Char} (depth : Nat) (t : Text) :
    groupExtent (.inside q) depth t =
      quotedExtent q t + groupExtent .outside depth (t.drop (quotedExtent q t)) := by
  fun_induction quotedExtent q t with
  | case1 => rfl
  | case2 c =>
      rw [groupExtent]
      cases Quoting.next (.inside q) c <;> rfl
  | case3 d t ih =>
      rw [groupExtent, Quoting.next, if_pos rfl, groupExtent, Quoting.next, ih]
      simp only [List.drop_succ_cons]
      omega
  | case4 d t hq =>
      rw [groupExtent, Quoting.next, if_neg hq, if_pos rfl]
      simp only [List.drop_succ_cons, List.drop_zero]
      omega
  | case5 c d t hslash hq ih =>
      rw [groupExtent, Quoting.next, if_neg hslash, if_neg hq, ih]
      simp only [List.drop_succ_cons]
      omega

/-- A balanced text starts with a part. -/
theorem exists_part_of_balances {depth : Nat} {u r : Text} (h : Balances depth u r) :
    ∃ p v, IsPart p ∧ u = p ++ v := by
  obtain ⟨parts, rfl, hparts, hlast, _⟩ := h
  cases parts with
  | nil => cases hlast
  | cons p parts => exact ⟨p, parts.flatten, hparts p List.mem_cons_self, rfl⟩

/-- A part that is no bracket moves the first closing place on by its length. -/
theorem FirstAt.append_part {p t : Text} {depth n : Nat} (h : FirstAt (Balances depth) t n)
    (hp : IsPart p) (hopen : p ≠ ['[']) (hclose : p ≠ [']']) :
    FirstAt (Balances depth) (p ++ t) (p.length + n) := by
  constructor
  · intro m hm hbalances
    by_cases hshort : m < p.length
    · obtain ⟨p', v, hp', hv⟩ := exists_part_of_balances hbalances
      have hsplit : p ++ t = p' ++ (v ++ (p ++ t).drop m) := by
        rw [← List.append_assoc, ← hv, List.take_append_drop]
      have hlength := congrArg List.length hv
      rw [← isPart_unique hp hp' hsplit, List.length_take, List.length_append,
        List.length_append] at hlength
      omega
    · obtain ⟨k, rfl⟩ := Nat.exists_eq_add_of_le (Nat.le_of_not_lt hshort)
      rw [List.take_length_add_append, List.drop_length_add_append,
        balances_append_part hp hopen hclose] at hbalances
      exact h.1 k (by omega) hbalances
  · rw [List.take_length_add_append, List.drop_length_add_append,
      balances_append_part hp hopen hclose, List.length_append]
    exact h.2.imp_right (congrArg (p.length + ·))

theorem firstAt_balances_quoted {q : Char} (hq : q = '\'' ∨ q = '"') {depth n : Nat} {t : Text}
    (h : FirstAt (Balances depth) (t.drop (quotedExtent q t)) n) :
    FirstAt (Balances depth) (q :: t) (quotedExtent q t + n + 1) := by
  have hslash : q ≠ '\\' := by
    rcases hq with rfl | rfl <;> decide
  have hle := quotedExtent_le q t
  obtain ⟨hfirst, hend⟩ := firstAt_quotedExtent hslash t
  by_cases hshuts : Shuts q (t.take (quotedExtent q t)) (t.drop (quotedExtent q t))
  · -- the quotation is a part
    have hp : IsPart (q :: t.take (quotedExtent q t)) := by
      refine Or.inr ⟨q, hq, (isQuoted_cons _ _).2 hshuts, fun m hm hquoted => ?_⟩
      cases m with
      | zero =>
          obtain ⟨u, hu⟩ := exists_cons_of_isQuoted hquoted
          cases hu
      | succ m =>
          rw [List.length_cons, List.length_take, Nat.min_eq_left hle] at hm
          rw [List.take_succ_cons, isQuoted_cons, List.take_take,
            Nat.min_eq_left (by omega)] at hquoted
          exact hfirst m (by omega) hquoted
    have hbracket : ∀ c : Char, c = '[' ∨ c = ']' → q :: t.take (quotedExtent q t) ≠ [c] := by
      rintro c hc heq
      rw [(List.cons.inj heq).1] at hq
      rcases hq with rfl | rfl <;> simp at hc
    have := h.append_part hp (hbracket _ (Or.inl rfl)) (hbracket _ (Or.inr rfl))
    rw [List.cons_append, List.take_append_drop, List.length_cons, List.length_take,
      Nat.min_eq_left hle] at this
    rwa [Nat.add_right_comm]
  · -- it is never closed, and no part starts the text
    have hlength := hend.resolve_left hshuts
    obtain rfl : n = 0 := by
      rw [hlength, List.drop_length] at h
      have := h.2.resolve_left fun hb => not_balances_nil depth _ (by simpa using hb)
      simpa using this
    refine ⟨fun m _ hbalances => ?_, Or.inr (by rw [hlength]; rfl)⟩
    obtain ⟨p, v, hp, hv⟩ := exists_part_of_balances hbalances
    have hsplit : q :: t = p ++ (v ++ (q :: t).drop m) := by
      rw [← List.append_assoc, ← hv, List.take_append_drop]
    rcases hp with ⟨c, rfl, hc⟩ | ⟨q', _, hquoted, _⟩
    · rw [← (List.cons.inj hsplit).1] at hc
      exact absurd hq (not_or.2 hc)
    · obtain ⟨u, rfl⟩ := exists_cons_of_isQuoted hquoted
      obtain ⟨rfl, ht⟩ := List.cons.inj hsplit
      rw [isQuoted_cons] at hquoted
      have hu : u = t.take u.length := by rw [ht, List.append_eq, List.take_left]
      rcases Nat.lt_or_ge u.length (quotedExtent q t) with hlt | hge
      · rw [hu] at hquoted
        exact hfirst _ hlt hquoted
      · refine hshuts ?_
        rw [hlength, List.take_length]
        rw [hu, List.take_of_length_le (by omega)] at hquoted
        exact hquoted

/-- Inside of a group, the bracket that balances the first one is met where the scan stops. -/
theorem firstAt_groupExtent {depth : Nat} (hdepth : 0 < depth) (t : Text) :
    FirstAt (Balances depth) t (groupExtent .outside depth t) := by
  induction hn : t.length using Nat.strongRecOn generalizing t depth with
  | ind n ih =>
      cases t with
      | nil => exact ⟨fun m hm => absurd hm (by simp [groupExtent]), Or.inr rfl⟩
      | cons c t =>
          have hnext : ∀ {e : Nat}, 0 < e → FirstAt (Balances e) t (groupExtent .outside e t) :=
            fun he => ih t.length (by rw [← hn]; simp) he t rfl
          rw [groupExtent]
          split
          · rename_i hopen
            subst hopen
            exact (hnext (Nat.succ_pos depth)).cons (not_balances_nil depth) balances_opening
          split
          · rename_i hclose
            subst hclose
            obtain ⟨e, rfl⟩ := Nat.exists_eq_add_of_lt hdepth
            rw [Nat.zero_add]
            split
            · rename_i hlast
              obtain rfl : e = 0 := by omega
              refine ⟨fun m hm => ?_, Or.inl ((balances_closing _ _).2 (Or.inl ⟨rfl, rfl⟩))⟩
              obtain rfl : m = 0 := by omega
              exact not_balances_nil _ _
            · refine (hnext (e := e) (by omega)).cons (not_balances_nil _) fun u r => ?_
              rw [balances_closing]
              exact or_iff_right fun h => by omega
          · rename_i hopen hclose
            rw [Quoting.next]
            split
            · rename_i hq
              rw [groupExtent_inside]
              refine firstAt_balances_quoted hq (ih _ ?_ hdepth _ rfl)
              rw [← hn, List.length_drop, List.length_cons]
              omega
            · rename_i hq
              have hp : IsPart [c] := Or.inl ⟨c, rfl, not_or.1 hq⟩
              have := (hnext hdepth).append_part hp (by simpa using hopen) (by simpa using hclose)
              rwa [List.singleton_append, List.length_singleton, Nat.add_comm] at this

/-- An attribute group ends with the bracket that balances its first one. -/
theorem ends_group (t : Text) :
    Ends IsGroup ('#' :: ('[' :: t).take (groupExtent .outside 0 ('[' :: t)))
      (('[' :: t).drop (groupExtent .outside 0 ('[' :: t))) := by
  have hfirst : FirstAt (Balances 0) ('[' :: t) (groupExtent .outside 0 ('[' :: t)) := by
    rw [groupExtent, if_pos rfl]
    exact (firstAt_groupExtent Nat.one_pos t).cons (not_balances_nil 0) balances_opening
  refine ends_of_firstAt ['#'] ?_ ?_ (groupExtent_le ..) hfirst
  · intro u r
    unfold IsGroup Balances
    simp only [List.singleton_append, List.cons.injEq, true_and, Nat.add_zero, eq_comm]
  · rintro m hm _ ⟨parts, hparts, _⟩
    obtain rfl : m = 0 := by simpa using hm
    cases hparts

end Token

end DocLint
