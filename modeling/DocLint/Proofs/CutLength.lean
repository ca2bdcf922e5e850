import DocLint.Proofs.Position

/-!
# Cuts stay within the text

Every cut of the lexer stays within the text that is left, whatever branch decides its length.

* `quotedExtent_le`, `groupExtent_le`, `lineCommentExtent_le`, `commentExtent_le`,
  `heredocExtent?_le`: how far a lexeme reaches, unterminated ones included.
* `cut_extra_le`: no cut asks for more characters than there are.
* `utf8Length_drop_lt`, `text_ne_nil_of_mem_tokenize`: what is left gets shorter, and no token is
  empty.
-/

namespace DocLint.Token

open Text

/-! ## Extents -/

theorem startsWith_length_le {p t : Text} (h : startsWith p t = true) : p.length ≤ t.length :=
  (startsWith_iff.1 h).length_le

theorem find?_add_length_le {p t : Text} {n : Nat} (h : find? p t = some n) :
    n + p.length ≤ t.length := by
  induction t generalizing n with
  | nil =>
      simp only [find?] at h
      split at h
      · rename_i hp
        cases h
        simp [List.isEmpty_iff.1 hp]
      · cases h
  | cons c t ih =>
      simp only [find?] at h
      split at h
      · rename_i hp
        cases h
        simpa using startsWith_length_le hp
      · obtain ⟨m, hm, rfl⟩ := Option.map_eq_some_iff.1 h
        have := ih hm
        rw [List.length_cons]
        omega

theorem quotedExtent_le (q : Char) (t : Text) : quotedExtent q t ≤ t.length := by
  fun_induction quotedExtent q t <;> simp only [List.length_cons, List.length_nil] at * <;> omega

theorem groupExtent_le (quoting : Quoting) (depth : Nat) (t : Text) :
    groupExtent quoting depth t ≤ t.length := by
  fun_induction groupExtent quoting depth t <;> simp only [List.length_cons, List.length_nil] <;>
    omega

theorem restOfLine_length_le (t : Text) : (restOfLine t).length ≤ t.length := by
  induction t with
  | nil => simp [restOfLine]
  | cons c t ih =>
      rw [restOfLine]
      split
      · simp
      · simpa using ih

theorem lineCommentExtent_le (t : Text) : lineCommentExtent t ≤ t.length := by
  have hline := restOfLine_length_le t
  unfold lineCommentExtent
  cases h : dropSuffix? ['\r'] (restOfLine t) with
  | none => simpa [h] using hline
  | some line =>
      have := congrArg List.length (dropSuffix?_eq_some_iff.1 h)
      simp only [List.length_append] at this
      simp only [h, Option.getD_some]
      omega

theorem commentExtent_le (t : Text) : commentExtent t ≤ t.length := by
  unfold commentExtent
  split
  · rename_i n h
    simpa using find?_add_length_le h
  · exact Nat.le_refl _

theorem closingLabel?_le {label line : Text} {n : Nat} (h : closingLabel? label line = some n) :
    n ≤ line.length := by
  unfold closingLabel? at h
  simp only at h
  split at h
  · cases h
  · rename_i rest hrest
    split at h
    · cases h
    · cases h
      have hlen := congrArg List.length (dropPrefix?_eq_some_iff.1 hrest)
      have hindent := (List.takeWhile_prefix isBlank (l := line)).length_le
      simp only [List.length_drop, List.length_append] at hlen
      omega

theorem heredocBodyExtent_le (label : Text) (ls : List Text) :
    heredocBodyExtent label ls ≤ ls.flatten.length := by
  induction ls with
  | nil => simp [heredocBodyExtent]
  | cons line ls ih =>
      rw [heredocBodyExtent, List.flatten_cons, List.length_append]
      split
      · rename_i n h
        have := closingLabel?_le h
        omega
      · omega

theorem heredocExtent?_le {t : Text} {n : Nat} (h : heredocExtent? t = some n) : n ≤ t.length := by
  unfold heredocExtent? at h
  split at h
  · cases h
  · rename_i k hk
    obtain ⟨label, _, rfl⟩ := Option.map_eq_some_iff.1 h
    have hnl := find?_add_length_le hk
    have hbody := heredocBodyExtent_le label (pieces (t.drop (k + 1)))
    rw [flatten_pieces, List.length_drop] at hbody
    simp only [List.length_cons, List.length_nil] at hnl
    omega

/-! ## Cuts -/

theorem lineBreakExtent_le (t : Text) : lineBreakExtent t ≤ t.length := by
  unfold lineBreakExtent
  split
  · rename_i h; simpa using startsWith_length_le h
  · split
    · rename_i h; simpa using startsWith_length_le h
    · exact Nat.zero_le _

theorem htmlCut_extra_le (c : Char) (t : Text) : (htmlCut c t).extra ≤ t.length := by
  unfold htmlCut
  split
  · rename_i h
    have hpos := List.length_pos_of_mem (List.mem_of_mem_head? h.2)
    -- the tag itself lies within the text, and so does the break behind it
    have tag_le : (if sameLetters (t.take 4) "?php" then 4
        else if startsWith "?=" t then 2 else 1) ≤ t.length := by
      split
      · rename_i hphp
        have := congrArg List.length (eq_of_beq hphp)
        simp only [lower, List.length_map, List.length_take] at this
        have h4 : ("?php" : Text).length = 4 := by decide
        omega
      · split
        · rename_i hecho
          have := startsWith_length_le hecho
          have h2 : ("?=" : Text).length = 2 := by decide
          omega
        · exact hpos
    simp only
    generalize (if sameLetters (t.take 4) "?php" then 4
        else if startsWith "?=" t then 2 else 1) = tag at tag_le ⊢
    have := lineBreakExtent_le (t.drop tag)
    rw [List.length_drop] at this
    omega
  · show (find? "<?" t).getD t.length ≤ t.length
    cases h : find? "<?" t with
    | none => exact Nat.le_refl _
    | some n =>
        have := find?_add_length_le h
        rw [Option.getD_some]
        omega

theorem operator_length_le {c : Char} {t op : Text}
    (h : operators.find? (startsWith · (c :: t)) = some op) : op.length - 1 ≤ t.length := by
  have hop : startsWith op (c :: t) = true := by simpa using List.find?_some h
  have := startsWith_length_le hop
  rw [List.length_cons] at this
  omega

theorem ite_snd_le {p : Prop} [Decidable p] {x y : Kind × Nat} {n : Nat} (hx : p → x.2 ≤ n)
    (hy : ¬p → y.2 ≤ n) : (if p then x else y).2 ≤ n := by
  by_cases h : p
  · rw [if_pos h]; exact hx h
  · rw [if_neg h]; exact hy h

/-- One case for each kind of lexeme in code. -/
theorem codeLexeme_extra_le (c : Char) (t : Text) : (codeLexeme c t).2 ≤ t.length := by
  unfold codeLexeme
  refine ite_snd_le (fun _ => (List.takeWhile_prefix _).length_le) fun _ => ?_
  refine ite_snd_le (fun _ => groupExtent_le _ _ t) fun _ => ?_
  refine ite_snd_le (fun _ => lineCommentExtent_le t) fun _ => ?_
  refine ite_snd_le (fun h => ?_) fun _ => ?_
  · have hpos := List.length_pos_of_mem (List.mem_of_mem_head? h.2)
    have := commentExtent_le (t.drop 1)
    rw [List.length_drop] at this
    show commentExtent (t.drop 1) + 1 ≤ t.length
    omega
  refine ite_snd_le (fun _ => quotedExtent_le c t) fun _ => ?_
  refine ite_snd_le (fun h => ?_) fun _ => ?_
  · have hpos := startsWith_length_le h.2
    have h2 : ("<<" : Text).length = 2 := by decide
    split
    · rename_i n hn
      have := heredocExtent?_le hn
      rw [List.length_drop] at this
      show n + 2 ≤ t.length
      omega
    · show 2 ≤ t.length
      omega
  refine ite_snd_le (fun _ => (List.takeWhile_prefix _).length_le) fun _ => ?_
  refine ite_snd_le (fun _ => (List.takeWhile_prefix _).length_le) fun _ => ?_
  refine ite_snd_le (fun _ => (List.takeWhile_prefix _).length_le) fun _ => ?_
  -- brackets, `;` and `,` take no further character
  split <;> try exact Nat.zero_le _
  split
  · rename_i op hop
    exact operator_length_le hop
  · exact Nat.zero_le _

theorem cut_extra_le (mode : Mode) (c : Char) (t : Text) : (cut mode c t).extra ≤ t.length := by
  cases mode with
  | html => exact htmlCut_extra_le c t
  | code =>
      show (codeCut c t).extra ≤ t.length
      unfold codeCut
      split
      · rename_i h
        exact List.length_pos_of_mem (List.mem_of_mem_head? h.2)
      · exact codeLexeme_extra_le c t

/-! ## The whole source -/

/-- What is left after a cut is shorter by at least one byte. -/
theorem utf8Length_drop_lt (c : Char) (t : Text) (n : Nat) :
    utf8Length (t.drop n) < utf8Length (c :: t) := by
  have hc := c.utf8Size_pos
  have ht : utf8Length t = utf8Length (t.take n) + utf8Length (t.drop n) := by
    rw [← utf8Length_append, List.take_append_drop]
  rw [utf8Length_cons]
  omega

theorem text_ne_nil_of_mem_tokenize {source : Text} {t : Token} (h : t ∈ tokenize source) :
    t.text ≠ [] := by
  have hl : t.toLexeme ∈ lexemes (startMode source) source := by
    rw [← map_toLexeme_place 1 0 (lexemes (startMode source) source)]
    exact List.mem_map_of_mem h
  exact text_ne_nil_of_mem_lexemes hl

end DocLint.Token
