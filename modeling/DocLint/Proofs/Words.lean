import DocLint.Proofs.Signature

/-!
# The words of a block

A block is read into a description and tags, and on the way lines are trimmed, cut at empty lines,
joined again and split into slots. None of this touches the words: what the parts of a block say,
one after another, is what its content lines say.

* `words_append`, `words_join`, `words_trimEnd`: words and blanks between them.
* `words_description`: the words of the short and the long description.
* `Tag.written`: the words that a tag was read from; `written_ofLine` for the line of the tag,
  `written_readTags` for the lines from the first tag on.
* `block_keeps_words`: a block loses, repeats and moves no word.
-/

namespace DocLint

/-! ## Words and blanks -/

namespace Text

theorem wordsFrom_append {c : Char} (hc : isBlank c = true) (w s t : Text) :
    wordsFrom w (s ++ c :: t) = wordsFrom w s ++ words t := by
  induction s generalizing w with
  | nil =>
      rw [List.nil_append, wordsFrom.eq_2, if_pos hc, wordsFrom.eq_1]
      split
      · rfl
      · rfl
  | cons d s ih =>
      rw [List.cons_append, wordsFrom.eq_2, wordsFrom.eq_2, ih, ih]
      split
      · split
        · rfl
        · rfl
      · rfl

/-- Words end at a blank. -/
theorem words_append {c : Char} (hc : isBlank c = true) (s t : Text) :
    words (s ++ c :: t) = words s ++ words t := wordsFrom_append hc [] s t

theorem words_blanks_append {r : Text} (hr : ∀ c ∈ r, isBlank c = true) (t : Text) :
    words (r ++ t) = words t := by
  induction r with
  | nil => rfl
  | cons c r ih =>
      obtain ⟨hc, hr⟩ := List.forall_mem_cons.1 hr
      rw [← ih hr]
      exact words_append hc [] (r ++ t)

theorem words_append_blanks {r : Text} (hr : ∀ c ∈ r, isBlank c = true) (t : Text) :
    words (t ++ r) = words t := by
  cases r with
  | nil => rw [List.append_nil]
  | cons c r =>
      obtain ⟨hc, hr⟩ := List.forall_mem_cons.1 hr
      have hnone : words r = [] := by
        rw [← List.append_nil r, words_blanks_append hr]
        rfl
      rw [words_append hc, hnone, List.append_nil]

theorem words_trimEnd (t : Text) : words (trimEnd t) = words t := by
  have hsplit : t = trimEnd t ++ (t.reverse.takeWhile isBlank).reverse := by
    rw [trimEnd, trimEndOf, ← List.reverse_append, List.takeWhile_append_dropWhile,
      List.reverse_reverse]
  conv_rhs => rw [hsplit]
  refine (words_append_blanks (fun c hc => ?_) _).symm
  exact List.mem_takeWhile_imp (List.mem_reverse.1 hc)

theorem join_cons_cons (sep t u : Text) (us : List Text) :
    join sep (t :: u :: us) = t ++ sep ++ join sep (u :: us) := rfl

/-- Blanks between texts keep their words apart. -/
theorem words_join {sep : Text} (hne : sep ≠ []) (hsep : sep.all isBlank = true)
    (ts : List Text) : words (join sep ts) = ts.flatMap words := by
  obtain ⟨c, r, rfl⟩ := List.exists_cons_of_ne_nil hne
  obtain ⟨hc, hr⟩ := List.forall_mem_cons.1 (List.all_eq_true.1 hsep)
  induction ts with
  | nil => rfl
  | cons t ts ih =>
      cases ts with
      | nil => rw [join, List.flatMap_singleton]
      | cons u us =>
          rw [join_cons_cons, List.append_assoc, List.cons_append, words_append hc,
            words_blanks_append hr, ih]
          exact List.flatMap_cons.symm

/-- Empty texts have no words. -/
theorem flatMap_words_filter (ts : List Text) :
    (ts.filter (!·.isEmpty)).flatMap words = ts.flatMap words := by
  induction ts with
  | nil => rfl
  | cons t ts ih =>
      cases t with
      | nil => exact ih
      | cons c t => rw [List.filter_cons_of_pos rfl, List.flatMap_cons, List.flatMap_cons, ih]

/-- What is left behind the first words. -/
theorem words_takeWords (n : Nat) (t : Text) :
    words (Tag.takeWords n (trimStart t)).2 = (words t).drop n := by
  induction n generalizing t with
  | zero => exact words_trimStart t
  | succ n ih =>
      rw [← words_trimStart t, Tag.takeWords]
      cases htrim : trimStart t with
      | nil => rfl
      | cons c r =>
          have hc : isBlank c = false := by
            have hhead := List.head?_dropWhile_not isBlank t
            rw [show t.dropWhile isBlank = c :: r from htrim] at hhead
            exact hhead
          have hspan : spanWord (c :: r) = (c :: (spanWord r).1, (spanWord r).2) := by
            simp [spanWord_eq, hc]
          rw [if_neg (by simp), hspan, words_of_head hc, List.drop_succ_cons, ← ih]

end Text

open Text

/-! ## Tags -/

namespace Tag

/-- The line gives a tag that has a variable where its type is due. -/
def lacksType (name line : Text) : Bool :=
  isTyped name && (words line).tail.head?.any isVariableWord

/-- The words of a tag that starts on the line: its name behind an `@`, its slots without a
placeholder that was put in, and its description. -/
def written (line : Text) (tag : Tag) : List Text :=
  ('@' :: tag.name) ::
    ((if lacksType tag.name line then tag.slots.tail else tag.slots) ++ words tag.description)

/-- Without the placeholder the slots are the words from which they were filled. -/
theorem slots_without_placeholder (name : Text) (ws : List Text) :
    (if isTyped name && ws.head?.any isVariableWord
      then (fillSlots name (ws.take (arity name))).tail
      else fillSlots name (ws.take (arity name))) = ws.take (arity name) := by
  have hhead : isTyped name = true → (ws.take (arity name)).head? = ws.head? := by
    intro htyped
    have harity : ∀ n ∈ ["param".toList, "var".toList, "return".toList], arity n ≠ 0 := by decide
    rw [List.head?_take, if_neg (harity name (of_decide_eq_true htyped))]
  rw [fillSlots]
  cases htyped : isTyped name with
  | false => rfl
  | true =>
      rw [hhead htyped]
      cases ws.head?.any isVariableWord with
      | false => rfl
      | true => rfl

/-- **A tag has the words of its line.** -/
theorem written_ofLine (n : Nat) (t : Text) :
    written ('@' :: t) (ofLine n t) = words ('@' :: t) := by
  have hwords := words_of_head (show isBlank '@' = false by decide) t
  have hslots : (if lacksType (ofLine n t).name ('@' :: t) then (ofLine n t).slots.tail
      else (ofLine n t).slots) = (words (spanWord t).2).take (arity (spanWord t).1) := by
    rw [(DocBlock.ofLine_eq n t).2, DocBlock.lineSlots, lacksType, hwords, List.tail_cons]
    exact slots_without_placeholder _ _
  have hrest : words (ofLine n t).description =
      (words (spanWord t).2).drop (arity (spanWord t).1) := by
    rw [← words_takeWords]
    exact words_trimEnd _
  rw [written, hslots, hrest, List.take_append_drop, hwords]
  rfl

/-- The lines that continue a tag add their words. -/
theorem written_extend (line : Text) (tag : Tag) (more : List Text) :
    written line (tag.extend more) = written line tag ++ more.flatMap words := by
  have hdescription : words (tag.extend more).description =
      words tag.description ++ more.flatMap words := by
    rw [extend, words_join (by decide) (by decide), flatMap_words_filter, List.flatMap_cons]
  rw [written, hdescription, ← List.append_assoc]
  rfl

end Tag

namespace DocBlock

/-- The lines of the block that start a tag. -/
def tagLines (content : List Text) : List Text := content.filter isTagLine

/-- The tags have the words of the lines from the first of them on. -/
theorem written_readTags (n : Nat) (content : List Text) :
    (List.zipWith Tag.written (tagLines content) (readTags n content)).flatten =
      (content.dropWhile (!isTagLine ·)).flatMap words := by
  induction content generalizing n with
  | nil => rfl
  | cons l content ih =>
      have ih := ih (n + 1)
      rw [tagLines] at ih ⊢
      rw [readTags]
      cases htag : isTagLine l with
      | false =>
          rw [List.filter_cons_of_neg (by simp [htag]), List.dropWhile_cons_of_pos (by simp [htag])]
          exact ih
      | true =>
          obtain ⟨t, rfl⟩ : ∃ t, l = '@' :: t := List.head?_eq_some_iff.1 (beq_iff_eq.1 htag)
          rw [List.filter_cons_of_pos htag, List.dropWhile_cons_of_neg (by simp [htag]),
            if_pos rfl, List.zipWith_cons_cons, List.flatten_cons, ih, Tag.written_extend,
            List.drop_one, List.tail_cons, Tag.written_ofLine, List.append_assoc,
            ← List.flatMap_append, List.takeWhile_append_dropWhile, List.flatMap_cons]

/-- Every line that starts a tag gives one, with the number of the line. -/
theorem line_readTags (n : Nat) (content : List Text) :
    (readTags n content).map (·.line) =
      ((content.zipIdx n).filter (isTagLine ·.1)).map (·.2) := by
  induction content generalizing n with
  | nil => rfl
  | cons l content ih =>
      rw [readTags, List.zipIdx_cons]
      cases htag : isTagLine l with
      | false =>
          rw [List.filter_cons_of_neg (by simp [htag]), if_neg (by decide)]
          exact ih (n + 1)
      | true =>
          rw [List.filter_cons_of_pos (p := fun q : Text × Nat => isTagLine q.1) htag, if_pos rfl,
            List.map_cons, List.map_cons, ih (n + 1)]
          rfl

/-! ## Descriptions -/

/-- A paragraph is not empty. -/
theorem ne_nil_of_mem_descriptionParagraphs {content : List Text} {p : Text}
    (h : p ∈ descriptionParagraphs content) : p ≠ [] := by
  obtain ⟨ls, hls, rfl⟩ := List.mem_map.1 h
  have hne : ls ≠ [] := by
    have := (List.mem_filter.1 hls).2
    simpa using this
  obtain ⟨l, more, rfl⟩ := List.exists_cons_of_ne_nil hne
  -- the lines of a paragraph are not empty
  have hl : l ≠ [] := by
    have hmem : l ∈ (paragraphs (descriptionLines content)).flatten :=
      List.mem_flatten_of_mem hls List.mem_cons_self
    rw [flatten_paragraphs] at hmem
    have := (List.mem_filter.1 hmem).2
    simpa using this
  cases more with
  | nil => exact hl
  | cons m more =>
      rw [join_cons_cons, List.append_assoc]
      exact List.append_ne_nil_of_left_ne_nil hl _

theorem words_descriptionParagraphs (content : List Text) :
    (descriptionParagraphs content).flatMap words = (descriptionLines content).flatMap words := by
  have hjoin : ∀ ls : List Text, words (join "\n" ls) = ls.flatMap words :=
    words_join (by decide) (by decide)
  rw [descriptionParagraphs, List.flatMap_map, ← flatMap_words_filter (descriptionLines content),
    ← flatten_paragraphs, ← List.flatMap_id, List.flatMap_assoc]
  simp only [hjoin, id]

theorem short_read (raw : Text) (isInline : Bool) (line index : Nat) :
    (read raw isInline line index).short = (descriptionParagraphs (contentLines raw)).headD [] := rfl

theorem long_read (raw : Text) (isInline : Bool) (line index : Nat) :
    (read raw isInline line index).long =
      join "\n\n" (descriptionParagraphs (contentLines raw)).tail := rfl

/-- The words of the description are those of the lines before the first tag. -/
theorem words_description (raw : Text) (isInline : Bool) (line index : Nat) :
    words (read raw isInline line index).description =
      (descriptionLines (contentLines raw)).flatMap words := by
  rw [← words_descriptionParagraphs]
  have hlong : words (read raw isInline line index).long =
      (descriptionParagraphs (contentLines raw)).tail.flatMap words :=
    words_join (by decide) (by decide) _
  have hshort : words (read raw isInline line index).short ++
      (descriptionParagraphs (contentLines raw)).tail.flatMap words =
        (descriptionParagraphs (contentLines raw)).flatMap words := by
    rw [short_read]
    cases descriptionParagraphs (contentLines raw) with
    | nil => rfl
    | cons p ps => exact List.flatMap_cons.symm
  rw [← hshort, ← hlong, description]
  split
  · rename_i hempty
    rw [List.isEmpty_iff.1 hempty]
    exact (List.append_nil _).symm
  · rw [List.append_assoc, List.cons_append, words_append (by decide)]
    exact congrArg _ (words_blanks_append (List.forall_mem_singleton.2 rfl) _)

/-- Without a short description there is no long one. -/
theorem long_eq_nil_of_short_eq_nil {raw : Text} {isInline : Bool} {line index : Nat}
    (h : (read raw isInline line index).short = []) : (read raw isInline line index).long = [] := by
  have hps : ∀ p ∈ descriptionParagraphs (contentLines raw), p ≠ [] :=
    fun p => ne_nil_of_mem_descriptionParagraphs
  rw [short_read] at h
  rw [long_read]
  generalize descriptionParagraphs (contentLines raw) = ps at hps h ⊢
  cases ps with
  | nil => rfl
  | cons p ps => exact absurd h (hps p List.mem_cons_self)

/-- **A block keeps the words of its comment.** The words of the description and then those of each
tag are the words of the content lines, in order. Each line that starts with `@` gives one tag, and
a block without a short description has no long one. -/
theorem block_keeps_words (t : Token) (index : Nat) :
    let d := ofToken t index
    let content := contentLines t.text
    words d.description ++ (List.zipWith Tag.written (tagLines content) d.tags).flatten =
        content.flatMap words ∧
      d.tags.map (·.line) = ((content.zipIdx t.line).filter (isTagLine ·.1)).map (·.2) ∧
      (d.short = [] → d.long = []) := by
  intro d content
  refine ⟨?_, line_readTags t.line content, long_eq_nil_of_short_eq_nil⟩
  have hdescription : words d.description = (content.takeWhile (!isTagLine ·)).flatMap words :=
    words_description _ _ _ _
  have htags : (List.zipWith Tag.written (tagLines content) d.tags).flatten =
      (content.dropWhile (!isTagLine ·)).flatMap words := written_readTags t.line content
  rw [hdescription, htags, ← List.flatMap_append, List.takeWhile_append_dropWhile]

end DocBlock

end DocLint
