import DocLint.Proofs.Marks

/-!
# Blocks as they are written

A block can be written from what it says: paragraphs of lines with an empty line between them, and
one line for each tag, all behind a star. Reading such a block gives back what was written.

* `tagLine`, `proseLines`, `render`: the lines of a tag and of paragraphs, and a block with lines.
* `Paragraph`, `WrittenTag`: paragraphs and tags that can be told apart when they are read.
* `contentLines_render`: the lines of a block are its content lines.
* `ofLine_tagLine`, `readTags_tagLines`, `paragraphs_proseLines`: tags and paragraphs are read back.
* `block_reads_back`: so is the block; `empty_slot_lost`: but not a tag with an empty slot.
-/

namespace DocLint

open Text

namespace DocBlock

/-! ## Writing a block -/

/-- The line of a tag: `@`, the name, and the slots and the description behind one space each. -/
def tagLine (name : Text) (slots : List Text) (description : Text) : Text :=
  '@' :: name ++ slots.flatMap (' ' :: ·) ++ if description = [] then [] else ' ' :: description

/-- A line behind its star. -/
def marked (l : Text) : Text := if l = [] then " *" else " * " ++ l

/-- A block with the given lines between its opening and its closing line. -/
def render (content : List Text) : Text :=
  "/**" ++ (content.map marked).flatMap ('\n' :: ·) ++ '\n' :: " */"

/-- A line of a description. -/
structure ProseLine where
  text : Text
  ne_nil : text ≠ []
  isTrimmed : IsTrimmed text
  lf_not_mem : '\n' ∉ text
  head_ne : text.head? ≠ some '@'

/-- Lines of a description without an empty line between them. -/
structure Paragraph where
  lines : List ProseLine
  ne_nil : lines ≠ []

/-- The lines of a paragraph. -/
def Paragraph.texts (p : Paragraph) : List Text := p.lines.map (·.text)

/-- The lines of paragraphs, an empty line between two of them. -/
def proseLines : List Paragraph → List Text
  | [] => []
  | [p] => p.texts
  | p :: q :: ps => p.texts ++ [] :: proseLines (q :: ps)

/-- A word. -/
def IsWord (w : Text) : Prop := w ≠ [] ∧ ∀ c ∈ w, isBlank c = false

instance (w : Text) : Decidable (IsWord w) :=
  decidable_of_iff (w ≠ [] ∧ w.all (!isBlank ·) = true) (by simp [IsWord])

/-- A tag as it is written on one line: a description follows only if all slots are there, and the
type of a tag that may leave it out does not look like a variable. -/
structure WrittenTag where
  name : Text
  slots : List Text
  description : Text
  name_isWord : IsWord name
  slots_isWord : ∀ w ∈ slots, IsWord w
  length_le : slots.length ≤ Tag.arity name
  length_eq : description ≠ [] → slots.length = Tag.arity name
  type_head : Tag.isTyped name = true → ∀ w ∈ slots.head?, ∀ c ∈ w.head?, c ∉ ['$', '&', '.']
  isTrimmed : IsTrimmed description
  lf_not_mem : '\n' ∉ description

namespace WrittenTag

/-- The line of the tag. -/
def text (t : WrittenTag) : Text := tagLine t.name t.slots t.description

/-- The tag, read on a line. -/
def tag (t : WrittenTag) (line : Nat) : Tag := ⟨t.name, t.slots, t.description, line⟩

end WrittenTag

/-! ## The lines of a block -/

theorem contentLine_marked {l : Text} (h : IsTrimmed l) :
    contentLine false false (marked l) = l := by
  by_cases hl : l = []
  · rw [hl]
    decide
  · have hhead : ∀ c ∈ ("* ".toList ++ l).head?, isBlank c = false := forall_head?_cons (by decide)
    have hlast : ∀ c ∈ ("* ".toList ++ l).getLast?, isBlank c = false := by
      rw [List.getLast?_append_of_ne_nil _ hl]
      exact h.2
    have htrim : trim (" * ".toList ++ l) = "* ".toList ++ l :=
      (trim_blanks_append (List.forall_mem_singleton.2 rfl) ("* ".toList ++ l)).trans
        (trim_eq_self ⟨hhead, hlast⟩)
    rw [marked, if_neg hl, contentLine_middle, htrim]
    exact (trim_blanks_append (List.forall_mem_singleton.2 rfl) l).trans (trim_eq_self h)

theorem lf_not_mem_marked {l : Text} (h : '\n' ∉ l) : '\n' ∉ marked l := by
  unfold marked
  split
  · decide
  · rw [List.mem_append, not_or]
    exact ⟨by decide, h⟩

/-- The lines of a block are read back. -/
theorem contentLines_render {content : List Text} (h : ∀ l ∈ content, IsTrimmed l ∧ '\n' ∉ l) :
    contentLines (render content) = [] :: (content ++ [[]]) := by
  have hmiddle : ∀ l ∈ content.map marked, '\n' ∉ l :=
    List.forall_mem_map.2 fun l hl => lf_not_mem_marked (h l hl).2
  have hlines : content.map (contentLine false false ∘ marked) = content := by
    conv_rhs => rw [← List.map_id content]
    exact List.map_congr_left fun l hl => contentLine_marked (h l hl).1
  rw [render, contentLines_of_lines (by decide) hmiddle (by decide) (by decide), List.map_map,
    hlines]
  have hfirst : contentLine true false "/**" = [] := by decide
  have hlast : contentLine false true " */" = [] := by decide
  rw [hfirst, hlast]

/-- A line break follows the opening mark, also if there are no lines between the marks. -/
theorem startsWith_render (content : List Text) : startsWith "/***" (render content) = false := by
  cases content with
  | nil => rfl
  | cons l content => rfl

/-! ## Tags -/

/-- A text that is empty or starts with a blank. -/
def StartsBlank (t : Text) : Prop := ∀ c ∈ t.head?, isBlank c = true

theorem spanWord_append {w t : Text} (hw : ∀ c ∈ w, isBlank c = false) (ht : StartsBlank t) :
    spanWord (w ++ t) = (w, t) := by
  have hword : ∀ c ∈ w, (!isBlank c) = true := fun c hc => by rw [hw c hc]; rfl
  have hrest : t.dropWhile (fun c => !isBlank c) = t :=
    trimStartOf_eq_self fun c hc => by rw [ht c hc]; rfl
  rw [spanWord_eq, List.dropWhile_append_of_pos hword, List.takeWhile_append_of_pos hword, hrest]
  have hnone : t.takeWhile (fun c => !isBlank c) = [] := by
    have happend := List.takeWhile_append_dropWhile (p := fun c => !isBlank c) (l := t)
    rw [hrest] at happend
    exact List.append_left_eq_self.1 happend
  rw [hnone, List.append_nil]

theorem trimStart_eq_self {t : Text} (h : ∀ c ∈ t.head?, isBlank c = false) : trimStart t = t :=
  trimStartOf_eq_self h

theorem trimStart_space (t : Text) : trimStart (' ' :: t) = trimStart t := rfl

theorem IsWord.head {w : Text} (h : IsWord w) (t : Text) :
    ∀ c ∈ (w ++ t).head?, isBlank c = false := by
  intro c hc
  rw [List.head?_append_of_ne_nil _ h.1] at hc
  exact h.2 c (List.mem_of_mem_head? hc)

theorem startsBlank_flatMap (ws : List Text) {t : Text} (ht : StartsBlank t) :
    StartsBlank (ws.flatMap (' ' :: ·) ++ t) := by
  cases ws with
  | nil => exact ht
  | cons w ws => exact forall_head?_cons (by decide)

/-- Slots behind one space each are taken, and what follows them if there are as many as taken. -/
theorem takeWords_flatMap {ws : List Text} (hws : ∀ w ∈ ws, IsWord w) {n : Nat} {t : Text}
    (hle : ws.length ≤ n) (heq : t ≠ [] → ws.length = n) (ht : StartsBlank t) :
    Tag.takeWords n (trimStart (ws.flatMap (' ' :: ·) ++ t)) = (ws, trimStart t) := by
  induction ws generalizing n with
  | nil =>
      rw [List.flatMap_nil, List.nil_append]
      by_cases hnil : t = []
      · rw [hnil]
        cases n with
        | zero => rfl
        | succ n => rfl
      · rw [← heq hnil]
        rfl
  | cons w ws ih =>
      obtain ⟨hw, hws⟩ := List.forall_mem_cons.1 hws
      obtain ⟨m, rfl⟩ := Nat.exists_eq_add_of_le' (Nat.le_trans (Nat.le_add_left 1 ws.length) hle)
      have hrest := startsBlank_flatMap ws ht
      have ih := ih hws (Nat.le_of_succ_le_succ hle) fun h => Nat.succ.inj (heq h)
      rw [List.flatMap_cons, List.cons_append, List.cons_append, trimStart_space, List.append_assoc,
        trimStart_eq_self (hw.head _), Tag.takeWords, if_neg (by simp [hw.1])]
      simp only [spanWord_append hw.2 hrest, ih]

theorem isVariableWord_eq_false {w : Text} (h : ∀ c ∈ w.head?, c ∉ ['$', '&', '.']) :
    Tag.isVariableWord w = false := by
  have hkeep : trimStartOf (fun c => c == '&' || c == '.') w = w := by
    refine trimStartOf_eq_self fun c hc => ?_
    have := h c hc
    simp at this
    simp [this]
  rw [Tag.isVariableWord, hkeep]
  refine beq_false_of_ne fun hhead => ?_
  exact h '$' hhead (by decide)

theorem WrittenTag.fillSlots_eq (t : WrittenTag) : Tag.fillSlots t.name t.slots = t.slots := by
  refine if_neg fun h => ?_
  obtain ⟨htyped, hvariable⟩ := Bool.and_eq_true_iff.1 h
  cases hhead : t.slots.head? with
  | none => rw [hhead] at hvariable; cases hvariable
  | some w =>
      rw [hhead, Option.any_some, isVariableWord_eq_false (t.type_head htyped w hhead)] at hvariable
      cases hvariable

/-- The line of a tag gives the tag. -/
theorem ofLine_tagLine (t : WrittenTag) (n : Nat) : Tag.ofLine n (t.text.drop 1) = t.tag n := by
  let rest : Text := if t.description = [] then [] else ' ' :: t.description
  have hblank : StartsBlank rest := by
    unfold rest
    split
    · exact fun c hc => absurd hc (Option.not_mem_none c)
    · exact forall_head?_cons (by decide)
  have htrim : trimStart rest = t.description := by
    unfold rest
    split
    · rename_i h
      rw [h]
      rfl
    · rw [trimStart_space, trimStart_eq_self t.isTrimmed.1]
  have hlength : rest ≠ [] → t.slots.length = Tag.arity t.name := by
    refine fun h => t.length_eq fun hnil => h ?_
    exact if_pos hnil
  have hline : t.text.drop 1 = t.name ++ (t.slots.flatMap (' ' :: ·) ++ rest) := by
    rw [WrittenTag.text, tagLine, List.cons_append, List.cons_append, List.drop_succ_cons,
      List.drop_zero, List.append_assoc]
  have hend : trimEnd t.description = t.description := by
    have := trim_eq_self t.isTrimmed
    rwa [trim, trimOf, trimStartOf_eq_self t.isTrimmed.1] at this
  rw [Tag.ofLine, hline]
  simp only [spanWord_append t.name_isWord.2 (startsBlank_flatMap t.slots hblank),
    takeWords_flatMap t.slots_isWord t.length_le hlength hblank, htrim, t.fillSlots_eq, hend]
  rfl

/-- Empty lines continue no tag. -/
theorem extend_of_empty (t : Tag) {more : List Text} (h : ∀ l ∈ more, l = []) :
    t.extend more = t := by
  have hmore : more.filter (!·.isEmpty) = [] :=
    List.filter_eq_nil_iff.2 fun l hl => by rw [h l hl]; decide
  rw [Tag.extend, List.filter_cons, hmore]
  split
  · rfl
  · rename_i hempty
    rw [Bool.not_eq_true', Bool.not_eq_false] at hempty
    have hnil : join " " [] = t.description := (List.isEmpty_iff.1 hempty).symm
    rw [hnil]

theorem isTagLine_text (t : WrittenTag) : isTagLine t.text = true := rfl

/-- Lines of tags up to an empty line give the tags, each on its line. -/
theorem readTags_tagLines (n : Nat) (ts : List WrittenTag) :
    readTags n (ts.map (·.text) ++ [[]]) = (ts.zipIdx n).map fun (t, k) => t.tag k := by
  induction ts generalizing n with
  | nil => rfl
  | cons t ts ih =>
      rw [List.map_cons, List.cons_append, readTags, if_pos (isTagLine_text t), ofLine_tagLine, ih,
        extend_of_empty, List.zipIdx_cons, List.map_cons]
      intro l hl
      cases ts with
      | nil => exact List.mem_singleton.1 hl
      | cons u ts => exact absurd hl List.not_mem_nil

/-! ## Paragraphs -/

theorem Paragraph.texts_ne_nil (p : Paragraph) : p.texts ≠ [] :=
  fun h => p.ne_nil (List.map_eq_nil_iff.1 h)

theorem Paragraph.ne_nil_of_mem_texts (p : Paragraph) : ∀ l ∈ p.texts, l ≠ [] :=
  List.forall_mem_map.2 fun l _ => l.ne_nil

theorem paragraphs_replicate (n : Nat) : paragraphs (List.replicate n []) = [] := by
  have := paragraphs_replicate_append n []
  rwa [List.append_nil] at this

theorem groups_ne_nil (ls : List Text) : groups ls ≠ [] := by
  cases ls with
  | nil => simp [groups]
  | cons l ls =>
      rw [groups]
      split
      · simp
      · split <;> simp

theorem groups_concat_nil (ls : List Text) : groups (ls ++ [[]]) = groups ls ++ [[]] := by
  induction ls with
  | nil => rfl
  | cons l ls ih =>
      rw [List.cons_append, groups, groups, ih]
      split
      · rfl
      · cases hgroups : groups ls with
        | nil => exact absurd hgroups (groups_ne_nil ls)
        | cons g gs => rfl

theorem paragraphs_concat_nil (ls : List Text) : paragraphs (ls ++ [[]]) = paragraphs ls := by
  rw [paragraphs, groups_concat_nil, List.filter_append]
  exact List.append_nil _

/-- Paragraphs are read back, with any number of empty lines after the last one. -/
theorem paragraphs_proseLines (ps : List Paragraph) (n : Nat) :
    paragraphs (proseLines ps ++ List.replicate n []) = ps.map (·.texts) := by
  rw [← paragraphs_concat_nil, List.append_assoc, ← List.replicate_succ']
  induction ps with
  | nil => exact paragraphs_replicate (n + 1)
  | cons p ps ih =>
      have hp := paragraphs_append p.texts_ne_nil p.ne_nil_of_mem_texts
      cases ps with
      | nil => rw [proseLines, List.replicate_succ, hp, paragraphs_replicate]; rfl
      | cons q ps => rw [proseLines, List.append_assoc, List.cons_append, hp, ih]; rfl

/-! ## Blocks -/

/-- The lines of a block: paragraphs, `gap` empty lines, and tags. -/
def blockLines (ps : List Paragraph) (gap : Nat) (ts : List WrittenTag) : List Text :=
  proseLines ps ++ List.replicate gap [] ++ ts.map (·.text)

theorem mem_proseLines {ps : List Paragraph} {l : Text} (h : l ∈ proseLines ps) :
    l = [] ∨ ∃ x : ProseLine, l = x.text := by
  have htexts : ∀ p : Paragraph, l ∈ p.texts → l = [] ∨ ∃ x : ProseLine, l = x.text := by
    intro p hp
    obtain ⟨x, _, hx⟩ := List.mem_map.1 hp
    exact Or.inr ⟨x, hx.symm⟩
  induction ps with
  | nil => exact absurd h List.not_mem_nil
  | cons p ps ih =>
      cases ps with
      | nil => exact htexts p h
      | cons q ps =>
          rcases List.mem_append.1 h with hp | hrest
          · exact htexts p hp
          · rcases List.mem_cons.1 hrest with hl | hrest
            · exact Or.inl hl
            · exact ih hrest

theorem getLast?_append_word {w : Text} (hw : IsWord w) (t : Text) :
    ∀ c ∈ (t ++ w).getLast?, isBlank c = false := by
  rw [List.getLast?_append_of_ne_nil _ hw.1]
  exact fun c hc => hw.2 c (List.mem_of_getLast? hc)

theorem WrittenTag.isTrimmed_text (t : WrittenTag) : IsTrimmed t.text := by
  refine ⟨forall_head?_cons (by decide), ?_⟩
  rw [WrittenTag.text, tagLine]
  split
  · rw [List.append_nil]
    -- the last slot stands at the end, or the name if there are no slots
    rcases List.eq_nil_or_concat t.slots with hslots | ⟨slots, w, hslots⟩
    · rw [hslots, List.flatMap_nil, List.append_nil]
      exact getLast?_append_word t.name_isWord ['@']
    · have hw : IsWord w := t.slots_isWord w (by simp [hslots])
      rw [hslots, List.concat_eq_append, List.flatMap_append, List.flatMap_singleton,
        ← List.append_assoc, List.append_cons]
      exact getLast?_append_word hw _
  · rename_i hne
    rw [List.append_cons, List.getLast?_append_of_ne_nil _ hne]
    exact t.isTrimmed.2

theorem IsWord.lf_not_mem {w : Text} (h : IsWord w) : '\n' ∉ w :=
  fun hmem => absurd (h.2 _ hmem) (by decide)

theorem WrittenTag.lf_not_mem_text (t : WrittenTag) : '\n' ∉ t.text := by
  have hslots : '\n' ∉ t.slots.flatMap (' ' :: ·) := by
    intro hmem
    obtain ⟨w, hw, hmem⟩ := List.mem_flatMap.1 hmem
    exact (t.slots_isWord w hw).lf_not_mem ((List.mem_cons.1 hmem).resolve_left (by decide))
  have hdescription : '\n' ∉ (if t.description = [] then [] else ' ' :: t.description) := by
    split
    · exact List.not_mem_nil
    · simp [t.lf_not_mem]
  rw [WrittenTag.text, tagLine]
  simp only [List.mem_append, List.mem_cons, not_or]
  exact ⟨⟨⟨by decide, t.name_isWord.lf_not_mem⟩, hslots⟩, hdescription⟩

theorem mem_blockLines {ps : List Paragraph} {gap : Nat} {ts : List WrittenTag} :
    ∀ l ∈ blockLines ps gap ts, IsTrimmed l ∧ '\n' ∉ l := by
  have hempty : IsTrimmed [] ∧ '\n' ∉ ([] : Text) := by
    refine ⟨⟨?_, ?_⟩, List.not_mem_nil⟩ <;> exact fun c hc => absurd hc (Option.not_mem_none c)
  intro l hl
  rw [blockLines, List.append_assoc, List.mem_append, List.mem_append] at hl
  rcases hl with hprose | hgap | htag
  · rcases mem_proseLines hprose with rfl | ⟨x, rfl⟩
    · exact hempty
    · exact ⟨x.isTrimmed, x.lf_not_mem⟩
  · rw [List.eq_of_mem_replicate hgap]
    exact hempty
  · obtain ⟨t, _, rfl⟩ := List.mem_map.1 htag
    exact ⟨t.isTrimmed_text, t.lf_not_mem_text⟩

/-- The lines in front of the tags start no tag. -/
theorem isTagLine_front {ps : List Paragraph} {gap : Nat} :
    ∀ l ∈ [] :: (proseLines ps ++ List.replicate gap []), isTagLine l = false := by
  intro l hl
  rw [List.mem_cons, List.mem_append] at hl
  rcases hl with rfl | hprose | hgap
  · rfl
  · rcases mem_proseLines hprose with rfl | ⟨x, rfl⟩
    · rfl
    · exact beq_false_of_ne x.head_ne
  · rw [List.eq_of_mem_replicate hgap]
    rfl

/-- The paragraphs in front of the tags are the description. -/
theorem descriptionParagraphs_block (ps : List Paragraph) (gap : Nat) (ts : List WrittenTag) :
    descriptionParagraphs ([] :: (blockLines ps gap ts ++ [[]])) =
      ps.map fun p => join "\n" p.texts := by
  have hfront : ∀ l ∈ [] :: (proseLines ps ++ List.replicate gap []), (!isTagLine l) = true :=
    fun l hl => by rw [isTagLine_front l hl]; rfl
  have hlines : paragraphs (descriptionLines ([] :: (blockLines ps gap ts ++ [[]]))) =
      ps.map (·.texts) := by
    rw [descriptionLines, blockLines, List.append_assoc, ← List.cons_append,
      List.takeWhile_append_of_pos hfront, List.cons_append, paragraphs_cons_nil]
    cases ts with
    | nil =>
        rw [List.map_nil, List.nil_append, List.takeWhile_cons_of_pos (by decide),
          List.takeWhile_nil, paragraphs_concat_nil, paragraphs_proseLines]
    | cons t ts =>
        rw [List.map_cons, List.cons_append, List.takeWhile_cons_of_neg (by simp [isTagLine_text]),
          List.append_nil, paragraphs_proseLines]
  rw [descriptionParagraphs, hlines, List.map_map]
  rfl

theorem readTags_block (ps : List Paragraph) (gap : Nat) (ts : List WrittenTag) (n : Nat) :
    readTags n ([] :: (blockLines ps gap ts ++ [[]])) =
      (ts.zipIdx (n + 1 + (proseLines ps).length + gap)).map fun (t, k) => t.tag k := by
  have hplace : n + ([] :: (proseLines ps ++ List.replicate gap [])).length =
      n + 1 + (proseLines ps).length + gap := by
    rw [List.length_cons, List.length_append, List.length_replicate]
    omega
  rw [blockLines, List.append_assoc, ← List.cons_append, readTags_append isTagLine_front,
    readTags_tagLines, hplace]

theorem chomp_marked {l : Text} (h : IsTrimmed l) : chomp (marked l ++ ['\n']) = marked l := by
  have hlast : ∀ c ∈ (marked l).getLast?, isBlank c = false := by
    unfold marked
    split
    · exact fun c hc => Option.some.inj hc ▸ rfl
    · rename_i hne
      rw [List.getLast?_append_of_ne_nil _ hne]
      exact h.2
  have hcr : dropSuffix? ['\r'] (marked l) = none := by
    refine Option.eq_none_iff_forall_not_mem.2 fun r hr => ?_
    have hblank := hlast '\r' (by rw [dropSuffix?_eq_some_iff.1 hr, List.getLast?_concat]; rfl)
    exact absurd hblank (by decide)
  rw [chomp, dropSuffix?_concat, if_pos rfl]
  simp only [hcr, Option.getD_none]

/-- The lines of a block, as they stand in the source. -/
theorem lines_render {content : List Text} (h : ∀ l ∈ content, IsTrimmed l ∧ '\n' ∉ l) :
    lines (render content) = "/**".toList :: content.map marked ++ [" */".toList] := by
  have hmiddle : ∀ l ∈ content.map marked, '\n' ∉ l :=
    List.forall_mem_map.2 fun l hl => lf_not_mem_marked (h l hl).2
  have hfirst : chomp ("/**" ++ ['\n']) = "/**".toList := by decide
  have hchomp : (content.map marked).map (fun l => chomp (l ++ ['\n'])) = content.map marked := by
    rw [List.map_map]
    exact List.map_congr_left fun l hl => chomp_marked (h l hl).1
  rw [render, lines_of_lines (by decide) hmiddle (by decide) (by decide), List.map_cons, hfirst,
    hchomp]

/-- The line of a tag stands where the tag is placed. -/
theorem lines_render_tag (ps : List Paragraph) (gap : Nat) {ts : List WrittenTag} {i : Nat}
    {t : WrittenTag} (ht : ts[i]? = some t) :
    (lines (render (blockLines ps gap ts)))[1 + (proseLines ps).length + gap + i]? =
      some (" * ".toList ++ t.text) := by
  have hne : t.text ≠ [] := List.cons_ne_nil _ _
  have hindex : 1 + (proseLines ps).length + gap + i =
      (proseLines ps ++ List.replicate gap []).length + i + 1 := by
    rw [List.length_append, List.length_replicate]
    omega
  have hline : (blockLines ps gap ts)[(proseLines ps ++ List.replicate gap []).length + i]? =
      some t.text := by
    rw [blockLines, List.getElem?_append_right (by omega), Nat.add_sub_cancel_left,
      List.getElem?_map, ht]
    rfl
  have hmarked := congrArg (Option.map marked) hline
  rw [← List.getElem?_map, Option.map_some, marked, if_neg hne] at hmarked
  rw [lines_render mem_blockLines, hindex, List.cons_append, List.getElem?_cons_succ]
  exact (List.getElem?_append_left (List.getElem?_eq_some_iff.1 hmarked).1).trans hmarked

/-- **A block reads back what was written.** The first paragraph is the short description, the
others are the long one, and the tags come in order, each on the line it stands on; the number of
empty lines in front of the tags does not matter. -/
theorem block_reads_back (ps : List Paragraph) (gap : Nat) (ts : List WrittenTag)
    (line offset index : Nat) :
    let raw := render (blockLines ps gap ts)
    let front := 1 + (proseLines ps).length + gap
    let d := ofToken ⟨⟨.docComment, raw⟩, line, offset⟩ index
    d.short = (ps.map fun p => join "\n" p.texts).headD [] ∧
      d.long = join "\n\n" (ps.map fun p => join "\n" p.texts).tail ∧
      d.tags = ((ts.zipIdx (line + front)).map fun (t, k) => t.tag k) ∧
      (∀ i t, ts[i]? = some t → (lines raw)[front + i]? = some (" * ".toList ++ t.text)) ∧
      d.isInline = false := by
  intro raw front d
  have hcontent : contentLines raw = [] :: (blockLines ps gap ts ++ [[]]) :=
    contentLines_render mem_blockLines
  have hinline : startsWith "/***" raw = false := startsWith_render (blockLines ps gap ts)
  have hlines : ∀ i t, ts[i]? = some t → (lines raw)[front + i]? = some (" * ".toList ++ t.text) :=
    fun i t ht => lines_render_tag ps gap ht
  have hparagraphs := descriptionParagraphs_block ps gap ts
  have htags := readTags_block ps gap ts line
  rw [← hcontent] at hparagraphs htags
  have hfront : line + 1 + (proseLines ps).length + gap = line + front := by omega
  rw [hfront] at htags
  have hd : d = read raw false line index := by
    rw [← hinline]
    rfl
  rw [hd]
  refine ⟨?_, ?_, htags, hlines, rfl⟩
  · rw [short_read, hparagraphs]
  · rw [long_read, hparagraphs]

/-- A paragraph of two lines and one of one line. -/
def writtenParagraphs : List Paragraph :=
  [⟨[⟨"Counts the lines.", by decide, by decide, by decide, by decide⟩,
      ⟨"Blank ones too.", by decide, by decide, by decide, by decide⟩], by simp⟩,
    ⟨[⟨"Stops at the end.", by decide, by decide, by decide, by decide⟩], by simp⟩]

/-- A tag with all its slots and a description, and one without a description. -/
def writtenTags : List WrittenTag :=
  [{ name := "param"
     slots := ["int|null", "$limit"]
     description := "how many at most"
     name_isWord := by decide
     slots_isWord := by simp only [List.forall_mem_cons]; decide
     length_le := by decide
     length_eq := by decide
     type_head := by
       rintro _ w ⟨⟩ c hc
       obtain rfl : 'i' = c := Option.some.inj hc
       decide
     isTrimmed := by decide
     lf_not_mem := by decide },
   { name := "return"
     slots := ["int"]
     description := []
     name_isWord := by decide
     slots_isWord := by simp only [List.forall_mem_cons]; decide
     length_le := by decide
     length_eq := by decide
     type_head := by
       rintro _ w ⟨⟩ c hc
       obtain rfl : 'i' = c := Option.some.inj hc
       decide
     isTrimmed := by decide
     lf_not_mem := by decide }]

/-- A block with two paragraphs and two tags. -/
theorem block_reads_back_written :
    let raw : Text := "/**\n * Counts the lines.\n * Blank ones too.\n *\n * Stops at the end.\n" ++
      " *\n * @param int|null $limit how many at most\n * @return int\n */"
    let d := ofToken ⟨⟨.docComment, raw⟩, 7, 90⟩ 4
    d.short = "Counts the lines.\nBlank ones too." ∧ d.long = "Stops at the end." ∧
      d.tags = [⟨"param", ["int|null", "$limit"], "how many at most", 13⟩,
        ⟨"return", ["int"], [], 14⟩] ∧ d.isInline = false := by
  intro raw d
  have hraw : render (blockLines writtenParagraphs 1 writtenTags) = raw := by decide +kernel
  obtain ⟨hshort, hlong, htags, _, hinline⟩ :=
    block_reads_back writtenParagraphs 1 writtenTags 7 90 4
  rw [hraw] at hshort hlong htags hinline
  exact ⟨hshort, hlong, htags, hinline⟩

/-- **An empty slot is not read back**: the next word takes its place. -/
theorem empty_slot_lost :
    let slots : List Text := [[]]
    (∀ w ∈ slots, ∀ c ∈ w, isBlank c = false) ∧ slots.length = Tag.arity "throws" ∧
      let raw := render [[], tagLine "throws" slots "Foo"]
      (ofToken ⟨⟨.docComment, raw⟩, 1, 0⟩ 0).tags = [⟨"throws", ["Foo"], [], 3⟩] := by
  intro slots
  refine ⟨List.forall_mem_singleton.2 fun _ hc => absurd hc List.not_mem_nil, ?_⟩
  decide +kernel

end DocBlock

end DocLint
