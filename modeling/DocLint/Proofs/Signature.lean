import DocLint.Proofs.Attachment
import DocLint.Proofs.Lexis
import DocLint.Proofs.Parameters
import DocLint.Rule.Signature
import Mathlib.Data.List.Forall2
import Mathlib.Data.List.TakeDrop

/-!
# Documented signatures

The rule on parameters compares two readings: the type of a parameter is put together from tokens,
and the type in a tag is a word of a line. For a function that is documented as it is declared both
give the same text, if all tokens of the type are kept and if the type is not the word that stands
for a missing one.

* `words_of_head`, `takeWords_trimStart`: the words of a line, one after another.
* `DocBlock.linesNamed`: the lines of a tag; `slotsNamed_eq`: the slots are words of them.
* `IsType`: types, token by token.
* `FunctionDecl.IsFaithful`: a function is documented as it is declared.
* `faithful_function_passes`: the rule finds nothing in such a function.
* `faithful_function_reported`: types that are named as the placeholder or lose a token.
-/

namespace DocLint

open Outline

/-! ## Words -/

namespace Text

theorem spanWord_eq (t : Text) :
    spanWord t = (t.takeWhile (fun c => !isBlank c), t.dropWhile fun c => !isBlank c) :=
  List.span_eq_takeWhile_dropWhile _ t

theorem wordsFrom_of_ne_nil {w : Text} (hw : w ≠ []) (t : Text) :
    wordsFrom w t = (w ++ (spanWord t).1) :: words (spanWord t).2 := by
  have hempty : w.isEmpty = false := List.isEmpty_eq_false_iff.2 hw
  induction t generalizing w with
  | nil => simp [wordsFrom, spanWord_eq, words, hempty]
  | cons c t ih =>
      cases hc : isBlank c with
      | true => simp [wordsFrom, spanWord_eq, words, hc, hempty]
      | false =>
          have hmore : w ++ [c] ≠ [] := by simp
          rw [wordsFrom, hc, if_neg (by decide), ih hmore (List.isEmpty_eq_false_iff.2 hmore)]
          simp [spanWord_eq, hc]

/-- A text that does not start with a blank starts with a word. -/
theorem words_of_head {c : Char} (hc : isBlank c = false) (t : Text) :
    words (c :: t) = (c :: (spanWord t).1) :: words (spanWord t).2 := by
  rw [words, wordsFrom, hc, if_neg (by decide), wordsFrom_of_ne_nil (by simp)]
  rfl

theorem words_trimStart (t : Text) : words (trimStart t) = words t := by
  induction t with
  | nil => rfl
  | cons c t ih =>
      cases hc : isBlank c with
      | true =>
          have hword : words (c :: t) = words t := by simp [words, wordsFrom, hc]
          have htrim : trimStart (c :: t) = trimStart t := by simp [trimStart, trimStartOf, hc]
          rw [hword, htrim, ih]
      | false =>
          have htrim : trimStart (c :: t) = c :: t := by simp [trimStart, trimStartOf, hc]
          rw [htrim]

theorem ne_nil_of_mem_words {t w : Text} (h : w ∈ words t) : w ≠ [] := by
  suffices ∀ v, w ∈ wordsFrom v t → w ≠ [] from this [] h
  clear h
  induction t with
  | nil =>
      intro v hw
      rw [wordsFrom] at hw
      split at hw
      · cases hw
      · rename_i hv
        rw [List.mem_singleton.1 hw]
        exact fun hnil => hv (List.isEmpty_iff.2 hnil)
  | cons c t ih =>
      intro v hw
      rw [wordsFrom] at hw
      split at hw
      · split at hw
        · exact ih [] hw
        · rename_i hv
          rcases List.mem_cons.1 hw with rfl | hw
          · exact fun hnil => hv (List.isEmpty_iff.2 hnil)
          · exact ih [] hw
      · exact ih _ hw

theorem isBlank_of_head?_trim {t : Text} {c : Char} (h : (trim t).head? = some c) :
    isBlank c = false := by
  -- what is cut at the end leaves the beginning as it is
  have hbegins : trim t <+: trimStart t := by
    refine List.reverse_suffix.1 ?_
    rw [trim, trimOf, trimEndOf, List.reverse_reverse]
    exact List.dropWhile_suffix _
  obtain ⟨r, hr⟩ := List.head?_eq_some_iff.1 h
  obtain ⟨more, hmore⟩ := hbegins
  have hhead := List.head?_dropWhile_not isBlank t
  rw [show t.dropWhile isBlank = c :: (r ++ more) by rw [← List.cons_append, ← hr, hmore]; rfl]
    at hhead
  exact hhead

/-- **The slots of a tag are words.** -/
theorem takeWords_trimStart (n : Nat) (t : Text) :
    (Tag.takeWords n (trimStart t)).1 = (words t).take n := by
  induction n generalizing t with
  | zero => rfl
  | succ n ih =>
      rw [← words_trimStart t, Tag.takeWords]
      cases htrim : trimStart t with
      | nil => rfl
      | cons c r =>
          have hc : isBlank c = false := by
            have hhead := List.head?_dropWhile_not isBlank t
            rw [show t.dropWhile isBlank = c :: r from htrim] at hhead
            exact hhead
          have hspan : spanWord (c :: r) = (c :: (spanWord r).1, (spanWord r).2) := by
            simp [spanWord_eq, hc]
          rw [if_neg (by simp), hspan, words_of_head hc, List.take_succ_cons, ← ih]

end Text

/-! ## Lines and tags -/

namespace DocBlock

open Text

/-- The line starts with a tag of the name. -/
def opensTag (name l : Text) : Bool := (words l).head? == some ('@' :: name)

/-- The lines of the block that start with a tag of the name. -/
def linesNamed (d : DocBlock) (name : Text) : List Text :=
  (contentLines d.raw).filter (opensTag name)

/-- The slots of a tag of the name, read off the words of its line. -/
def lineSlots (name l : Text) : List Text :=
  Tag.fillSlots name ((words l).tail.take (Tag.arity name))

/-- A content line does not start with a blank. -/
theorem isBlank_of_head?_contentLine {raw l : Text} {c : Char} (h : l ∈ contentLines raw)
    (hc : l.head? = some c) : isBlank c = false := by
  simp only [contentLines, List.mem_map] at h
  obtain ⟨p, _, rfl⟩ := h
  exact isBlank_of_head?_trim hc

/-- The tag on a line, in the words of the line. -/
theorem ofLine_eq (n : Nat) (t : Text) :
    (words ('@' :: t)).head? = some ('@' :: (Tag.ofLine n t).name) ∧
      (Tag.ofLine n t).slots = lineSlots (Tag.ofLine n t).name ('@' :: t) := by
  have hwords := words_of_head (show isBlank '@' = false by decide) t
  refine ⟨by rw [hwords]; rfl, ?_⟩
  rw [lineSlots, hwords, List.tail_cons, ← takeWords_trimStart]
  rfl

/-- The slots of the tags of a name, in the words of their lines. -/
theorem slots_readTags (n : Nat) {content : List Text} (name : Text)
    (h : ∀ l ∈ content, ∀ c, l.head? = some c → isBlank c = false) :
    ((readTags n content).filter (·.name == name)).map (·.slots) =
      (content.filter (opensTag name)).map (lineSlots name) := by
  induction content generalizing n with
  | nil => rfl
  | cons l content ih =>
      obtain ⟨hl, hcontent⟩ := List.forall_mem_cons.1 h
      rw [readTags]
      cases htag : isTagLine l with
      | true =>
          obtain ⟨t, rfl⟩ : ∃ t, l = '@' :: t := List.head?_eq_some_iff.1 (beq_iff_eq.1 htag)
          obtain ⟨hword, hslots⟩ := ofLine_eq n t
          have hopens : opensTag name ('@' :: t) = ((Tag.ofLine n t).name == name) := by
            rw [opensTag, hword]
            simp
          rw [if_pos rfl, List.filter_cons, List.filter_cons, hopens]
          show List.map _ (if ((Tag.ofLine n t).name == name) = true then _ else _) = _
          split
          · rename_i hname
            rw [List.map_cons, List.map_cons, ih (n + 1) hcontent, ← beq_iff_eq.1 hname, ← hslots]
            rfl
          · exact ih (n + 1) hcontent
      | false =>
          -- a line that starts with no `@` has another first word
          have hopens : opensTag name l = false := by
            cases l with
            | nil => rfl
            | cons c t =>
                have hc : c ≠ '@' := fun hc => by
                  rw [hc] at htag
                  cases htag
                rw [opensTag, words_of_head (hl c rfl)]
                simp [hc]
          rw [if_neg (by decide), ih (n + 1) hcontent,
            List.filter_cons_of_neg (Bool.eq_false_iff.1 hopens)]

/-- **The slots of the tags of a name are words of their lines.** -/
theorem slotsNamed_eq {d : DocBlock} {ts : List Token} (hd : d.IsOf ts) (name : Text) :
    d.slotsNamed name = (d.linesNamed name).map (lineSlots name) := by
  obtain ⟨t, _, hd⟩ := hd
  have hraw : d.raw = t.text := by rw [hd]; rfl
  have htags : d.tags = readTags t.line (contentLines t.text) := by rw [hd]; rfl
  rw [slotsNamed, tagsNamed, linesNamed, htags, hraw]
  exact slots_readTags t.line name fun l hl c => isBlank_of_head?_contentLine hl

end DocBlock

/-! ## Types -/

/-- Types, token by token: a name of one or more parts, a type that may be missing, a union or an
intersection of types, and a type in parentheses. -/
inductive IsType : List Token → Prop where
  | named {us : List Token} (nonempty : us ≠ [])
      (parts : ∀ t ∈ us, t.kind = .name ∨ t.kind = .keyword ∨ t.isPunct "\\" = true) : IsType us
  | nullable {mark : Token} {us : List Token} (isMark : mark.isPunct "?" = true)
      (inner : IsType us) : IsType (mark :: us)
  | joined {mark : Token} {us vs : List Token} (left : IsType us)
      (isMark : mark.isPunct "|" = true ∨ mark.isPunct "&" = true) (right : IsType vs) :
      IsType (us ++ mark :: vs)
  | grouped {o c : Token} {us : List Token} (opens : o.toLexeme = ⟨.openParen, "("⟩)
      (inner : IsType us) (closes : c.toLexeme = ⟨.closeParen, ")"⟩) : IsType (o :: (us ++ [c]))

theorem isType_single {t : Token} (h : t.kind = .name) : IsType [t] :=
  .named (List.cons_ne_nil t []) (List.forall_mem_singleton.2 (Or.inl h))

/-- The marks of types. -/
def typeMarks : List Text := ["\\", "?", "|", "&", "(", ")"]

theorem IsType.word_or_mark {us : List Token} (h : IsType us) :
    ∀ t ∈ us, (t.kind = .name ∨ t.kind = .keyword) ∨ t.text ∈ typeMarks := by
  have punct : ∀ {t : Token} {s : Text}, s ∈ typeMarks → t.isPunct s = true →
      (t.kind = .name ∨ t.kind = .keyword) ∨ t.text ∈ typeMarks := by
    intro t s hs ht
    rw [Token.isPunct, Bool.and_eq_true, beq_iff_eq, beq_iff_eq] at ht
    exact Or.inr (ht.2 ▸ hs)
  induction h with
  | named nonempty parts =>
      intro t ht
      rcases parts t ht with h | h | h
      · exact Or.inl (Or.inl h)
      · exact Or.inl (Or.inr h)
      · exact punct (by decide) h
  | nullable isMark inner ih =>
      exact List.forall_mem_cons.2 ⟨punct (by decide) isMark, ih⟩
  | joined left isMark right ihLeft ihRight =>
      refine List.forall_mem_append.2 ⟨ihLeft, List.forall_mem_cons.2 ⟨?_, ihRight⟩⟩
      exact isMark.elim (punct (by decide)) (punct (by decide))
  | grouped opens inner closes ih =>
      refine List.forall_mem_cons.2 ⟨Or.inr ?_, List.forall_mem_append.2 ⟨ih, ?_⟩⟩
      · rw [opens]
        decide
      · refine List.forall_mem_singleton.2 (Or.inr ?_)
        rw [closes]
        decide

/-- A type has no dots. -/
theorem IsType.not_dots {us : List Token} (h : IsType us) : us.any (·.isPunct "...") = false := by
  refine List.any_eq_false.2 fun t ht hdots => ?_
  rw [Token.isPunct, Bool.and_eq_true, beq_iff_eq, beq_iff_eq] at hdots
  rcases h.word_or_mark t ht with (hk | hk) | hmark
  · rw [hk] at hdots
    cases hdots.1
  · rw [hk] at hdots
    cases hdots.1
  · rw [hdots.2] at hmark
    revert hmark
    decide

/-- A type has no dollar sign. -/
theorem IsType.not_mem_textOf {source : Text} {us : List Token} (h : IsType us)
    (hus : ∀ t ∈ us, t ∈ Token.tokenize source) : '$' ∉ Token.textOf us := by
  intro hmem
  obtain ⟨text, htext, hc⟩ := List.mem_flatten.1 hmem
  obtain ⟨t, ht, rfl⟩ := List.mem_map.1 htext
  rcases h.word_or_mark t ht with hword | hmark
  · obtain ⟨before, after, htokens⟩ := List.append_of_mem (hus t ht)
    have := (Token.word_of_kind htokens hword).1.chars '$' hc
    revert this
    decide
  · revert hc
    have hmarks : ∀ s ∈ typeMarks, '$' ∉ s := by decide
    exact hmarks t.text hmark

/-! ## The rule -/

/-- The name of the parameter in a tag. -/
def WrittenParameter.label (p : WrittenParameter) : Text :=
  if p.dots.isSome then "..." ++ p.name.text else p.name.text

/-- The word gives a type: it does not start as a variable does, and it is not the placeholder. -/
def Tag.IsTypeWord (w : Text) : Prop :=
  w.head? ∉ [some '$', some '&', some '.'] ∧ w ≠ Tag.typePlaceholder

/-- The function is documented as it is declared: the block has one line for each parameter, with
the type as written and the name, and every returned value has a type. -/
structure FunctionDecl.IsFaithful (ts : List Token) (g : FunctionDecl) (ps : List WrittenParameter)
    (d : DocBlock) : Prop where
  lists : g.Lists ts ps
  typed : ∀ p ∈ ps, IsType p.type
  attached : g.doc = some d
  params : List.Forall₂
    (fun l p => ["@param".toList, Token.textOf p.type, p.label] <+: Text.words l)
    (d.linesNamed "param") ps
  returns : ∀ l ∈ d.linesNamed "return", ∃ w, ["@return".toList, w] <+: Text.words l ∧
    Tag.IsTypeWord w

namespace Tag

theorem isVariableWord_of_not_mem {w : Text} (h : '$' ∉ w) : isVariableWord w = false := by
  refine Bool.eq_false_iff.2 fun hword => h ?_
  rw [isVariableWord, beq_iff_eq] at hword
  exact (List.dropWhile_suffix _).mem (List.mem_of_mem_head? hword)

theorem IsTypeWord.isVariableWord_eq {w : Text} (h : IsTypeWord w) : isVariableWord w = false := by
  cases w with
  | nil => rfl
  | cons c w =>
      obtain ⟨hdollar, hamp, hdot⟩ : c ≠ '$' ∧ c ≠ '&' ∧ c ≠ '.' := by
        have := h.1
        simpa using this
      simp [isVariableWord, Text.trimStartOf, hdollar, hamp, hdot]

theorem fillSlots_cons {w : Text} (h : isVariableWord w = false) (name : Text) (ws : List Text) :
    fillSlots name (w :: ws) = w :: ws := by
  simp [fillSlots, h]

end Tag

namespace Rule

/-- **The two readings of a type agree.** -/
theorem slotsMatch_of_line {p : WrittenParameter} {l : Text} (typed : IsType p.type)
    (kept : ∀ t ∈ p.type, t.isModifier = false ∧ t.isPunct "&" = false)
    (dollar : '$' ∉ Token.textOf p.type) (named : Token.textOf p.type ≠ Tag.typePlaceholder)
    (line : ["@param".toList, Token.textOf p.type, p.label] <+: Text.words l) :
    slotsMatch (DocBlock.lineSlots "param" l) p.parameter = true := by
  obtain ⟨ws, hws⟩ := line
  have hslots : DocBlock.lineSlots "param" l = [Token.textOf p.type, p.label] := by
    rw [DocBlock.lineSlots, ← hws]
    exact Tag.fillSlots_cons (Tag.isVariableWord_of_not_mem dollar) _ _
  have hhint : p.parameter.typeHint = Token.textOf p.type := by
    show Token.textOf (p.type.filter WrittenParameter.isKept) = _
    rw [List.filter_eq_self.2 fun t ht => ?_]
    have hdots := List.any_eq_false.1 typed.not_dots t ht
    rw [WrittenParameter.isKept, (kept t ht).1, (kept t ht).2, Bool.eq_false_iff.2 hdots]
    rfl
  have hname : p.parameter.name = p.label := by
    show (if p.isVariadic = true then _ else _) = _
    rw [WrittenParameter.isVariadic, typed.not_dots, Bool.or_false]
    rfl
  rw [hslots, slotsMatch, hhint, hname]
  simp [named]

theorem givesType_of_line {l w : Text} (line : ["@return".toList, w] <+: Text.words l)
    (word : Tag.IsTypeWord w) : givesType (DocBlock.lineSlots "return" l) = true := by
  have nonempty : w ≠ [] := Text.ne_nil_of_mem_words (line.mem (by simp))
  obtain ⟨ws, hws⟩ := line
  have hslots : DocBlock.lineSlots "return" l = [w] := by
    rw [DocBlock.lineSlots, ← hws]
    exact Tag.fillSlots_cons word.isVariableWord_eq _ _
  rw [hslots]
  simp [givesType, nonempty, word.2]

/-- The declared types are kept as written, and none is the placeholder. -/
def KeepsTypes (ps : List WrittenParameter) : Prop :=
  ∀ p ∈ ps, Token.textOf p.type ≠ Tag.typePlaceholder ∧
    ∀ t ∈ p.type, t.isModifier = false ∧ t.isPunct "&" = false

instance (ps : List WrittenParameter) : Decidable (KeepsTypes ps) :=
  inferInstanceAs (Decidable (∀ p ∈ ps, _ ∧ ∀ t ∈ p.type, _ ∧ _))

/-- **The block of a function that is documented as it is declared matches its parameters.** -/
theorem signatureMatches_of_faithful {source : Text} {g : FunctionDecl}
    {ps : List WrittenParameter} {d : DocBlock}
    (hg : .function g ∈ (ofTokens (Token.tokenize source)).declarations)
    (h : g.IsFaithful (Token.tokenize source) ps d) (keeps : KeepsTypes ps) :
    signatureMatches d g.parameters = true := by
  have hd : d.IsOf (Token.tokenize source) := Pass.isOf_doc hg h.attached
  have hmatch : ∀ l p, (l, p) ∈ (d.linesNamed "param").zip ps →
      slotsMatch (DocBlock.lineSlots "param" l) p.parameter = true := by
    intro l p hlp
    have hp := (List.of_mem_zip hlp).2
    have hdollar : '$' ∉ Token.textOf p.type :=
      (h.typed p hp).not_mem_textOf fun t ht => h.lists.mem_of_mem_type hp ht
    exact slotsMatch_of_line (h.typed p hp) (keeps p hp).2 hdollar (keeps p hp).1
      ((List.forall₂_iff_zip.1 h.params).2 hlp)
  rw [signatureMatches, DocBlock.slotsNamed_eq hd, DocBlock.slotsNamed_eq hd,
    Pass.parameters_eq hg h.lists]
  simp only [Bool.and_eq_true, beq_iff_eq, List.length_map, List.all_eq_true]
  refine ⟨⟨h.params.length_eq, ?_⟩, ?_⟩
  · rw [List.zip_map, List.forall_mem_map]
    exact fun lp hlp => hmatch lp.1 lp.2 hlp
  · rw [List.forall_mem_map]
    intro l hl
    obtain ⟨w, hw, hword⟩ := h.returns l hl
    exact givesType_of_line hw hword

end Rule

/-- The file without one of its declarations. -/
def SourceFile.without (f : SourceFile) (d : Declaration) : SourceFile :=
  { f with outline := { f.outline with declarations := f.outline.declarations.filter (· ≠ d) } }

theorem SourceFile.functions_without (f : SourceFile) (g : FunctionDecl) :
    (f.without (.function g)).outline.functions = f.outline.functions.filter (· ≠ g) := by
  show (f.outline.declarations.filter _).filterMap _ = (f.outline.declarations.filterMap _).filter _
  rw [List.filterMap_filter, List.filter_filterMap]
  refine List.filterMap_congr fun d _ => ?_
  cases d <;> simp [Declaration.function?, Option.filter]

/-- **A function that is documented as it is declared passes**, if its types are kept as written and
none is named as the placeholder: the rule on parameters finds what it finds in the file without the
function. -/
theorem faithful_function_passes (path source : Text) :
    let f := SourceFile.parse path source
    ∀ g ∈ f.outline.functions, ∀ ps d, g.IsFaithful f.tokens ps d → Rule.KeepsTypes ps →
      Rule.functionParameters.findings (f.without (.function g)) =
        Rule.functionParameters.findings f := by
  intro f g hg ps d hfaithful keeps
  have hmatch := Rule.signatureMatches_of_faithful (mem_functions.1 hg) hfaithful keeps
  show List.filterMap _ (f.without (.function g)).outline.functions = _
  rw [SourceFile.functions_without, List.filterMap_filter]
  refine List.filterMap_congr fun e _ => ?_
  by_cases he : e = g
  · rw [he, hfaithful.attached]
    simp [Option.filter, hmatch]
  · simp [he]

/-- A file with one function, read off its tokens and its block. -/
theorem exists_isFaithful (source raw : Text) {first : Nat} {word name opening closing : Token}
    {body rest : List Token} {ps : List WrittenParameter}
    (read : (SourceFile.parse "a.php" source).outline.functions.map
      (fun g => (g.span.first, g.doc.map (·.raw))) = [(first, some raw)])
    (written : significant ((SourceFile.parse "a.php" source).tokens.drop first) =
      word :: name :: opening :: (body ++ closing :: rest))
    (kinds : name.kind = .name ∧ opening.kind = .openParen ∧ closing.kind = .closeParen)
    (list : ParameterList ps body) (typed : ∀ p ∈ ps, IsType p.type)
    (params : List.Forall₂
      (fun l p => ["@param".toList, Token.textOf p.type, p.label] <+: Text.words l)
      ((DocBlock.contentLines raw).filter (DocBlock.opensTag "param")) ps)
    (returns : ∀ l ∈ (DocBlock.contentLines raw).filter (DocBlock.opensTag "return"),
      ∃ w, ["@return".toList, w] <+: Text.words l ∧ Tag.IsTypeWord w) :
    ∃ g d, (SourceFile.parse "a.php" source).outline.functions = [g] ∧
      g.IsFaithful (SourceFile.parse "a.php" source).tokens ps d := by
  obtain ⟨g, hg, hread⟩ := List.map_eq_singleton_iff.1 read
  obtain ⟨rfl, hraw⟩ := Prod.mk.inj hread
  obtain ⟨d, hd, rfl⟩ := Option.map_eq_some_iff.1 hraw
  refine ⟨g, d, hg, ?_, typed, hd, params, returns⟩
  exact .head word name opening closing [] body rest written (Or.inl rfl) (Or.inl kinds.1) kinds.2.1
    kinds.2.2 list

/-- Two parameters, with a default value and with dots, and a returned value. -/
theorem faithful_function_passes_two :
    let source : Text := "<?php /**\n@param ?Foo\\Bar $a The one.\n@param (A|B) ...$b\n" ++
      "@return int */ function f(?Foo\\Bar $a = null, (A|B) ...$b) ;"
    let f := SourceFile.parse "a.php" source
    ∃ g ∈ f.outline.functions, ∃ ps d, g.IsFaithful f.tokens ps d ∧ Rule.KeepsTypes ps ∧
      ps.map (·.label) = ["$a".toList, "...$b"] ∧
      Rule.functionParameters.findings (f.without (.function g)) =
        Rule.functionParameters.findings f := by
  intro source f
  let raw : Text := "/**\n@param ?Foo\\Bar $a The one.\n@param (A|B) ...$b\n@return int */"
  let a : WrittenParameter := {
    type := [⟨⟨.punct, "?"⟩, 4, 83⟩, ⟨⟨.name, "Foo"⟩, 4, 84⟩, ⟨⟨.punct, "\\"⟩, 4, 87⟩,
      ⟨⟨.name, "Bar"⟩, 4, 88⟩]
    name := ⟨⟨.dollarName, "$a"⟩, 4, 92⟩
    tail := [⟨⟨.punct, "="⟩, 4, 95⟩, ⟨⟨.name, "null"⟩, 4, 97⟩] }
  let b : WrittenParameter := {
    type := [⟨⟨.openParen, "("⟩, 4, 103⟩, ⟨⟨.name, "A"⟩, 4, 104⟩, ⟨⟨.punct, "|"⟩, 4, 105⟩,
      ⟨⟨.name, "B"⟩, 4, 106⟩, ⟨⟨.closeParen, ")"⟩, 4, 107⟩]
    dots := some ⟨⟨.punct, "..."⟩, 4, 109⟩
    name := ⟨⟨.dollarName, "$b"⟩, 4, 112⟩ }
  obtain ⟨read, written⟩ :
      f.outline.functions.map (fun g => (g.span.first, g.doc.map (·.raw))) = [(4, some raw)] ∧
        significant (f.tokens.drop 4) =
          ⟨⟨.keyword, "function"⟩, 4, 72⟩ :: ⟨⟨.name, "f"⟩, 4, 81⟩ :: ⟨⟨.openParen, "("⟩, 4, 82⟩ ::
            ((a.tokens ++ ⟨⟨.comma, ","⟩, 4, 101⟩ :: b.tokens) ++
              ⟨⟨.closeParen, ")"⟩, 4, 114⟩ :: [⟨⟨.semicolon, ";"⟩, 4, 116⟩]) := by decide +kernel
  obtain ⟨params, returns⟩ :
      (DocBlock.contentLines raw).filter (DocBlock.opensTag "param") =
          ["@param ?Foo\\Bar $a The one.".toList, "@param (A|B) ...$b"] ∧
        (DocBlock.contentLines raw).filter (DocBlock.opensTag "return") =
          ["@return int".toList] := by decide +kernel
  have typed : ∀ p ∈ [a, b], IsType p.type := by
    refine List.forall_mem_cons.2 ⟨?_, List.forall_mem_singleton.2 ?_⟩
    · exact .nullable (by decide) (.named (List.cons_ne_nil _ _) (by decide))
    · exact .grouped rfl (.joined (isType_single rfl) (Or.inl rfl) (isType_single rfl)) rfl
  obtain ⟨g, d, hg, hfaithful⟩ : ∃ g d, f.outline.functions = [g] ∧
      g.IsFaithful f.tokens [a, b] d := by
    refine exists_isFaithful source raw read written ⟨rfl, rfl, rfl⟩
      (.listed (.cons a rfl (.single b))) typed ?_ ?_
    · rw [params]
      exact .cons (by decide +kernel) (.cons (by decide +kernel) .nil)
    · rw [returns]
      exact List.forall_mem_singleton.2 ⟨"int", by decide +kernel, by decide, by decide⟩
  have hmem : g ∈ f.outline.functions := hg ▸ List.mem_singleton_self g
  have keeps : Rule.KeepsTypes [a, b] := by decide
  exact ⟨g, hmem, [a, b], d, hfaithful, keeps, by decide,
    faithful_function_passes "a.php" _ g hmem _ _ hfaithful keeps⟩

/-- The rule finds something in a function that is documented as it is declared. -/
def ReportsFaithful (source : Text) : Prop :=
  let f := SourceFile.parse "a.php" source
  ∃ g ∈ f.outline.functions, ∃ ps d, g.IsFaithful f.tokens ps d ∧
    Rule.functionParameters.findings (f.without (.function g)) ≠
      Rule.functionParameters.findings f

theorem reportsFaithful_of_single (source raw l : Text) {first : Nat}
    {word name opening closing : Token} {rest : List Token} {p : WrittenParameter}
    (read : let f := SourceFile.parse "a.php" source
      f.outline.functions.map (fun g => (g.span.first, g.doc.map (·.raw))) = [(first, some raw)] ∧
        significant (f.tokens.drop first) =
          word :: name :: opening :: (p.tokens ++ closing :: rest) ∧
        Rule.functionParameters.findings f ≠ [])
    (kinds : name.kind = .name ∧ opening.kind = .openParen ∧ closing.kind = .closeParen)
    (typed : IsType p.type)
    (lines : (DocBlock.contentLines raw).filter (DocBlock.opensTag "param") = [l] ∧
      (DocBlock.contentLines raw).filter (DocBlock.opensTag "return") = [] ∧
      ["@param".toList, Token.textOf p.type, p.label] <+: Text.words l) :
    ReportsFaithful source := by
  obtain ⟨hfunctions, written, found⟩ := read
  obtain ⟨params, returns, line⟩ := lines
  obtain ⟨g, d, hg, hfaithful⟩ := exists_isFaithful source raw hfunctions written kinds
    (.listed (.single p)) (List.forall_mem_singleton.2 typed)
    (by rw [params]; exact .cons line .nil)
    (by rw [returns]; exact fun l hl => absurd hl List.not_mem_nil)
  refine ⟨g, hg ▸ List.mem_singleton_self g, [p], d, hfaithful, fun heq => found ?_⟩
  -- without its only function the file has nothing that the rule looks at
  rw [← heq]
  show List.filterMap _
    ((SourceFile.parse "a.php" source).without (.function g)).outline.functions = _
  rw [SourceFile.functions_without, hg, List.filter_cons_of_neg (by simp)]
  rfl

/-- **A function that is documented as it is declared is reported** if its type is named as the
placeholder, and if a token of its type is not kept. -/
theorem faithful_function_reported :
    ReportsFaithful "<?php /** @param type $x */ function f(type $x) ;" ∧
      ReportsFaithful "<?php /** @param A&B $x */ function f(A&B $x) ;" ∧
      ReportsFaithful "<?php /** @param B\\Final $x */ function f(B\\Final $x) ;" := by
  refine ⟨?_, ?_, ?_⟩
  · refine reportsFaithful_of_single _ "/** @param type $x */" "@param type $x"
      (p := {
        type := [⟨⟨.name, "type"⟩, 1, 39⟩]
        name := ⟨⟨.dollarName, "$x"⟩, 1, 44⟩ })
      (show _ = [(4, _)] ∧ _ = ⟨⟨.keyword, "function"⟩, 1, 28⟩ :: ⟨⟨.name, "f"⟩, 1, 37⟩ ::
        ⟨⟨.openParen, "("⟩, 1, 38⟩ :: (_ ++ ⟨⟨.closeParen, ")"⟩, 1, 46⟩ ::
          [⟨⟨.semicolon, ";"⟩, 1, 48⟩]) ∧ _ by decide +kernel)
      ⟨rfl, rfl, rfl⟩ ?_ (by decide +kernel)
    exact isType_single rfl
  · refine reportsFaithful_of_single _ "/** @param A&B $x */" "@param A&B $x"
      (p := {
        type := [⟨⟨.name, "A"⟩, 1, 38⟩, ⟨⟨.punct, "&"⟩, 1, 39⟩, ⟨⟨.name, "B"⟩, 1, 40⟩]
        name := ⟨⟨.dollarName, "$x"⟩, 1, 42⟩ })
      (show _ = [(4, _)] ∧ _ = ⟨⟨.keyword, "function"⟩, 1, 27⟩ :: ⟨⟨.name, "f"⟩, 1, 36⟩ ::
        ⟨⟨.openParen, "("⟩, 1, 37⟩ :: (_ ++ ⟨⟨.closeParen, ")"⟩, 1, 44⟩ ::
          [⟨⟨.semicolon, ";"⟩, 1, 46⟩]) ∧ _ by decide +kernel)
      ⟨rfl, rfl, rfl⟩ ?_ (by decide +kernel)
    exact .joined (isType_single rfl) (Or.inr rfl) (isType_single rfl)
  · refine reportsFaithful_of_single _ "/** @param B\\Final $x */" "@param B\\Final $x"
      (p := {
        type := [⟨⟨.name, "B"⟩, 1, 42⟩, ⟨⟨.punct, "\\"⟩, 1, 43⟩, ⟨⟨.keyword, "Final"⟩, 1, 44⟩]
        name := ⟨⟨.dollarName, "$x"⟩, 1, 50⟩ })
      (show _ = [(4, _)] ∧ _ = ⟨⟨.keyword, "function"⟩, 1, 31⟩ :: ⟨⟨.name, "f"⟩, 1, 40⟩ ::
        ⟨⟨.openParen, "("⟩, 1, 41⟩ :: (_ ++ ⟨⟨.closeParen, ")"⟩, 1, 52⟩ ::
          [⟨⟨.semicolon, ";"⟩, 1, 54⟩]) ∧ _ by decide +kernel)
      ⟨rfl, rfl, rfl⟩ ?_ (by decide +kernel)
    exact .named (List.cons_ne_nil _ _) (by decide)

end DocLint
