import DocLint.Proofs.LineBreakLexer
import DocLint.Proofs.Location
import DocLint.Proofs.Reword
import Mathlib.Data.List.TakeDrop

/-!
# Line endings

A file whose lines end with a line feed, and the same file whose lines end with a carriage return and
a line feed: the tokens stand on the same lines, the same is declared and documented, and every check
reports the same problems.

* `ofToken_crlf`: documentation is read line by line, so that only its raw text changes.
* `outline_crlf`: the outline is the same, with longer line breaks in the raw text of documentation
  and in what is copied from literals.
* `columnNumber_crlf`: columns are the same.
* `findings_crlf`: so is what every built-in rule finds.
* `line_endings_agree`: the two files as a whole.

A type that is copied from a literal keeps its line break as it is written, so the types of parameters
are compared with longer line breaks (`parameters_ne_crlf`).
-/

namespace DocLint

open Text Token

/-! ## Documentation -/

theorem ofToken_crlf {t : Token} (h : '\r' ∉ t.text) (i : Nat) :
    DocBlock.ofToken (crlfOnLine t) i = (DocBlock.ofToken t i).reword crlf := by
  have hcontent : DocBlock.contentLines (crlf t.text) = DocBlock.contentLines t.text := by
    unfold DocBlock.contentLines
    rw [lines_crlf h]
  have hmark : Plain (DocBlock.inlineMark t.kind) := by
    unfold DocBlock.inlineMark
    split <;> decide
  have hinline : startsWith (DocBlock.inlineMark t.kind) (crlf t.text) =
      startsWith (DocBlock.inlineMark t.kind) t.text := startsWith_crlf hmark t.text
  show DocBlock.read (crlf t.text) (startsWith (DocBlock.inlineMark t.kind) (crlf t.text)) t.line i =
    (DocBlock.read t.text (startsWith (DocBlock.inlineMark t.kind) t.text) t.line i).reword crlf
  unfold DocBlock.read
  rw [hinline, hcontent]
  rfl

theorem lineOf_reword {d : DocBlock} (h : '\r' ∉ d.raw) (mark : Text) :
    (d.reword crlf).lineOf mark = d.lineOf mark := by
  unfold DocBlock.lineOf
  show d.line + ((lines (crlf d.raw)).findIdx? _).getD 0 = _
  rw [lines_crlf h]

/-- Words hold no line break. -/
theorem not_mem_takeWords {n : Nat} {t w : Text} (h : w ∈ (Tag.takeWords n t).1) : '\n' ∉ w := by
  induction n generalizing t with
  | zero => cases h
  | succ n ih =>
      rw [Tag.takeWords] at h
      split at h
      · cases h
      · rcases List.mem_cons.1 h with rfl | h
        · intro hmem
          have hword : (spanWord t).1 = t.takeWhile fun c => !isBlank c := by
            rw [spanWord, List.span_eq_takeWhile_dropWhile]
          rw [hword] at hmem
          exact absurd (List.mem_takeWhile_imp hmem) (by decide)
        · exact ih h

theorem not_mem_slots_ofLine {n : Nat} {t s : Text} (h : s ∈ (Tag.ofLine n t).slots) :
    '\n' ∉ s := by
  have hslots : (Tag.ofLine n t).slots = Tag.fillSlots (spanWord t).1
      (Tag.takeWords (Tag.arity (spanWord t).1) (trimStart (spanWord t).2)).1 := rfl
  rw [hslots, Tag.fillSlots] at h
  split at h
  · rcases List.mem_cons.1 h with rfl | h
    · decide
    · exact not_mem_takeWords h
  · exact not_mem_takeWords h

theorem not_mem_slots_readTags {n : Nat} {content : List Text} {tag : Tag}
    (htag : tag ∈ DocBlock.readTags n content) : ∀ s ∈ tag.slots, '\n' ∉ s := by
  induction content generalizing n with
  | nil => cases htag
  | cons l ls ih =>
      rw [DocBlock.readTags] at htag
      split at htag
      · rcases List.mem_cons.1 htag with rfl | htag
        · exact fun s hs => not_mem_slots_ofLine (n := n) hs
        · exact ih htag
      · exact ih htag

/-! ## The outline -/

theorem rewording_crlf : Outline.Rewording crlf where
  nil := rfl
  append := crlf_append
  unquote l := by
    cases l with
    | nil => rfl
    | cons q t =>
        by_cases hq : q = '\n'
        · subst hq
          rfl
        · rw [crlf_cons hq, Outline.unquote?, Outline.unquote?, dropSuffix?_crlf hq]
          split <;> rfl

section Source

variable {path source : Text}

theorem not_mem_text (h : '\r' ∉ source) {t : Token} (ht : t ∈ tokenize source) :
    '\r' ∉ t.text := by
  intro hr
  refine h ?_
  rw [← textOf_tokenize source]
  exact List.mem_flatten_of_mem (List.mem_map_of_mem ht) hr

theorem alike_crlf (h : '\r' ∉ source) :
    ∀ t ∈ tokenize source, Outline.Alike crlf t (crlfOnLine t) := by
  intro t ht
  refine ⟨rfl, rfl, fun hkind => ?_, ?_, fun _ i => ofToken_crlf (not_mem_text h ht) i⟩
  · have hl : t.toLexeme ∈ lexemes (startMode source) source := by
      rw [← map_toLexeme_place 1 0 (lexemes (startMode source) source)]
      exact List.mem_map_of_mem ht
    refine crlf_eq_self (not_mem_text_of_isWord hl ?_)
    rcases hkind with hk | hk | hk | hk <;> rw [hk] <;> rfl
  · unfold Token.isDoc
    show (t.kind == _ || (t.kind == _ && startsWith "///" (crlf t.text))) = _
    rw [startsWith_crlf (by decide)]

/-- **The outline is the same, with longer line breaks in copied text.** -/
theorem outline_crlf (h : '\r' ∉ source) :
    (SourceFile.parse path (crlf source)).outline =
      (SourceFile.parse path source).outline.reword crlf := by
  have hoffset : ∀ t ∈ tokenize (crlf source), Outline.Alike id t (onLine t) :=
    fun t _ => ⟨rfl, rfl, fun _ => rfl, rfl, fun _ _ => rfl⟩
  calc Outline.ofTokens (tokenize (crlf source))
      = Outline.ofTokens ((tokenize (crlf source)).map onLine) := by
        rw [Outline.ofTokens_map Outline.rewording_id hoffset, Outline.reword_id]
    _ = Outline.ofTokens ((tokenize source).map crlfOnLine) := by rw [tokenize_crlf h]
    _ = (Outline.ofTokens (tokenize source)).reword crlf :=
        Outline.ofTokens_map rewording_crlf (alike_crlf h)

theorem fileDoc_crlf (h : '\r' ∉ source) :
    (SourceFile.parse path (crlf source)).outline.fileDoc =
      (SourceFile.parse path source).outline.fileDoc.map (·.reword crlf) := by
  rw [outline_crlf h]
  rfl

theorem docs_crlf (h : '\r' ∉ source) :
    (SourceFile.parse path (crlf source)).outline.docs =
      (SourceFile.parse path source).outline.docs.map (·.reword crlf) := by
  rw [outline_crlf h]
  rfl

theorem classes_crlf (h : '\r' ∉ source) :
    (SourceFile.parse path (crlf source)).outline.classes =
      (SourceFile.parse path source).outline.classes.map (·.reword crlf) := by
  rw [outline_crlf h, Outline.classes_reword]

theorem functions_crlf (h : '\r' ∉ source) :
    (SourceFile.parse path (crlf source)).outline.functions =
      (SourceFile.parse path source).outline.functions.map (·.reword crlf) := by
  rw [outline_crlf h, Outline.functions_reword]

theorem properties_crlf (h : '\r' ∉ source) :
    (SourceFile.parse path (crlf source)).outline.properties =
      (SourceFile.parse path source).outline.properties.map (·.reword crlf) := by
  rw [outline_crlf h, Outline.properties_reword]

theorem constantsOf_crlf (h : '\r' ∉ source) (form : ConstantForm) :
    (SourceFile.parse path (crlf source)).outline.constantsOf form =
      ((SourceFile.parse path source).outline.constantsOf form).map (·.reword crlf) := by
  rw [outline_crlf h, Outline.constantsOf_reword]

/-! ## Places -/

/-- What does not depend on the text and the offset of tokens. -/
theorem map_tokenize_crlf (h : '\r' ∉ source) {α : Type} {f : Token → α}
    (hline : ∀ t, f (onLine t) = f t) (hcrlf : ∀ t, f (crlfOnLine t) = f t) :
    (tokenize (crlf source)).map f = (tokenize source).map f := by
  calc (tokenize (crlf source)).map f
      = ((tokenize (crlf source)).map onLine).map f := by simp [hline]
    _ = ((tokenize source).map crlfOnLine).map f := by rw [tokenize_crlf h]
    _ = (tokenize source).map f := by simp [hcrlf]

theorem lineNumber_crlf (h : '\r' ∉ source) (tid : Nat) :
    (SourceFile.parse path (crlf source)).lineNumber tid =
      (SourceFile.parse path source).lineNumber tid := by
  have hlines := map_tokenize_crlf h (f := fun t => t.line) (fun _ => rfl) fun _ => rfl
  unfold SourceFile.lineNumber
  show ((tokenize (crlf source))[tid]?.map (·.line)).getD 1 = _
  rw [← List.getElem?_map, hlines, List.getElem?_map]
  rfl

theorem textOf_take_crlf (h : '\r' ∉ source) (n : Nat) :
    textOf ((tokenize (crlf source)).take n) = crlf (textOf ((tokenize source).take n)) := by
  have htexts : (tokenize (crlf source)).map (·.text) = (tokenize source).map fun t => crlf t.text := by
    calc (tokenize (crlf source)).map (·.text)
        = ((tokenize (crlf source)).map onLine).map (·.text) := by simp [onLine]
      _ = ((tokenize source).map crlfOnLine).map (·.text) := by rw [tokenize_crlf h]
      _ = (tokenize source).map fun t => crlf t.text := by simp [crlfOnLine]
  unfold textOf
  rw [List.map_take, htexts, ← List.map_take]
  generalize (tokenize source).take n = ts
  induction ts with
  | nil => rfl
  | cons t ts ih => simp [ih]

/-- Columns are the same: a carriage return stands at the end of its line. -/
theorem columnNumber_crlf (h : '\r' ∉ source) (tid : Nat) :
    (SourceFile.parse path (crlf source)).columnNumber tid =
      (SourceFile.parse path source).columnNumber tid := by
  rw [SourceFile.columnNumber_eq, SourceFile.columnNumber_eq]
  show 1 + (lastLine (textOf ((tokenize (crlf source)).take tid))).length = _
  rw [textOf_take_crlf h, lastLine_crlf]
  rfl

/-! ## The rules -/

/-- Nothing but the raw text of a block tells the two files apart: it is read off a token of the
source. -/
theorem raw_and_slots (h : '\r' ∉ source) {d : DocBlock} (hd : d.IsOf (tokenize source)) :
    '\r' ∉ d.raw ∧ ∀ tag ∈ d.tags, ∀ s ∈ tag.slots, '\n' ∉ s := by
  obtain ⟨t, ht, hd⟩ := hd
  have hraw : d.raw = t.text := by rw [hd]; rfl
  have htags : d.tags = DocBlock.readTags t.line (DocBlock.contentLines t.text) := by rw [hd]; rfl
  rw [hraw, htags]
  exact ⟨not_mem_text h (List.mem_of_getElem? ht), fun tag htag => not_mem_slots_readTags htag⟩

end Source

namespace Rule

theorem beq_crlf {hint type : Text} (h : '\n' ∉ type) : (crlf hint == type) = (hint == type) := by
  by_cases hlf : '\n' ∈ hint
  · have hne : hint ≠ type := fun heq => h (heq ▸ hlf)
    have hne' : crlf hint ≠ type := fun heq => h (heq ▸ (mem_crlf '\n' (by decide)).2 hlf)
    rw [beq_eq_false_iff_ne.2 hne, beq_eq_false_iff_ne.2 hne']
  · rw [crlf_eq_self hlf]

theorem isEmpty_crlf (t : Text) : (crlf t).isEmpty = t.isEmpty := by
  cases t with
  | nil => rfl
  | cons c t =>
      by_cases hc : c = '\n'
      · subst hc
        rfl
      · rw [crlf_cons hc]
        rfl

/-- A slot is a word, so a declared type with a line break never matches it. -/
theorem slotsMatch_reword {slots : List Text} (h : ∀ s ∈ slots, '\n' ∉ s) (p : Parameter) :
    slotsMatch slots (p.reword crlf) = slotsMatch slots p := by
  unfold slotsMatch
  split
  · rename_i type name rest
    have htype := h type List.mem_cons_self
    simp only [Parameter.reword, isEmpty_crlf, beq_crlf htype]
  · rfl

theorem signatureMatches_reword {d : DocBlock} (h : ∀ tag ∈ d.tags, ∀ s ∈ tag.slots, '\n' ∉ s)
    (ps : List Parameter) :
    signatureMatches (d.reword crlf) (ps.map (·.reword crlf)) = signatureMatches d ps := by
  have hparams : ∀ slots ∈ d.slotsNamed "param", ∀ s ∈ slots, '\n' ∉ s := by
    intro slots hslots
    obtain ⟨tag, htag, rfl⟩ := List.mem_map.1 hslots
    exact h tag (List.mem_filter.1 htag).1
  have hzip : ∀ params : List (List Text), (∀ slots ∈ params, ∀ s ∈ slots, '\n' ∉ s) →
      ((params.zip (ps.map (·.reword crlf))).all fun q => slotsMatch q.1 q.2) =
        ((params.zip ps).all fun q => slotsMatch q.1 q.2) := by
    intro params hslots
    rw [List.zip_map_right, List.all_map, Bool.eq_iff_iff, List.all_eq_true, List.all_eq_true]
    refine forall₂_congr fun q hq => ?_
    show slotsMatch q.1 (q.2.reword crlf) = true ↔ _
    rw [slotsMatch_reword (hslots q.1 (List.of_mem_zip hq).1)]
  have hsame : ∀ name, (d.reword crlf).slotsNamed name = d.slotsNamed name := fun _ => rfl
  unfold signatureMatches
  simp only [hsame, hzip _ hparams, List.length_map]

section Findings

variable {path source : Text}

/-- No line break is copied into the name of a constant. -/
theorem name_crlf
    (hdef : ∀ c ∈ (SourceFile.parse path source).outline.constantsOf .define, '\n' ∉ c.name)
    {c : ConstantDecl} (hc : .constant c ∈ (SourceFile.parse path source).outline.declarations) :
    (c.reword crlf).name = c.name := by
  show (if c.form = .define then crlf c.name else c.name) = c.name
  split
  · rename_i hform
    exact crlf_eq_self (hdef c (Outline.mem_constantsOf.2 ⟨hc, hform⟩))
  · rfl

/-- A rule on missing documentation. -/
theorem undocumented_crlf (h : '\r' ∉ source) (key : Text) {α : Type} {as : List α} {φ : α → α}
    {mk : α → Declaration} (hmk : ∀ a, mk (φ a) = (mk a).reword crlf)
    (hname : ∀ a ∈ as, ((mk a).reword crlf).fullname = (mk a).fullname) :
    undocumented key (SourceFile.parse path (crlf source)) ((as.map φ).map mk) =
      undocumented key (SourceFile.parse path source) (as.map mk) := by
  have hdoc : ∀ d : Declaration, (d.reword crlf).doc.isNone = d.doc.isNone := by
    intro d
    cases d <;> exact Option.isNone_map
  have hanchor : ∀ d : Declaration, (d.reword crlf).anchor = d.anchor := by
    intro d
    cases d <;> rfl
  unfold undocumented
  simp only [List.filter_map, List.map_map, Function.comp_def, hmk, hdoc]
  refine List.map_congr_left fun a ha => ?_
  rw [hname a (List.mem_filter.1 ha).1]
  simp only [Finding.atDeclaration, Finding.atToken, hanchor, lineNumber_crlf h]

/-- What a rule finds in one block. -/
theorem filter_map_reword {doc : Option DocBlock} {bad bad' : DocBlock → Bool}
    {finding finding' : DocBlock → Finding}
    (hsame : ∀ d, doc = some d →
      bad' (d.reword crlf) = bad d ∧ finding' (d.reword crlf) = finding d) :
    ((doc.map (·.reword crlf)).filter bad').map finding' = (doc.filter bad).map finding := by
  cases doc with
  | none => rfl
  | some d =>
      obtain ⟨hbad, hfinding⟩ := hsame d rfl
      rw [Option.map_some, Option.filter_some, Option.filter_some, hbad]
      split
      · rw [Option.map_some, Option.map_some, hfinding]
      · rfl

/-- A rule that looks at the documentation of each declaration in a list. -/
theorem failing_crlf {α : Type} {as : List α} {φ : α → α} {doc : α → Option DocBlock}
    {bad : α → DocBlock → Bool} {finding : α → DocBlock → Finding}
    (hdoc : ∀ a, doc (φ a) = (doc a).map (·.reword crlf))
    (hsame : ∀ a ∈ as, ∀ d, doc a = some d →
      bad (φ a) (d.reword crlf) = bad a d ∧ finding (φ a) (d.reword crlf) = finding a d) :
    ((as.map φ).filterMap fun a => ((doc a).filter (bad a)).map (finding a)) =
      as.filterMap fun a => ((doc a).filter (bad a)).map (finding a) := by
  rw [List.filterMap_map]
  refine List.filterMap_congr fun a ha => ?_
  simp only [Function.comp, hdoc]
  exact filter_map_reword (hsame a ha)

/-- A rule that looks at the documentation of the file. -/
theorem fileFailing_crlf (h : '\r' ∉ source) {bad : DocBlock → Bool} {finding : DocBlock → Finding}
    (hsame : ∀ d : DocBlock, d.IsOf (tokenize source) →
      bad (d.reword crlf) = bad d ∧ finding (d.reword crlf) = finding d) :
    ((SourceFile.parse path (crlf source)).outline.fileDoc.filter bad).map finding =
      ((SourceFile.parse path source).outline.fileDoc.filter bad).map finding := by
  rw [fileDoc_crlf h]
  refine filter_map_reword fun d hd => hsame d ?_
  exact Outline.Pass.isOf_of_mem_docs (Outline.Pass.fileDoc_mem_docs hd)

theorem lineOf_crlf (h : '\r' ∉ source) {d : DocBlock} (hd : d.IsOf (tokenize source)) (mark : Text) :
    (d.reword crlf).lineOf mark = d.lineOf mark := lineOf_reword (raw_and_slots h hd).1 mark

/-- **Every built-in rule finds the same.** -/
theorem findings_crlf (h : '\r' ∉ source)
    (hdef : ∀ c ∈ (SourceFile.parse path source).outline.constantsOf .define, '\n' ∉ c.name)
    {r : Rule} (hr : r ∈ builtin) :
    r.findings (SourceFile.parse path (crlf source)) =
      r.findings (SourceFile.parse path source) := by
  have hline : ∀ {d : Declaration}, d ∈ (SourceFile.parse path source).outline.declarations →
      ∀ b, d.doc = some b → ∀ mark, (b.reword crlf).lineOf mark = b.lineOf mark := fun hd b hb =>
    lineOf_crlf h (Outline.Pass.isOf_doc hd hb)
  simp only [builtin, List.mem_cons, List.not_mem_nil, or_false] at hr
  rcases hr with rfl | rfl | rfl | rfl | rfl | rfl | rfl | rfl | rfl | rfl | rfl | rfl | rfl
  · show (if (SourceFile.parse path (crlf source)).outline.fileDoc.isSome = true
      then ([] : List Finding) else [{}]) = _
    rw [fileDoc_crlf h, Option.isSome_map]
    rfl
  · show undocumented "class" _ ((SourceFile.parse path (crlf source)).outline.classes.map _) = _
    rw [classes_crlf h]
    exact undocumented_crlf h "class" (fun _ => rfl) fun c _ => rfl
  · show undocumented "function" _ ((SourceFile.parse path (crlf source)).outline.functions.map _) = _
    rw [functions_crlf h]
    exact undocumented_crlf h "function" (fun _ => rfl) fun c _ => rfl
  · show undocumented "variable" _ ((SourceFile.parse path (crlf source)).outline.properties.map _) = _
    rw [properties_crlf h]
    exact undocumented_crlf h "variable" (fun _ => rfl) fun c _ => rfl
  · show undocumented "object" _
      (((SourceFile.parse path (crlf source)).outline.constantsOf .const).map _) = _
    rw [constantsOf_crlf h]
    exact undocumented_crlf h "object" (fun _ => rfl) fun c hc =>
      congrArg (qualified c.owner) (name_crlf hdef (Outline.mem_constantsOf.1 hc).1)
  · show undocumented "object" _
      (((SourceFile.parse path (crlf source)).outline.constantsOf .define).map _) = _
    rw [constantsOf_crlf h]
    exact undocumented_crlf h "object" (fun _ => rfl) fun c hc =>
      congrArg (qualified c.owner) (name_crlf hdef (Outline.mem_constantsOf.1 hc).1)
  · show ((SourceFile.parse path (crlf source)).outline.docs.filter (·.isInline)).map _ = _
    rw [docs_crlf h, List.filter_map, List.map_map]
    refine List.map_congr_left fun d _ => ?_
    simp only [Function.comp, Finding.atToken, lineNumber_crlf h]
    rfl
  · refine congrArg₂ (fun a b => a.toList ++ b) (fileFailing_crlf h ?_) ?_
    · exact fun d _ => ⟨rfl, rfl⟩
    show (SourceFile.parse path (crlf source)).outline.classes.filterMap _ = _
    rw [classes_crlf h]
    exact failing_crlf (fun _ => rfl) fun c _ d _ => ⟨rfl, rfl⟩
  · show (SourceFile.parse path (crlf source)).outline.functions.filterMap _ = _
    rw [functions_crlf h]
    refine failing_crlf (fun _ => rfl) fun c hc d hd => ⟨?_, ?_⟩
    · have hof := Outline.Pass.isOf_doc (Outline.mem_functions.1 hc) hd
      exact congrArg (!·) (signatureMatches_reword (raw_and_slots h hof).2 c.parameters)
    · rw [hline (Outline.mem_functions.1 hc) d hd]
      rfl
  · show (SourceFile.parse path (crlf source)).outline.properties.filterMap _ = _
    rw [properties_crlf h]
    refine failing_crlf (fun _ => rfl) fun c hc d hd => ⟨rfl, ?_⟩
    rw [hline (Outline.mem_properties.1 hc) d hd]
    rfl
  · show ((SourceFile.parse path (crlf source)).outline.constantsOf .define).filterMap _ = _
    rw [constantsOf_crlf h]
    refine failing_crlf (fun _ => rfl) fun c hc d hd => ?_
    have hname := name_crlf hdef (Outline.mem_constantsOf.1 hc).1
    refine ⟨?_, ?_⟩
    · rw [hname]
      rfl
    · show Finding.withField _ "object" (qualified c.owner (c.reword crlf).name) = _
      rw [hname]
      rfl
  · refine congrArg Option.toList (fileFailing_crlf h fun d hd => ⟨rfl, ?_⟩)
    rw [lineOf_crlf h hd]
  · show (SourceFile.parse path (crlf source)).outline.classes.filterMap _ = _
    rw [classes_crlf h]
    refine failing_crlf (fun _ => rfl) fun c hc d hd => ⟨rfl, ?_⟩
    rw [hline (Outline.mem_classes.1 hc) d hd]
    rfl

end Findings

end Rule

/-! ## The checks -/

/-- The violation without the bytes that it spans. -/
def Violation.withoutBytes (v : Violation) : Violation :=
  { v with location := { v.location with offset := 0, length := 0 } }

namespace Registry

variable {path source : Text}

theorem violation_crlf (h : '\r' ∉ source) (g : Registry) (r : Rule) (x : Finding) :
    (g.violation (SourceFile.parse path (crlf source)) r x).withoutBytes =
      (g.violation (SourceFile.parse path source) r x).withoutBytes := by
  unfold violation locate
  cases x.token with
  | none => rfl
  | some tid =>
      simp only [Violation.withoutBytes, columnNumber_crlf h]
      rfl

theorem check_crlf (h : '\r' ∉ source)
    (hdef : ∀ c ∈ (SourceFile.parse path source).outline.constantsOf .define, '\n' ∉ c.name)
    {g : Registry} (hg : ∀ r ∈ g.enabledRules, r ∈ Rule.builtin) :
    (g.check (SourceFile.parse path (crlf source))).map (·.withoutBytes) =
      (g.check (SourceFile.parse path source)).map (·.withoutBytes) := by
  unfold check
  rw [List.map_flatMap, List.map_flatMap]
  refine List.flatMap_congr fun r hr => ?_
  rw [Rule.findings_crlf h hdef (hg r hr), List.map_map, List.map_map]
  exact List.map_congr_left fun x _ => violation_crlf h g r x

/-- The text of a literal in the place of a type is kept as it is written. -/
theorem parameters_ne_crlf :
    let source : Text := "function f('\n' $x) \x7b\x7d"
    '\r' ∉ source ∧
      (∀ c ∈ (SourceFile.parse "a.php" source).outline.constantsOf .define, '\n' ∉ c.name) ∧
      (SourceFile.parse "a.php" (crlf source)).outline.functions.map (·.parameters) ≠
        (SourceFile.parse "a.php" source).outline.functions.map (·.parameters) := by
  decide +kernel

/-- **Line endings do not matter.** A source without carriage returns in which no constant defined by
a call has a line break in its name, and the same source with a carriage return before each line
feed: the tokens are of the same kinds on the same lines; declarations and documentation agree but
for the raw text of comments and for the line breaks that a type of a parameter copies from a
literal; and every check with built-in rules reports the same violations, their bytes aside. -/
theorem line_endings_agree (path source : Text) (hcr : '\r' ∉ source)
    (hdef : ∀ c ∈ (SourceFile.parse path source).outline.constantsOf .define, '\n' ∉ c.name) :
    let f := SourceFile.parse path source
    let w := SourceFile.parse path (crlf source)
    (w.tokens.map fun t => (t.kind, t.line)) = (f.tokens.map fun t => (t.kind, t.line)) ∧
    w.outline.fileDoc = f.outline.fileDoc.map (·.reword crlf) ∧
    w.outline.docs = f.outline.docs.map (·.reword crlf) ∧
    w.outline.classes = (f.outline.classes.map fun d =>
      { d with doc := d.doc.map (·.reword crlf) }) ∧
    w.outline.functions = (f.outline.functions.map fun d =>
      { d with
        parameters := d.parameters.map fun p => { p with typeHint := crlf p.typeHint }
        doc := d.doc.map (·.reword crlf) }) ∧
    w.outline.properties = (f.outline.properties.map fun d =>
      { d with doc := d.doc.map (·.reword crlf) }) ∧
    w.outline.constants = (f.outline.constants.map fun d =>
      { d with doc := d.doc.map (·.reword crlf) }) ∧
    ∀ g : Registry, (∀ r ∈ g.enabledRules, r ∈ Rule.builtin) →
      (g.check w).map (·.withoutBytes) = (g.check f).map (·.withoutBytes) := by
  intro f w
  refine ⟨map_tokenize_crlf hcr (fun _ => rfl) fun _ => rfl, fileDoc_crlf hcr, docs_crlf hcr,
    classes_crlf hcr, functions_crlf hcr, properties_crlf hcr, ?_, fun g hg => check_crlf hcr hdef hg⟩
  show (SourceFile.parse path (crlf source)).outline.constants = _
  rw [outline_crlf hcr, Outline.constants_reword]
  refine List.map_congr_left fun c hc => ?_
  have hname := Rule.name_crlf hdef (Outline.mem_constants.1 hc)
  show ({ c with name := (c.reword crlf).name, doc := c.doc.map (·.reword crlf) } : ConstantDecl) = _
  rw [hname]

-- a method without documentation, reported in the same line and column
theorem line_endings_agree_standard :
    let source : Text :=
      "<?php\n/** A\n * @copyright B */\nclass A \x7b\n  function f($x) \x7b\x7d\n\x7d\ndefine('C', 1);"
    (Registry.standard.check (SourceFile.parse "a.php" (crlf source))).map (·.withoutBytes) =
        (Registry.standard.check (SourceFile.parse "a.php" source)).map (·.withoutBytes) ∧
      (Registry.standard.check (SourceFile.parse "a.php" source)).map (fun v =>
        (v.location.line, v.location.column)) = [(5, 3), (7, 1)] := by
  intro source
  obtain ⟨_, _, _, _, _, _, _, hcheck⟩ :=
    line_endings_agree "a.php" source (by decide) (by decide +kernel)
  exact ⟨hcheck Registry.standard fun r hr => (List.mem_filter.1 hr).1, by decide +kernel⟩

end Registry

end DocLint
