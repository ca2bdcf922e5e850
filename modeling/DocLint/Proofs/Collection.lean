import DocLint.Proofs.Lexis
import DocLint.Proofs.Location

/-!
# The documentation of a file

Which blocks a file has, and which of them is that of the file itself, can be read off its tokens
alone: the pass collects documentation wherever it stands, also where it looks for no declaration.

* `Token.HoldsDoc`, `Token.OpensInline`, `Kind.isPreamble`: tokens with documentation, those opened
  with an extra mark, and what may stand before the documentation of a file.
* `codeSeen_upTo`, `fileDoc_upTo`: what the pass knows of the file's own documentation after any
  number of tokens; `leadingDoc?_eq_some_iff` says which block it is.
* `isInline_ofToken`: a block is inline by the beginning of its token.
* `documentation_of_tokens`: the blocks, that of the file itself, and the findings on inline ones.
-/

namespace DocLint

/-- May stand before the documentation of a file: a blank, a tag, text outside of code, an attribute
group or a comment. -/
def Kind.isPreamble : Kind → Bool
  | blank | openTag | closeTag | html | attributeGroup | lineComment | blockComment | docComment =>
    true
  | _ => false

namespace Token

/-- A documentation block, or a line comment opened with three slashes. -/
def HoldsDoc (t : Token) : Prop :=
  t.kind = .docComment ∨ t.kind = .lineComment ∧ ['/', '/', '/'] <+: t.text

instance : DecidablePred HoldsDoc := fun t =>
  inferInstanceAs (Decidable (t.kind = .docComment ∨ t.kind = .lineComment ∧ _))

/-- Opened with three stars or with three slashes. -/
def OpensInline (t : Token) : Prop :=
  ['/', '*', '*', '*'] <+: t.text ∨ ['/', '/', '/'] <+: t.text

instance : DecidablePred OpensInline := fun t =>
  inferInstanceAs (Decidable (_ <+: t.text ∨ _ <+: t.text))

theorem isDoc_eq (t : Token) : t.isDoc = decide t.HoldsDoc := by
  rw [Bool.eq_iff_iff, decide_eq_true_iff, isDoc, HoldsDoc, Bool.or_eq_true, Bool.and_eq_true,
    beq_iff_eq, beq_iff_eq, Text.startsWith_iff]
  rfl

theorem isPreamble_eq (t : Token) : t.kind.isPreamble = (t.role != .code) := by
  unfold role
  cases t.kind with
  | lineComment => cases t.isDoc <;> rfl
  | _ => rfl

end Token

namespace Outline

variable {ts : List Token} {n : Nat} {t : Token}

/-! ## The first block -/

/-- The first documentation block, if nothing but a preamble stands before it. -/
def leadingDoc? (ts : List Token) : Option DocBlock :=
  (ts.zipIdx.find? (·.1.kind == .docComment)).bind fun p =>
    if (ts.take p.2).all (·.kind.isPreamble) then some (DocBlock.ofToken p.1 p.2) else none

/-- The token at `i` is the first documentation block, and nothing but a preamble stands before
it. -/
structure Leads (ts : List Token) (i : Nat) (t : Token) : Prop where
  here : ts[i]? = some t
  block : t.kind = .docComment
  first : ∀ j u, j < i → ts[j]? = some u → u.kind ≠ .docComment
  front : ∀ j u, j < i → ts[j]? = some u → u.kind.isPreamble = true

theorem leadingDoc?_concat (ts : List Token) (t : Token) :
    leadingDoc? (ts ++ [t]) =
      if t.kind = .docComment ∧ ts.all (·.kind.isPreamble) = true then
        (leadingDoc? ts).or (some (DocBlock.ofToken t ts.length))
      else leadingDoc? ts := by
  unfold leadingDoc?
  rw [List.zipIdx_append, List.find?_append]
  cases hfirst : ts.zipIdx.find? (·.1.kind == .docComment) with
  | none =>
      by_cases hkind : t.kind = .docComment
      · simp [hkind]
      · simp [hkind]
  | some p =>
      have hlt : p.2 < 0 + ts.length := (List.mem_zipIdx (List.mem_of_find?_eq_some hfirst)).2.1
      rw [Option.some_or, Option.bind_some, Option.bind_some,
        List.take_append_of_le_length (by omega)]
      by_cases hfront : (ts.take p.2).all (·.kind.isPreamble) = true
      · rw [if_pos hfront, Option.some_or, ite_self]
      · -- then there is code before the new token as well
        refine (if_neg fun hc => hfront ?_).symm
        rw [List.all_eq_true] at hc ⊢
        exact fun u hu => hc.2 u (List.mem_of_mem_take hu)

theorem find?_block_iff {i : Nat} :
    ts.zipIdx.find? (·.1.kind == .docComment) = some (t, i) ↔
      ts[i]? = some t ∧ t.kind = .docComment ∧
        ∀ j u, j < i → ts[j]? = some u → u.kind ≠ .docComment := by
  rw [List.find?_eq_some_iff_getElem, beq_iff_eq]
  simp only [List.getElem_zipIdx, List.length_zipIdx, Prod.mk.injEq, Nat.zero_add]
  constructor
  · rintro ⟨block, k, hk, ⟨rfl, rfl⟩, hbefore⟩
    refine ⟨List.getElem?_eq_getElem hk, block, fun j u hj hu => ?_⟩
    obtain ⟨_, rfl⟩ := List.getElem?_eq_some_iff.1 hu
    simpa using hbefore j hj
  · rintro ⟨here, block, first⟩
    obtain ⟨hi, heq⟩ := List.getElem?_eq_some_iff.1 here
    refine ⟨block, i, hi, ⟨heq, rfl⟩, fun j hj => ?_⟩
    simpa using first j _ hj (List.getElem?_eq_getElem (by omega))

theorem all_take_iff {p : Token → Bool} {i : Nat} :
    (ts.take i).all p = true ↔ ∀ j u, j < i → ts[j]? = some u → p u = true := by
  rw [List.all_eq_true]
  constructor
  · intro h j u hj hu
    have htake : (ts.take i)[j]? = some u := by rw [List.getElem?_take, if_pos hj, hu]
    exact h u (List.mem_of_getElem? htake)
  · intro h u hu
    obtain ⟨j, hj⟩ := List.mem_iff_getElem?.1 hu
    rw [List.getElem?_take, Option.ite_none_right_eq_some] at hj
    exact h j u hj.1 hj.2

theorem leadingDoc?_eq_some_iff {d : DocBlock} :
    leadingDoc? ts = some d ↔ ∃ i t, Leads ts i t ∧ d = DocBlock.ofToken t i := by
  unfold leadingDoc?
  rw [Option.bind_eq_some_iff]
  constructor
  · rintro ⟨⟨t, i⟩, hfind, hd⟩
    obtain ⟨here, block, first⟩ := find?_block_iff.1 hfind
    rw [Option.ite_none_right_eq_some] at hd
    exact ⟨i, t, ⟨here, block, first, all_take_iff.1 hd.1⟩, (Option.some.inj hd.2).symm⟩
  · rintro ⟨i, t, h, rfl⟩
    refine ⟨(t, i), find?_block_iff.2 ⟨h.here, h.block, h.first⟩, ?_⟩
    exact if_pos (all_take_iff.2 h.front)

namespace Pass

/-! ## The pass -/

/-- Code is seen at the first token that is no preamble. -/
theorem codeSeen_upTo_succ (h : ts[n]? = some t) :
    (upTo ts (n + 1)).codeSeen = ((upTo ts n).codeSeen || !t.kind.isPreamble) := by
  rw [upTo_succ h, t.isPreamble_eq]
  unfold step
  simp only
  cases t.role with
  | invisible => simp [leave]
  | doc => simp [leave, collect]
  | divider => simp [leave]
  | code => simp [advance]

theorem codeSeen_upTo : ∀ n ≤ ts.length,
    (upTo ts n).codeSeen = !(ts.take n).all (·.kind.isPreamble) := by
  refine upTo_induction (P := fun n p => p.codeSeen = !(ts.take n).all (·.kind.isPreamble)) rfl ?_
  intro n t h ih
  rw [codeSeen_upTo_succ h, ih, List.take_add_one, h]
  simp

/-- **The documentation of the file is its first block, if no code stands before it.** -/
theorem fileDoc_upTo : ∀ n ≤ ts.length,
    (upTo ts n).outline.fileDoc = leadingDoc? (ts.take n) := by
  refine upTo_induction (P := fun n p => p.outline.fileDoc = leadingDoc? (ts.take n)) rfl ?_
  intro n t h ih
  have hn : n < ts.length := (List.getElem?_eq_some_iff.1 h).1
  rw [fileDoc_upTo_succ h, codeSeen_upTo n (Nat.le_of_lt hn), ih, List.take_add_one, h,
    Option.toList_some, leadingDoc?_concat, List.length_take, Nat.min_eq_left (Nat.le_of_lt hn)]
  simp

end Pass

end Outline

/-! ## Inline blocks -/

/-- A block of a source is inline by the beginning of its token: a documentation block does not
start with slashes. -/
theorem isInline_ofToken {source : Text} {t : Token} {i : Nat}
    (ht : (Token.tokenize source)[i]? = some t) (hdoc : t.HoldsDoc) :
    (DocBlock.ofToken t i).isInline = decide t.OpensInline := by
  rw [Bool.eq_iff_iff, decide_eq_true_iff]
  show Text.startsWith (DocBlock.inlineMark t.kind) t.text = true ↔ _
  rw [Text.startsWith_iff]
  rcases hdoc with hkind | ⟨hkind, hslashes⟩
  · obtain ⟨hi, heq⟩ := List.getElem?_eq_some_iff.1 ht
    have hsplit : Token.tokenize source =
        (Token.tokenize source).take i ++ t :: (Token.tokenize source).drop (i + 1) := by
      rw [← heq, ← List.drop_eq_getElem_cons hi, List.take_append_drop]
    obtain ⟨c, r, htext, _⟩ := (Token.comment_of_kind hsplit (Or.inr hkind)).2.2.1 hkind
    have hno : ¬ ['/', '/', '/'] <+: t.text := by
      rw [htext]
      simp
    rw [hkind]
    exact ⟨Or.inl, fun h => h.resolve_right hno⟩
  · rw [hkind]
    exact ⟨fun h => Or.inr h, fun _ => hslashes⟩

namespace SourceFile

/-- The tokens with documentation, with their indexes. -/
def docTokens (f : SourceFile) : List (Token × Nat) :=
  f.tokens.zipIdx.filter fun p => p.1.HoldsDoc

variable {path source : Text} {p : Token × Nat}

theorem of_mem_docTokens (hp : p ∈ (parse path source).docTokens) :
    (Token.tokenize source)[p.2]? = some p.1 ∧ p.1.HoldsDoc := by
  obtain ⟨hmem, hdoc⟩ := List.mem_filter.1 hp
  exact ⟨List.mem_zipIdx_iff_getElem?.1 hmem, decide_eq_true_iff.1 hdoc⟩

theorem docs_parse (path source : Text) :
    (parse path source).outline.docs =
      (parse path source).docTokens.map fun p => DocBlock.ofToken p.1 p.2 := by
  have hdoc : (fun p : Token × Nat => p.1.isDoc) = fun p => decide p.1.HoldsDoc :=
    funext fun p => p.1.isDoc_eq
  show (Outline.Pass.run _).outline.docs = _
  rw [Outline.Pass.docs_run, hdoc]
  rfl

theorem fileDoc_parse (path source : Text) :
    (parse path source).outline.fileDoc = Outline.leadingDoc? (parse path source).tokens := by
  show (Outline.Pass.run _).outline.fileDoc = _
  rw [Outline.Pass.run_eq_upTo, Outline.Pass.fileDoc_upTo _ (Nat.le_refl _), List.take_length]
  rfl

theorem findings_noInlineDocs (path source : Text) :
    Rule.noInlineDocs.findings (parse path source) =
      ((parse path source).docTokens.filter fun p => p.1.OpensInline).map fun p =>
        { line := some p.1.line, token := some p.2 } := by
  unfold Rule.noInlineDocs
  simp only
  rw [docs_parse, List.filter_map, List.map_map]
  have hinline : (parse path source).docTokens.filter
      ((fun d : DocBlock => d.isInline) ∘ fun p => DocBlock.ofToken p.1 p.2) =
      (parse path source).docTokens.filter fun p => p.1.OpensInline := by
    refine List.filter_congr fun p hp => ?_
    obtain ⟨ht, hdoc⟩ := of_mem_docTokens hp
    exact isInline_ofToken ht hdoc
  rw [hinline]
  refine List.map_congr_left fun p hp => ?_
  obtain ⟨ht, _⟩ := of_mem_docTokens (List.mem_filter.1 hp).1
  show ({ line := some ((parse path source).lineNumber p.2), token := some p.2 } : Finding) = _
  rw [lineNumber_parse ht]

/-- **The documentation of a file is determined by its tokens.** Its blocks are the documentation
blocks and the line comments opened with three slashes, in order. Its own documentation is the first
documentation block, if only blanks, tags, text outside of code, attribute groups and comments stand
before it. Of the blocks those opened with three stars or three slashes are reported as inline, each
on its own token. -/
theorem documentation_of_tokens (path source : Text) :
    let f := parse path source
    let inline := f.docTokens.filter fun p => p.1.OpensInline
    f.outline.docs = f.docTokens.map (fun p => DocBlock.ofToken p.1 p.2) ∧
    (∀ d, f.outline.fileDoc = some d ↔
      ∃ i t, Outline.Leads f.tokens i t ∧ d = DocBlock.ofToken t i) ∧
    Rule.noInlineDocs.findings f =
      inline.map (fun p => { line := some p.1.line, token := some p.2 }) ∧
    (Rule.noInlineDocs.findings f).map (Registry.locate f) = inline.map (fun p =>
      ⟨path, p.1.line, f.columnNumber p.2, p.1.offset, Text.utf8Length p.1.text⟩) := by
  intro f inline
  refine ⟨docs_parse path source, fun d => ?_, findings_noInlineDocs path source, ?_⟩
  · rw [fileDoc_parse]
    exact Outline.leadingDoc?_eq_some_iff
  · rw [findings_noInlineDocs, List.map_map]
    refine List.map_congr_left fun p hp => ?_
    obtain ⟨ht, _⟩ := of_mem_docTokens (List.mem_filter.1 hp).1
    exact locate_of_token ht rfl rfl

-- blocks among arguments, on a line of their own and behind all code; the first one follows code
example :
    let f := parse "a.php" "<?php f(/*** a */ $x); /// b\n/** c */"
    f.outline.docs.map (·.tokenIndex) = [4, 10, 12] ∧ f.outline.fileDoc = none ∧
      (Rule.noInlineDocs.findings f).map (·.token) = [some 4, some 10] := by
  decide +kernel

end SourceFile

end DocLint
