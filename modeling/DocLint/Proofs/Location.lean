import DocLint.Proofs.Attachment
import DocLint.Proofs.Position
import DocLint.Registry

/-!
# Reported places

A violation says where in the source it is: a byte span with the line and the column of its start.

* `Location.PointsInto`: the place lies in the source, between characters, and line and column are
  those of its offset.
* `Finding.IsPlaced`: a finding names a token of the file together with its line, or a line that
  the source has; `locate_pointsInto` turns it into a place.
* `lineOf_le`: a mark is looked for on the lines of its block.
* `isPlaced_of_mem_builtin`: every finding of a built-in rule is placed.
* `pointsInto_of_mem_check`: so is every violation, whatever rules are enabled and whatever the
  messages are.
-/

namespace DocLint

open Text Token

/-- The place lies in the source and has the line and the column of its offset. -/
structure Location.PointsInto (l : Location) (source : Text) : Prop where
  inside : l.offset + l.length ≤ utf8Length source
  starts : IsBoundary source l.offset
  ends : IsBoundary source (l.offset + l.length)
  line_eq : l.line = 1 + breaks (before l.offset source)
  column_eq : l.column = 1 + (lastLine (before l.offset source)).length

/-- The finding names a token together with its line, or only a line of the source. -/
def Finding.IsPlaced (x : Finding) (source : Text) : Prop :=
  (∃ tid t, x.token = some tid ∧ (tokenize source)[tid]? = some t ∧ x.line = some t.line) ∨
    x.token = none ∧ x.line.getD 1 - 1 ≤ breaks source ∧ 1 ≤ x.line.getD 1

/-! ## From a finding to a place -/

variable {path source : Text} {x : Finding}

theorem SourceFile.lineNumber_parse {tid : Nat} {t : Token}
    (ht : (tokenize source)[tid]? = some t) :
    (SourceFile.parse path source).lineNumber tid = t.line := by
  show ((tokenize source)[tid]?.map (·.line)).getD 1 = _
  rw [ht]
  rfl

/-- The place of a finding on a token is that of the token. -/
theorem locate_of_token {tid : Nat} {t : Token} (ht : (tokenize source)[tid]? = some t)
    (htoken : x.token = some tid) (hline : x.line = some t.line) :
    Registry.locate (SourceFile.parse path source) x =
      ⟨path, t.line, (SourceFile.parse path source).columnNumber tid, t.offset,
        utf8Length t.text⟩ := by
  have hspan : (SourceFile.parse path source).tokenSpan tid = (t.offset, utf8Length t.text) := by
    show (((tokenize source)[tid]?).map fun t => (t.offset, utf8Length t.text)).getD (0, 0) = _
    rw [ht]
    rfl
  unfold Registry.locate
  rw [htoken, hline]
  simp only [hspan, Option.getD_some]
  rfl

/-- Line, column and span of a token come from different scans and agree. -/
theorem locate_token {tid : Nat} {t : Token} (ht : (tokenize source)[tid]? = some t)
    (htoken : x.token = some tid) (hline : x.line = some t.line) :
    (Registry.locate (SourceFile.parse path source) x).PointsInto source := by
  obtain ⟨hstarts, hends⟩ := isBoundary_token ht
  rw [locate_of_token ht htoken hline]
  refine ⟨hends.le, hstarts, hends, line_eq ht, ?_⟩
  show (SourceFile.parse path source).columnNumber tid =
    1 + (lastLine (before t.offset source)).length
  rw [SourceFile.columnNumber_eq, before_offset ht]
  rfl

/-- The place of a line is its start. -/
theorem locate_line (htoken : x.token = none) (hle : x.line.getD 1 - 1 ≤ breaks source)
    (hpos : 1 ≤ x.line.getD 1) :
    (Registry.locate (SourceFile.parse path source) x).PointsInto source := by
  obtain ⟨above, rest, hcut, hoffset, hbreaks, hlast⟩ := SourceFile.exists_pastBreak_eq hle
  have hlocate : Registry.locate (SourceFile.parse path source) x =
      ⟨path, x.line.getD 1, 1, utf8Length above, 0⟩ := by
    unfold Registry.locate
    rw [htoken]
    simp only [SourceFile.lineOffset_parse, hoffset]
    rfl
  have hbefore : before (utf8Length above) source = above := by
    rw [hcut]
    exact before_utf8Length_append above rest
  have hstarts : IsBoundary source (utf8Length above) := ⟨above, rest, hcut, rfl⟩
  rw [hlocate]
  refine ⟨hstarts.le, hstarts, hstarts, ?_, ?_⟩
  · show x.line.getD 1 = 1 + breaks (before (utf8Length above) source)
    rw [hbefore, hbreaks]
    omega
  · show 1 = 1 + (lastLine (before (utf8Length above) source)).length
    rw [hbefore, hlast]
    rfl

theorem locate_pointsInto (h : x.IsPlaced source) :
    (Registry.locate (SourceFile.parse path source) x).PointsInto source := by
  rcases h with ⟨tid, t, htoken, ht, hline⟩ | ⟨htoken, hle, hpos⟩
  · exact locate_token ht htoken hline
  · exact locate_line htoken hle hpos

/-! ## Lines of documentation -/

theorem length_pieces_le (t : Text) : (pieces t).length ≤ breaks t + 1 := by
  induction t with
  | nil => simp [pieces]
  | cons c t ih =>
      rw [pieces, breaks_cons]
      split
      · rw [List.length_cons]
        omega
      · split
        · simp
        · rename_i p ps hp
          rw [hp] at ih
          simp only [List.length_cons] at ih ⊢
          omega

/-- A mark is found on one of the lines of the block. -/
theorem lineOf_le (d : DocBlock) (mark : Text) : d.lineOf mark ≤ d.line + breaks d.raw := by
  unfold DocBlock.lineOf
  cases h : (lines d.raw).findIdx? (contains mark ·) with
  | none => simp
  | some k =>
      have hk := (List.findIdx?_eq_some_iff_getElem.1 h).1
      have := length_pieces_le d.raw
      simp only [lines, List.length_map] at hk
      rw [Option.getD_some]
      omega

theorem isPlaced_atLine {n : Nat} (htoken : x.token = none) (hn : 1 ≤ n)
    (hle : n ≤ 1 + breaks source) : (x.atLine n).IsPlaced source := by
  refine Or.inr ⟨htoken, ?_, hn⟩
  show n - 1 ≤ breaks source
  omega

/-- The lines from the start of a block to its end are lines of the source. -/
theorem line_bounds {d : DocBlock} (hd : d.IsOf (tokenize source)) :
    1 ≤ d.line ∧ d.line + breaks d.raw ≤ 1 + breaks source := by
  obtain ⟨t, ht, hd⟩ := hd
  obtain ⟨hcut, hline, _⟩ := tokenize_split ht
  have hsource := congrArg breaks hcut
  simp only [breaks_append] at hsource
  have hdline : d.line = t.line := by rw [hd]; rfl
  have hdraw : d.raw = t.text := by rw [hd]; rfl
  rw [hdline, hdraw, hline]
  omega

theorem isPlaced_line {d : DocBlock} (hd : d.IsOf (tokenize source)) (htoken : x.token = none) :
    (x.atLine d.line).IsPlaced source := by
  obtain ⟨hpos, hle⟩ := line_bounds hd
  exact isPlaced_atLine htoken hpos (by omega)

theorem isPlaced_lineOf {d : DocBlock} (hd : d.IsOf (tokenize source)) (htoken : x.token = none)
    (mark : Text) : (x.atLine (d.lineOf mark)).IsPlaced source := by
  obtain ⟨hpos, hle⟩ := line_bounds hd
  have hmark := lineOf_le d mark
  have hline : d.line ≤ d.lineOf mark := Nat.le_add_right _ _
  exact isPlaced_atLine htoken (by omega) (by omega)

/-! ## The rules -/

theorem isPlaced_atToken {path : Text} {tid : Nat} (h : tid < (tokenize source).length) :
    (x.atToken (SourceFile.parse path source) tid).IsPlaced source := by
  have ht := List.getElem?_eq_getElem h
  exact Or.inl ⟨tid, _, rfl, ht, congrArg some (SourceFile.lineNumber_parse ht)⟩

/-- A field says nothing about the place. -/
theorem Finding.IsPlaced.withField (h : x.IsPlaced source) (key value : Text) :
    (x.withField key value).IsPlaced source := h

namespace Rule

variable {ds : List Declaration}

theorem isPlaced_undocumented {key : Text}
    (hds : ∀ d ∈ ds, d ∈ (SourceFile.parse path source).outline.declarations)
    (hx : x ∈ undocumented key (SourceFile.parse path source) ds) : x.IsPlaced source := by
  unfold undocumented at hx
  obtain ⟨d, hd, rfl⟩ := List.mem_map.1 hx
  have hd := hds d (List.mem_filter.1 hd).1
  exact (isPlaced_atToken (Outline.Pass.anchor_lt_of_mem_run hd)).withField _ _

/-- A rule that looks at the documentation of each declaration in a list, and reports it by a
finding placed on the block, reports only placed findings. -/
theorem isPlaced_failing {α : Type} {as : List α} {declaration : α → Declaration}
    {bad : α → DocBlock → Bool} {finding : α → DocBlock → Finding}
    (has : ∀ a ∈ as, declaration a ∈ (SourceFile.parse path source).outline.declarations)
    (hfinding : ∀ a (d : DocBlock), d.IsOf (tokenize source) → (finding a d).IsPlaced source)
    (hx : x ∈ as.filterMap fun a => ((declaration a).doc.filter (bad a)).map (finding a)) :
    x.IsPlaced source := by
  obtain ⟨a, ha, hx⟩ := List.mem_filterMap.1 hx
  obtain ⟨d, hd, rfl⟩ := Option.map_eq_some_iff.1 hx
  exact hfinding a d (Outline.Pass.isOf_doc (has a ha) (Option.eq_some_of_filter_eq_some hd))

theorem isPlaced_fileFailing {bad : DocBlock → Bool} {finding : DocBlock → Finding}
    (hfinding : ∀ d : DocBlock, d.IsOf (tokenize source) → (finding d).IsPlaced source)
    (hx : x ∈ (((SourceFile.parse path source).outline.fileDoc.filter bad).map finding).toList) :
    x.IsPlaced source := by
  obtain ⟨d, hd, rfl⟩ := Option.map_eq_some_iff.1 (Option.mem_toList.1 hx)
  have hfile := Outline.Pass.fileDoc_mem_docs (Option.eq_some_of_filter_eq_some hd)
  exact hfinding d (Outline.Pass.isOf_of_mem_docs hfile)

theorem isPlaced_fileDocPresent (hx : x ∈ fileDocPresent.findings (SourceFile.parse path source)) :
    x.IsPlaced source := by
  unfold fileDocPresent at hx
  simp only at hx
  split at hx
  · cases hx
  · rw [List.mem_singleton.1 hx]
    exact Or.inr ⟨rfl, Nat.zero_le _, Nat.le_refl _⟩

theorem isPlaced_noInlineDocs (hx : x ∈ noInlineDocs.findings (SourceFile.parse path source)) :
    x.IsPlaced source := by
  unfold noInlineDocs at hx
  obtain ⟨d, hd, rfl⟩ := List.mem_map.1 hx
  obtain ⟨t, ht, _⟩ := Outline.Pass.isOf_of_mem_docs (List.mem_filter.1 hd).1
  exact isPlaced_atToken (List.getElem?_eq_some_iff.1 ht).1

theorem isPlaced_summaries (hx : x ∈ summaries.findings (SourceFile.parse path source)) :
    x.IsPlaced source := by
  unfold summaries at hx
  rcases List.mem_append.1 hx with hx | hx
  · exact isPlaced_fileFailing (fun d hd => (isPlaced_line hd rfl).withField _ _) hx
  · exact isPlaced_failing (fun c hc => Outline.mem_classes.1 hc)
      (fun c d hd => (isPlaced_line hd rfl).withField _ _) hx

/-- **Every finding of a built-in rule is placed.** -/
theorem isPlaced_of_mem_builtin {r : Rule} (hr : r ∈ builtin)
    (hx : x ∈ r.findings (SourceFile.parse path source)) : x.IsPlaced source := by
  simp only [builtin, List.mem_cons, List.not_mem_nil, or_false] at hr
  rcases hr with rfl | rfl | rfl | rfl | rfl | rfl | rfl | rfl | rfl | rfl | rfl | rfl | rfl
  · exact isPlaced_fileDocPresent hx
  · exact isPlaced_undocumented
      (Outline.mem_declarations_of_mem_map fun _ h => Outline.mem_classes.1 h) hx
  · exact isPlaced_undocumented
      (Outline.mem_declarations_of_mem_map fun _ h => Outline.mem_functions.1 h) hx
  · exact isPlaced_undocumented
      (Outline.mem_declarations_of_mem_map fun _ h => Outline.mem_properties.1 h) hx
  · exact isPlaced_undocumented
      (Outline.mem_declarations_of_mem_map fun _ h => (Outline.mem_constantsOf.1 h).1) hx
  · exact isPlaced_undocumented
      (Outline.mem_declarations_of_mem_map fun _ h => (Outline.mem_constantsOf.1 h).1) hx
  · exact isPlaced_noInlineDocs hx
  · exact isPlaced_summaries hx
  · exact isPlaced_failing (fun _ h => Outline.mem_functions.1 h)
      (fun _ _ hd => (isPlaced_lineOf hd rfl _).withField _ _) hx
  · exact isPlaced_failing (fun _ h => Outline.mem_properties.1 h)
      (fun _ _ hd => (isPlaced_lineOf hd rfl _).withField _ _) hx
  · exact isPlaced_failing (fun _ h => (Outline.mem_constantsOf.1 h).1)
      (fun _ _ hd => (isPlaced_line hd rfl).withField _ _) hx
  · exact isPlaced_fileFailing (fun _ hd => isPlaced_lineOf hd rfl _) hx
  · exact isPlaced_failing (fun _ h => Outline.mem_classes.1 h)
      (fun _ _ hd => (isPlaced_lineOf hd rfl _).withField _ _) hx

end Rule

/-! ## Violations -/

namespace Registry

/-- **Every reported place is true of the source.** Whatever the message catalog is and whichever
built-in rules are enabled, a violation lies in the source between two characters, and its line and
column are those of its offset. -/
theorem pointsInto_of_mem_check (g : Registry) (hg : ∀ r ∈ g.enabledRules, r ∈ Rule.builtin)
    (path source : Text) (v : Violation) (hv : v ∈ g.check (SourceFile.parse path source)) :
    v.location.PointsInto source := by
  unfold check at hv
  obtain ⟨r, hr, hv⟩ := List.mem_flatMap.1 hv
  obtain ⟨x, hx, rfl⟩ := List.mem_map.1 hv
  exact locate_pointsInto (Rule.isPlaced_of_mem_builtin (hg r hr) hx)

/-- Two violations on a line and one on a token, behind characters of two bytes. -/
theorem pointsInto_standard :
    let source : Text := "<?php\n/** é\n * @copyright */ 'é'; /*** x */ class A \x7b\x7d"
    (Registry.standard.check (SourceFile.parse "a.php" source)).map (·.location) =
        [⟨"a.php", 3, 23, 36, 9⟩, ⟨"a.php", 3, 1, 13, 0⟩, ⟨"a.php", 3, 1, 13, 0⟩] ∧
      ∀ v ∈ Registry.standard.check (SourceFile.parse "a.php" source),
        v.location.PointsInto source := by
  refine ⟨by decide +kernel, fun v hv => ?_⟩
  exact pointsInto_of_mem_check _ (fun r hr => (List.mem_filter.1 hr).1) _ _ v hv

end Registry

end DocLint
