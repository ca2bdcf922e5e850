import DocLint.Analysis.Basic
import DocLint.Proofs.Selection
import DocLint.Proofs.Spelling

/-!
# Reports and the order of the work

The paths of a plan may be given in any order and more than once, overlapping paths stand for a file
once, and the files may be checked in any order.

* `Violation.Precedes`, `Violation.ties`: the order of a report, and what has the same place in it.
* `Violation.unspelled`: a violation without the spelling of its path.
* `Plan.IgnoresSpelling`: no enabled rule tells spellings of one path apart; built-in rules never
  do.
* `violations_of_same_paths`, `analyze_of_perm`, `filter_ties_analyze`, `analyze_without_missing`:
  what a report does not depend on.
* `analyze_independent_of_order`: all of this for every plan and disk.
-/

namespace DocLint

/-! ## The order of violations -/

namespace Violation

instance : Std.TransCmp Violation.compare :=
  inferInstanceAs (Std.TransCmp
    (compareLex (compareOn fun v : Violation => Path.orderKey v.location.file)
      (compareLex (compareOn fun v : Violation => v.location.line)
        (compareLex (compareOn fun v : Violation => v.location.column)
          (compareOn fun v : Violation => Text.orderKey v.code)))))

/-- The first violation does not stand after the second in the order of file, line, column and
code. -/
def Precedes (a b : Violation) : Prop :=
  Path.order a.location.file b.location.file = .lt ∨
    Path.components a.location.file = Path.components b.location.file ∧
      (a.location.line < b.location.line ∨ a.location.line = b.location.line ∧
        (a.location.column < b.location.column ∨ a.location.column = b.location.column ∧
          (Ord.compare (Text.orderKey a.code) (Text.orderKey b.code)).isLE = true))

/-- The violations have the same file, line, column and code. -/
def ties (a b : Violation) : Bool :=
  Path.same a.location.file b.location.file && a.location.line == b.location.line &&
    a.location.column == b.location.column && a.code == b.code

theorem precedes_iff {a b : Violation} : a.Precedes b ↔ (a.compare b).isLE = true := by
  unfold Precedes Violation.compare
  rw [Ordering.isLE_then_iff_or, Ordering.isLE_then_iff_or, Ordering.isLE_then_iff_or,
    Nat.compare_eq_lt, Nat.compare_eq_lt, Nat.compare_eq_eq, Nat.compare_eq_eq,
    ← Path.order_eq_iff]
  exact Iff.rfl

theorem compare_eq_iff {a b : Violation} : a.compare b = .eq ↔ a.ties b = true := by
  unfold ties Violation.compare
  rw [Ordering.then_eq_eq, Ordering.then_eq_eq, Ordering.then_eq_eq, Nat.compare_eq_eq,
    Nat.compare_eq_eq, Std.compare_eq_iff_eq, Std.compare_eq_iff_eq, Path.orderKey_eq_iff,
    Text.orderKey_injective.eq_iff]
  simp [Path.same_iff, and_assoc]

theorem tiesWith_compare (a : Violation) : Sorting.tiesWith Violation.compare a = a.ties := by
  funext b
  rw [Bool.eq_iff_iff, Sorting.tiesWith_iff, compare_eq_iff]

/-- The violation with the components of its path in place of the spelling. -/
def unspelled (v : Violation) : List Component × Violation :=
  (Path.components v.location.file, { v with location := { v.location with file := [] } })

/-- `Violation.compare` on violations without their spelling. -/
def compareUnspelled (a b : List Component × Violation) : Ordering :=
  (Ord.compare (a.1.map Component.orderKey) (b.1.map Component.orderKey)).then <|
  (Ord.compare a.2.location.line b.2.location.line).then <|
  (Ord.compare a.2.location.column b.2.location.column).then <|
  Ord.compare (Text.orderKey a.2.code) (Text.orderKey b.2.code)

/-- Sorting does not look at the spelling of paths. -/
theorem map_unspelled_mergeSort {vs ws : List Violation} (h : vs.map unspelled = ws.map unspelled) :
    (vs.mergeSort fun a b => (a.compare b).isLE).map unspelled =
      (ws.mergeSort fun a b => (a.compare b).isLE).map unspelled := by
  have hsort : ∀ vs : List Violation, (vs.mergeSort fun a b => (a.compare b).isLE).map unspelled =
      (vs.map unspelled).mergeSort fun a b => (compareUnspelled a b).isLE := by
    intro vs
    apply List.map_mergeSort
    intro a _ b _
    rfl
  rw [hsort, hsort, h]

end Violation

/-! ## Spellings in violations -/

/-- The findings of a built-in rule do not depend on the path of the file. -/
theorem Rule.findings_of_mem_builtin {r : Rule} (hr : r ∈ Rule.builtin) (x y source : Text) :
    r.findings (SourceFile.parse x source) = r.findings (SourceFile.parse y source) := by
  simp only [builtin, List.mem_cons, List.not_mem_nil, or_false] at hr
  rcases hr with rfl | rfl | rfl | rfl | rfl | rfl | rfl | rfl | rfl | rfl | rfl | rfl | rfl <;> rfl

namespace Registry

variable {g : Registry} {x y source : Text}

theorem file_locate (f : SourceFile) (z : Finding) : (locate f z).file = f.path := by
  unfold locate
  split <;> rfl

theorem file_of_mem_check {f : SourceFile} {v : Violation} (h : v ∈ g.check f) :
    v.location.file = f.path := by
  obtain ⟨r, _, hv⟩ := List.mem_flatMap.1 h
  obtain ⟨z, _, rfl⟩ := List.mem_map.1 hv
  exact file_locate f z

theorem unspelled_violation (h : Path.components x = Path.components y) (r : Rule) (z : Finding) :
    (g.violation (SourceFile.parse x source) r z).unspelled =
      (g.violation (SourceFile.parse y source) r z).unspelled := by
  unfold Violation.unspelled
  refine Prod.ext ?_ ?_
  · show Path.components (locate _ z).file = Path.components (locate _ z).file
    rw [file_locate, file_locate]
    exact h
  · unfold violation locate
    cases z.token <;> rfl

/-- Two spellings of a path give the same violations, up to the spelling, if no enabled rule tells
them apart. -/
theorem unspelled_check (h : Path.components x = Path.components y)
    (hrules : ∀ r ∈ g.enabledRules,
      r.findings (SourceFile.parse x source) = r.findings (SourceFile.parse y source)) :
    (g.check (SourceFile.parse x source)).map Violation.unspelled =
      (g.check (SourceFile.parse y source)).map Violation.unspelled := by
  unfold check
  rw [List.map_flatMap, List.map_flatMap]
  apply List.flatMap_congr
  intro r hr
  rw [hrules r hr, List.map_map, List.map_map]
  apply List.map_congr_left
  intro z _
  exact unspelled_violation h r z

end Registry

/-! ## The files of a plan -/

namespace Plan

variable {p : Plan} {d : Disk} {x y : Text}

/-- No enabled rule tells two spellings of a path apart under which a file is found. -/
def IgnoresSpelling (p : Plan) (d : Disk) : Prop :=
  ∀ r ∈ p.registry.enabledRules, ∀ x ∈ p.found d, ∀ y ∈ p.found d, Path.same x y = true →
    ∀ source, r.findings (SourceFile.parse x source) = r.findings (SourceFile.parse y source)

theorem ignoresSpelling_of_builtin (h : ∀ r ∈ p.registry.enabledRules, r ∈ Rule.builtin) :
    p.IgnoresSpelling d :=
  fun r hr x _ y _ _ source => Rule.findings_of_mem_builtin (h r hr) x y source

theorem mem_found_of_same_paths {paths : List Text} (h : ∀ x, x ∈ paths ↔ x ∈ p.paths) (x : Text) :
    x ∈ { p with paths := paths }.found d ↔ x ∈ p.found d := by
  have hdiscover : ∀ path, { p with paths := paths }.discover d path = p.discover d path :=
    fun _ => rfl
  unfold found
  simp only [List.mem_flatMap, hdiscover]
  constructor
  · rintro ⟨path, hpath, hx⟩
    exact ⟨path, (h path).1 hpath, hx⟩
  · rintro ⟨path, hpath, hx⟩
    exact ⟨path, (h path).2 hpath, hx⟩

theorem file_of_mem_checkFile {vs : List Violation} (h : p.checkFile d x = .ok vs) {v : Violation}
    (hv : v ∈ vs) : v.location.file = x := by
  unfold checkFile at h
  split at h
  · cases h
    exact Registry.file_of_mem_check hv
  · cases h

/-- The violations of different files never tie. -/
theorem apart_of_order {vs ws : List Violation} (h : Path.order x y = .lt)
    (hx : p.checkFile d x = .ok vs) (hy : p.checkFile d y = .ok ws) :
    Sorting.Apart Violation.compare vs ws := by
  intro v hv w hw heq
  rw [Violation.compare_eq_iff] at heq
  have hsame : Path.same v.location.file w.location.file = true := by
    simp only [Violation.ties, Bool.and_eq_true] at heq
    exact heq.1.1.1
  rw [file_of_mem_checkFile hx hv, file_of_mem_checkFile hy hw, Path.same_iff,
    ← Path.order_eq_iff, h] at hsame
  cases hsame

theorem ok_of_toOption {ε α : Type} {e : Except ε α} {a : α} (h : e.toOption = some a) :
    e = .ok a := by
  cases e with
  | error _ => cases h
  | ok _ =>
      cases h
      rfl

theorem pairwise_outcomes (p : Plan) (d : Disk) :
    (p.outcomes d).Pairwise (Sorting.Apart Violation.compare) := by
  refine List.pairwise_filterMap.2 ((Path.pairwise_distinct (p.found d)).imp ?_)
  intro x y hlt vs hvs ws hws
  exact apart_of_order hlt (ok_of_toOption hvs) (ok_of_toOption hws)

/-! ## What a report does not depend on -/

/-- The outcomes may be gathered in any order. -/
theorem analyze_of_perm {outcomes : List (List Violation)} (h : outcomes.Perm (p.outcomes d)) :
    Report.sort { violations := outcomes.flatten
                  filesChecked := outcomes.length
                  errors := p.missing d ++ p.unreadable d } = p.analyze d := by
  have hsorted := Sorting.mergeSort_flatten_perm h (pairwise_outcomes p d)
  unfold analyze Report.sort
  simp only [hsorted, h.length_eq]

theorem precedes_analyze (p : Plan) (d : Disk) :
    (p.analyze d).violations.Pairwise Violation.Precedes :=
  (Sorting.pairwise_isLE _).imp Violation.precedes_iff.2

/-- Violations of a file that tie are reported in the order in which its rules give them. -/
theorem filter_ties_analyze (hx : x ∈ p.files d) {vs : List Violation}
    (hvs : p.checkFile d x = .ok vs) {v : Violation} (hv : v ∈ vs) :
    (p.analyze d).violations.filter v.ties = vs.filter v.ties := by
  have hmem : vs ∈ p.outcomes d := by
    refine List.mem_filterMap.2 ⟨x, hx, ?_⟩
    rw [hvs]
    rfl
  rw [← Violation.tiesWith_compare]
  refine (Sorting.filter_mergeSort _ v).trans ?_
  exact Sorting.filter_flatten_of_mem (pairwise_outcomes p d) hmem hv

/-! ## The same paths in another order -/

/-- The source that a path is read as; empty if it cannot be read. -/
def sourceAt (d : Disk) (x : Text) : Text := Utf8.decode ((d.read x).toOption.getD [])

theorem outcomes_eq_map (hread : ∀ x ∈ p.found d, ∃ b, d.read x = .ok b) :
    p.outcomes d = (p.files d).map fun x => p.checkSource x (sourceAt d x) := by
  have hfile : ∀ x ∈ p.files d,
      (p.checkFile d x).toOption = some (p.checkSource x (sourceAt d x)) := by
    intro x hx
    obtain ⟨b, hb⟩ := hread x (Path.mem_of_mem_distinct hx)
    unfold checkFile sourceAt
    rw [hb]
    rfl
  unfold outcomes
  rw [List.filterMap_congr hfile]
  exact congrFun List.filterMap_eq_map (p.files d)

theorem map_eq_of_map_eq {α β γ : Type} {key : α → β} {f : α → γ} {l l' : List α}
    (hkey : l.map key = l'.map key) (h : ∀ a ∈ l, ∀ b ∈ l', key a = key b → f a = f b) :
    l.map f = l'.map f := by
  induction l generalizing l' with
  | nil =>
      rw [List.map_nil, List.nil_eq, List.map_eq_nil_iff] at hkey
      rw [hkey]
  | cons a l ih =>
      cases l' with
      | nil => cases hkey
      | cons b l' =>
          obtain ⟨hhead, htail⟩ := List.cons.inj hkey
          rw [List.map_cons, List.map_cons, h a List.mem_cons_self b List.mem_cons_self hhead,
            ih htail fun a ha b hb => h a (List.mem_cons_of_mem _ ha) b (List.mem_cons_of_mem _ hb)]

section SamePaths

variable {paths : List Text} (hpaths : ∀ x, x ∈ paths ↔ x ∈ p.paths)
  (hread : ∀ x ∈ p.found d, ∃ b, d.read x = .ok b)

include hpaths

theorem components_files :
    ({ p with paths := paths }.files d).map Path.components =
      (p.files d).map Path.components :=
  Path.components_distinct (mem_found_of_same_paths hpaths)

include hread

theorem outcomes_of_same_paths :
    { p with paths := paths }.outcomes d =
      ({ p with paths := paths }.files d).map fun x => p.checkSource x (sourceAt d x) :=
  outcomes_eq_map fun x hx => hread x ((mem_found_of_same_paths hpaths x).1 hx)

/-- The number of files depends on the set of paths alone. -/
theorem filesChecked_of_same_paths :
    ({ p with paths := paths }.analyze d).filesChecked = (p.analyze d).filesChecked := by
  have hlength := congrArg List.length (components_files (d := d) hpaths)
  rw [List.length_map, List.length_map] at hlength
  show ({ p with paths := paths }.outcomes d).length = (p.outcomes d).length
  rw [outcomes_of_same_paths hpaths hread, outcomes_eq_map hread, List.length_map,
    List.length_map, hlength]

/-- The violations depend on the set of paths alone, up to the spelling. -/
theorem violations_of_same_paths (hrules : p.IgnoresSpelling d) :
    ({ p with paths := paths }.analyze d).violations.map Violation.unspelled =
      (p.analyze d).violations.map Violation.unspelled := by
  apply Violation.map_unspelled_mergeSort
  rw [outcomes_of_same_paths hpaths hread, outcomes_eq_map hread, List.map_flatten,
    List.map_flatten, List.map_map, List.map_map]
  congr 1
  refine map_eq_of_map_eq (components_files hpaths) ?_
  intro x hx y hy hsame
  have hx := (mem_found_of_same_paths hpaths x).1 (Path.mem_of_mem_distinct hx)
  have hy := Path.mem_of_mem_distinct hy
  obtain ⟨b, hb⟩ := hread x hx
  obtain ⟨b', hb'⟩ := hread y hy
  have hsource : sourceAt d x = sourceAt d y := by
    unfold sourceAt
    rw [hb, hb', Disk.read_eq_of_same hsame hb hb']
  show (p.checkSource x (sourceAt d x)).map Violation.unspelled =
    (p.checkSource y (sourceAt d y)).map Violation.unspelled
  rw [hsource]
  exact Registry.unspelled_check hsame fun r hr =>
    hrules r hr x hx y hy (Path.same_iff.2 hsame) (sourceAt d y)

end SamePaths

/-! ## Paths that lead nowhere -/

/-- The path leads to a file or a directory. -/
def leads (d : Disk) (x : Text) : Bool := d.isFile x || d.isDir x

theorem discover_cases (p : Plan) (d : Disk) (x : Text) :
    (leads d x = true ∧ ∃ sightings, p.discover d x = .ok sightings) ∨
      (leads d x = false ∧ p.discover d x = .error (.notFound x)) := by
  unfold leads Disk.isFile Disk.isDir discover
  cases d.find x with
  | error e => exact Or.inr ⟨rfl, rfl⟩
  | ok t =>
      cases t with
      | file b => exact Or.inl ⟨rfl, _, rfl⟩
      | dir es => exact Or.inl ⟨rfl, _, rfl⟩

theorem missing_eq (p : Plan) (d : Disk) :
    p.missing d = (p.paths.filter fun x => !leads d x).map fun x =>
      ⟨x, (Problem.notFound x).message⟩ := by
  unfold missing
  induction p.paths with
  | nil => rfl
  | cons x paths ih =>
      rw [List.filterMap_cons, ih, List.filter_cons]
      rcases discover_cases p d x with ⟨hleads, sightings, h⟩ | ⟨hleads, h⟩
      · rw [h, hleads]
        rfl
      · rw [h, hleads]
        rfl

/-- Paths that lead nowhere stand for no file. -/
theorem found_of_leads (p : Plan) (d : Disk) :
    { p with paths := p.paths.filter (leads d) }.found d = p.found d := by
  refine (flatMap_filter (q := fun _ => true) ?_).trans (List.filter_eq_self.2 fun _ _ => rfl)
  intro x _ y hy
  rcases discover_cases p d x with ⟨hleads, _⟩ | ⟨_, h⟩
  · exact hleads.symm
  · change y ∈ ((p.discover d x).toOption.getD []).filterMap Sighting.found? at hy
    rw [h] at hy
    cases hy

theorem unreadable_eq_nil (hread : ∀ x ∈ p.found d, ∃ b, d.read x = .ok b) :
    p.unreadable d = [] := by
  refine List.filterMap_eq_nil_iff.2 fun x hx => ?_
  obtain ⟨b, hb⟩ := hread x (Path.mem_of_mem_distinct hx)
  rw [hb]

/-- A path that leads nowhere is an error, and the report is otherwise that of the other paths. -/
theorem analyze_without_missing (hread : ∀ x ∈ p.found d, ∃ b, d.read x = .ok b) :
    p.analyze d = { { p with paths := p.paths.filter (leads d) }.analyze d with
      errors := (p.paths.filter fun x => !leads d x).map fun x =>
        ⟨x, (Problem.notFound x).message⟩ } := by
  have hfiles : { p with paths := p.paths.filter (leads d) }.files d = p.files d :=
    congrArg Path.distinct (found_of_leads p d)
  have houtcomes : { p with paths := p.paths.filter (leads d) }.outcomes d = p.outcomes d := by
    unfold outcomes
    rw [hfiles]
    rfl
  unfold analyze Report.sort
  rw [houtcomes, unreadable_eq_nil hread, missing_eq p d, List.append_nil]

/-- **A report does not depend on how the work is ordered.** Let every file that the paths of a plan
stand for be readable. Then another list of the same paths gives the same number of files and the
same files, and the same violations in the same order, up to the spelling of paths; here the enabled
rules must not tell spellings of one path apart, which no built-in rule does. The outcomes of the
files may be gathered in any order. The violations stand in the order of file, line, column and
code, and those of a file that tie stand as its rules give them. A path that leads nowhere is one
error in its place among the paths, and the report is otherwise that of the other paths. -/
theorem analyze_independent_of_order (p : Plan) (d : Disk)
    (hread : ∀ x ∈ p.found d, ∃ b, d.read x = .ok b) :
    (∀ paths : List Text, (∀ x, x ∈ paths ↔ x ∈ p.paths) →
      ({ p with paths := paths }.analyze d).filesChecked = (p.analyze d).filesChecked ∧
      ({ p with paths := paths }.files d).map Path.components =
        (p.files d).map Path.components ∧
      (p.IgnoresSpelling d →
        ({ p with paths := paths }.analyze d).violations.map Violation.unspelled =
          (p.analyze d).violations.map Violation.unspelled)) ∧
    ((∀ r ∈ p.registry.enabledRules, r ∈ Rule.builtin) → p.IgnoresSpelling d) ∧
    (∀ outcomes : List (List Violation), outcomes.Perm (p.outcomes d) →
      Report.sort { violations := outcomes.flatten
                    filesChecked := outcomes.length
                    errors := p.missing d ++ p.unreadable d } = p.analyze d) ∧
    (p.analyze d).violations.Pairwise Violation.Precedes ∧
    (∀ x ∈ p.files d, ∀ vs, p.checkFile d x = .ok vs → ∀ v ∈ vs,
      (p.analyze d).violations.filter v.ties = vs.filter v.ties) ∧
    p.analyze d = { { p with paths := p.paths.filter (leads d) }.analyze d with
      errors := (p.paths.filter fun x => !leads d x).map fun x =>
        ⟨x, "Path not found: ".toList ++ x⟩ } := by
  refine ⟨?_, ignoresSpelling_of_builtin, fun _ => analyze_of_perm, precedes_analyze p d,
    fun _ hx _ hvs _ hv => filter_ties_analyze hx hvs hv, analyze_without_missing hread⟩
  intro paths hpaths
  exact ⟨filesChecked_of_same_paths hpaths hread, components_files hpaths,
    violations_of_same_paths hpaths hread⟩

/-- A file that two paths stand for in two spellings, and a path that leads nowhere. -/
theorem analyze_independent_of_order_overlapping :
    let d : Disk := { tree := .dir [("lib", .dir [("a.php", .file [60, 63, 112, 104, 112])])] }
    let p : Plan := { paths := ["lib//", "lib/a.php", "none"]
                      sieve := { extensions := ["php"] }
                      registry := Registry.standard }
    let q : Plan := { p with paths := ["none", "lib/a.php", "lib//", "lib/a.php"] }
    (p.found d = (["lib//a.php", "lib/a.php"] : List Text) ∧
      (∀ x ∈ p.found d, ∃ b, d.read x = .ok b) ∧ ∀ x, x ∈ q.paths ↔ x ∈ p.paths) ∧
    (q.analyze d).filesChecked = (p.analyze d).filesChecked ∧
    (q.analyze d).violations.map Violation.unspelled =
      (p.analyze d).violations.map Violation.unspelled ∧
    (p.analyze d).errors = [⟨"none", "Path not found: none"⟩] := by
  intro d p q
  have hfound : p.found d = (["lib//a.php", "lib/a.php"] : List Text) := by decide +kernel
  have hread : ∀ x ∈ p.found d, ∃ b, d.read x = .ok b := by
    rw [hfound]
    intro x hx
    simp only [List.mem_cons, List.not_mem_nil, or_false] at hx
    rcases hx with rfl | rfl <;> exact ⟨[60, 63, 112, 104, 112], rfl⟩
  have hpaths : ∀ x, x ∈ q.paths ↔ x ∈ p.paths := by
    intro x
    change x ∈ (["none", "lib/a.php", "lib//", "lib/a.php"] : List Text) ↔
      x ∈ (["lib//", "lib/a.php", "none"] : List Text)
    simp only [List.mem_cons, List.not_mem_nil, or_false]
    constructor
    · rintro (h | h | h | h)
      exacts [.inr (.inr h), .inr (.inl h), .inl h, .inr (.inl h)]
    · rintro (h | h | h)
      exacts [.inr (.inr (.inl h)), .inr (.inl h), .inl h]
  obtain ⟨hsame, hbuiltin, _, _, _, hmissing⟩ := analyze_independent_of_order p d hread
  obtain ⟨hcount, _, hviolations⟩ := hsame q.paths hpaths
  refine ⟨⟨hfound, hread, hpaths⟩, hcount, ?_, ?_⟩
  · exact hviolations (hbuiltin fun r hr => (List.mem_filter.1 hr).1)
  · rw [hmissing]
    decide +kernel

end Plan

end DocLint
