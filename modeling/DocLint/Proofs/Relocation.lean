import DocLint.Proofs.CheckedOnce

/-!
# The same files below another path

A plan with one path works on names below it: which files there are, what they hold and what is
reported of them. The path itself stands in front of the names and changes neither the order nor the
violations.

* `Path.orderNames`, `order_joinAll`: paths with the same beginning are ordered by their names.
* `Violation.inFile`, `check_parse`: the path of a file is only carried along.
* `files_eq`, `violations_eq`: files and violations of a plan in terms of names.
* `SameWork`, `SameWork.report`: two plans that find the same names with the same contents report
  the same, up to their paths.
-/

namespace DocLint

open Text

/-! ## The order of names -/

namespace Path

/-- Compares names as paths are compared. -/
def orderNames (a b : List Text) : Ordering :=
  compare ((a.map Component.name).map Component.orderKey) ((b.map .name).map Component.orderKey)

theorem compare_append {α : Type} [Ord α] [Std.ReflOrd α] (front a b : List α) :
    compare (front ++ a) (front ++ b) = compare a b := by
  induction front with
  | nil => rfl
  | cons x front ih =>
      rw [List.cons_append, List.cons_append, List.compare_cons_cons, Std.compare_self, ih]
      rfl

/-- Paths with the same beginning are ordered by the names behind it. -/
theorem order_joinAll {x : Text} (hx : x ≠ []) {a b : List Text} (ha : ∀ n ∈ a, isName n = true)
    (hb : ∀ n ∈ b, isName n = true) : order (joinAll x a) (joinAll x b) = orderNames a b := by
  unfold order orderKey orderNames
  rw [components_joinAll hx ha, components_joinAll hx hb, List.map_append, List.map_append]
  exact compare_append _ _ _

/-- Paths of which no two are the same are only sorted. -/
theorem distinct_of_nodup {ps : List Text} (h : (ps.map components).Nodup) :
    distinct ps = ps.mergeSort fun p q => (order p q).isLE := by
  have hfirsts : ∀ (ps : List Text) (p : Text), ((p :: ps).map components).Nodup →
      firstsOfRuns p ps = p :: ps := by
    intro ps
    induction ps with
    | nil => exact fun _ _ => rfl
    | cons q ps ih =>
        intro p hp
        rw [List.map_cons, List.nodup_cons] at hp
        have hne : ¬ same p q = true := by
          rw [same_iff]
          intro heq
          exact hp.1 (heq ▸ List.mem_map_of_mem List.mem_cons_self)
        rw [firstsOfRuns, if_neg hne, ih q hp.2]
  have hperm := List.mergeSort_perm ps fun p q => (order p q).isLE
  have hnodup := (hperm.map components).nodup_iff.2 h
  have horder : (fun p q => (compare (orderKey p) (orderKey q)).isLE) =
      fun p q => (order p q).isLE := rfl
  unfold distinct
  rw [horder]
  cases hsorted : ps.mergeSort fun p q => (order p q).isLE with
  | nil => rfl
  | cons q qs =>
      rw [hsorted] at hnodup
      exact hfirsts qs q hnodup

end Path

/-! ## The path of a file in its violations -/

/-- The violation in another file. -/
def Violation.inFile (v : Violation) (path : Text) : Violation :=
  { v with location := { v.location with file := path } }

/-- Built-in rules carry the path of a file along and do nothing else with it. -/
theorem Registry.check_parse {g : Registry} (hrules : ∀ r ∈ g.enabledRules, r ∈ Rule.builtin)
    (x source : Text) : g.check (SourceFile.parse x source) =
      (g.check (SourceFile.parse [] source)).map (·.inFile x) := by
  have hviolation : ∀ (r : Rule) (z : Finding),
      g.violation (SourceFile.parse x source) r z =
        (g.violation (SourceFile.parse [] source) r z).inFile x := by
    intro r z
    unfold violation locate Violation.inFile
    cases z.token <;> rfl
  unfold check
  rw [List.map_flatMap]
  apply List.flatMap_congr
  intro r hr
  rw [Rule.findings_of_mem_builtin (hrules r hr) x [] source, List.map_map]
  apply List.map_congr_left
  intro z _
  exact hviolation r z

/-! ## One tree from two working directories -/

namespace Disk

variable {d e : Disk} {x y : Text}

/-- Neither a path nor a path to what lies below it is too long. -/
def Fits (d : Disk) (x : Text) : Prop :=
  utf8Length x ≤ pathLimit ∧ ∀ t, d.find x = .ok t → ∀ ns, (t.get? ns).isSome = true →
    utf8Length (Path.joinAll x ns) ≤ pathLimit

theorem find_eq (htree : d.tree = e.tree) (h : d.resolve x = e.resolve y) :
    d.find x = e.find y := by
  unfold find
  rw [htree, h]

theorem read_eq (htree : d.tree = e.tree) (h : d.resolve x = e.resolve y) :
    d.read x = e.read y := by
  unfold read
  rw [find_eq htree h]

/-- Where an absolute path leads does not depend on the working directory. -/
theorem resolve_of_isAbsolute (htree : d.tree = e.tree) (hx : Path.isAbsolute x = true) :
    d.resolve x = e.resolve x := by
  unfold resolve
  rw [htree, if_pos hx, if_pos hx]

end Disk

/-! ## Plans with one path -/

namespace Plan

variable {p : Plan} {d : Disk} {x : Text}

/-- The names in order. -/
def sortNames (names : List (List Text)) : List (List Text) :=
  names.mergeSort fun a b => (Path.orderNames a b).isLE

/-- What is read of the file with these names below a path. -/
def contentAt (d : Disk) (x : Text) (ns : List Text) : Option Bytes :=
  (d.read (Path.joinAll x ns)).toOption

/-- The violation in the file with its names below a path. -/
def placed (x : Text) (v : List Text × Violation) : Violation := v.2.inFile (Path.joinAll x v.1)

/-- Compares violations below a path as those with the path. -/
def compareBelow (a b : List Text × Violation) : Ordering :=
  (Path.orderNames a.1 b.1).then <|
  (Ord.compare a.2.location.line b.2.location.line).then <|
  (Ord.compare a.2.location.column b.2.location.column).then <|
  Ord.compare (Text.orderKey a.2.code) (Text.orderKey b.2.code)

/-- The violations of files, by their names and contents. -/
def violationsBelow (g : Registry) (content : List Text → Option Bytes)
    (names : List (List Text)) : List (List Text × Violation) :=
  names.flatMap fun ns => ((content ns).map fun b =>
    (g.check (SourceFile.parse [] (Utf8.decode b))).map (ns, ·)).getD []

theorem nodup_names (hd : d.tree.isProper = true) (p : Plan) (x : Text) : (p.names d x).Nodup := by
  unfold names
  cases hfind : d.find x with
  | error e => exact List.nodup_nil
  | ok t =>
      cases t with
      | file b => exact List.nodup_singleton _
      | dir es =>
          obtain ⟨there, _, hget⟩ := Disk.exists_of_find hfind
          exact (Tree.nodup_files (Tree.isProper_of_get? hd hget).1).filter _

theorem isName_of_mem_names (hd : d.tree.isProper = true) {ns : List Text} (h : ns ∈ p.names d x) :
    ∀ n ∈ ns, isName n = true := by
  obtain ⟨_, _, _, _, hnames⟩ := place_of_mem_names hd h
  exact hnames

theorem ne_nil_of_mem_names (hd : d.tree.isProper = true) {ns : List Text} (h : ns ∈ p.names d x) :
    x ≠ [] := by
  obtain ⟨_, _, hthere, _⟩ := place_of_mem_names hd h
  exact (Disk.resolve_eq_ok_iff.1 hthere).2.1

theorem mem_sortNames {names : List (List Text)} {ns : List Text} :
    ns ∈ sortNames names ↔ ns ∈ names :=
  (List.mergeSort_perm names _).mem_iff

theorem flatten_filterMap {α β : Type} (f : α → Option (List β)) (l : List α) :
    (l.filterMap f).flatten = l.flatMap fun a => (f a).getD [] := by
  induction l with
  | nil => rfl
  | cons a l ih =>
      rw [List.filterMap_cons, List.flatMap_cons, ← ih]
      cases f a <;> rfl

section OnePath

variable (hd : d.tree.isProper = true) (hpaths : p.paths = [x])

include hd hpaths

/-- The files of a plan with one path are the names that it finds, in order. -/
theorem files_eq : p.files d = (sortNames (p.names d x)).map (Path.joinAll x) := by
  have hfound : p.found d = (p.names d x).map (Path.joinAll x) := by
    rw [found_eq, hpaths, List.flatMap_singleton]
  have hnodup : ((p.found d).map Path.components).Nodup := by
    rw [hfound, List.map_map]
    refine List.Nodup.map_on ?_ (nodup_names hd p x)
    intro a ha b hb heq
    exact Path.components_joinAll_inj (ne_nil_of_mem_names hd ha) (isName_of_mem_names hd ha)
      (isName_of_mem_names hd hb) heq
  unfold files sortNames
  rw [Path.distinct_of_nodup hnodup, hfound]
  refine (List.map_mergeSort fun a ha b hb => ?_).symm
  rw [Path.order_joinAll (ne_nil_of_mem_names hd ha) (isName_of_mem_names hd ha)
    (isName_of_mem_names hd hb)]

theorem checked_eq : p.checked d = ((sortNames (p.names d x)).filter fun ns =>
    (contentAt d x ns).isSome).map (Path.joinAll x) := by
  unfold checked
  rw [files_eq hd hpaths, List.filter_map]
  rfl

theorem filesChecked_eq_names : (p.analyze d).filesChecked =
    ((sortNames (p.names d x)).filter fun ns => (contentAt d x ns).isSome).length := by
  rw [filesChecked_eq, checked_eq hd hpaths, List.length_map]

/-- Nothing goes wrong if the path leads somewhere and every file below it can be read. -/
theorem errors_eq_nil_iff : (p.analyze d).errors = [] ↔
    leads d x = true ∧ ∀ ns ∈ p.names d x, (contentAt d x ns).isSome = true := by
  have hmissing : p.missing d = [] ↔ leads d x = true := by
    rw [missing_eq, hpaths, List.map_eq_nil_iff, List.filter_eq_nil_iff]
    simp
  have hunreadable : p.unreadable d = [] ↔
      ∀ ns ∈ p.names d x, (contentAt d x ns).isSome = true := by
    unfold unreadable
    rw [List.filterMap_eq_nil_iff, files_eq hd hpaths]
    simp only [List.forall_mem_map, mem_sortNames]
    refine forall₂_congr fun ns _ => ?_
    unfold contentAt
    cases d.read (Path.joinAll x ns) with
    | error e => simp [Except.toOption]
    | ok b => simp [Except.toOption]
  show p.missing d ++ p.unreadable d = [] ↔ _
  rw [List.append_eq_nil_iff, hmissing, hunreadable]

variable (hrules : ∀ r ∈ p.registry.enabledRules, r ∈ Rule.builtin)

include hrules

/-- The violations of a plan with one path are those of the names that it finds. -/
theorem violations_eq : (p.analyze d).violations =
    ((violationsBelow p.registry (contentAt d x) (sortNames (p.names d x))).mergeSort
      fun a b => (compareBelow a b).isLE).map (placed x) := by
  have houtcomes : (p.outcomes d).flatten =
      (violationsBelow p.registry (contentAt d x) (sortNames (p.names d x))).map (placed x) := by
    unfold outcomes violationsBelow
    rw [flatten_filterMap, files_eq hd hpaths, List.flatMap_map, List.map_flatMap]
    apply List.flatMap_congr
    intro ns _
    unfold checkFile contentAt
    cases d.read (Path.joinAll x ns) with
    | error e => rfl
    | ok b =>
        show p.registry.check _ = List.map (placed x) (List.map _ _)
        rw [Registry.check_parse hrules, List.map_map]
        rfl
  have hname : ∀ v ∈ violationsBelow p.registry (contentAt d x) (sortNames (p.names d x)),
      v.1 ∈ p.names d x := by
    intro v hv
    obtain ⟨ns, hns, hv⟩ := List.mem_flatMap.1 hv
    cases hcontent : contentAt d x ns with
    | none =>
        rw [hcontent] at hv
        cases hv
    | some b =>
        rw [hcontent] at hv
        obtain ⟨w, _, rfl⟩ := List.mem_map.1 hv
        exact mem_sortNames.1 hns
  show ((p.outcomes d).flatten.mergeSort fun a b => (a.compare b).isLE) = _
  rw [houtcomes]
  refine (List.map_mergeSort fun a ha b hb => ?_).symm
  have horder := Path.order_joinAll (ne_nil_of_mem_names hd (hname a ha))
    (isName_of_mem_names hd (hname a ha)) (isName_of_mem_names hd (hname b hb))
  unfold compareBelow
  rw [← horder]
  rfl

end OnePath

/-! ## Two plans -/

/-- Two plans for one tree, with one path each, find the same names below their paths, leading to
the same places, and check the same rules, all of them built in. -/
structure SameWork (p q : Plan) (d e : Disk) (x y : Text) : Prop where
  paths : p.paths = [x] ∧ q.paths = [y]
  proper : d.tree.isProper = true
  tree_eq : d.tree = e.tree
  registry_eq : q.registry = p.registry
  rules : ∀ r ∈ p.registry.enabledRules, r ∈ Rule.builtin
  leads_eq : leads d x = leads e y
  names_eq : p.names d x = q.names e y
  place_eq : ∀ ns ∈ p.names d x, d.resolve (Path.joinAll x ns) = e.resolve (Path.joinAll y ns)

/-- Reports that agree up to two paths that stand in front of the names of files. -/
structure SameReport (x y : Text) (r s : Report) : Prop where
  filesChecked_eq : r.filesChecked = s.filesChecked
  violations_eq : ∃ vs : List (List Text × Violation),
    r.violations = vs.map (placed x) ∧ s.violations = vs.map (placed y)
  errors_iff : r.errors = [] ↔ s.errors = []

theorem SameReport.hasErrors_eq {x y : Text} {r s : Report} (h : SameReport x y r s) :
    r.hasErrors = s.hasErrors := by
  obtain ⟨vs, hr, hs⟩ := h.violations_eq
  unfold Report.hasErrors
  rw [hr, hs, List.any_map, List.any_map]
  rfl

namespace SameWork

variable {p q : Plan} {d e : Disk} {x y : Text} (h : SameWork p q d e x y)

include h

theorem proper_right : e.tree.isProper = true := h.tree_eq ▸ h.proper

theorem content_eq {ns : List Text} (hns : ns ∈ p.names d x) :
    contentAt d x ns = contentAt e y ns := by
  unfold contentAt
  rw [Disk.read_eq h.tree_eq (h.place_eq ns hns)]

/-- They check the same files of the tree. -/
theorem files : ∃ names : List (List Text), p.files d = names.map (Path.joinAll x) ∧
    q.files e = names.map (Path.joinAll y) ∧
    ∀ ns ∈ names, d.resolve (Path.joinAll x ns) = e.resolve (Path.joinAll y ns) := by
  refine ⟨sortNames (p.names d x), files_eq h.proper h.paths.1, ?_, fun ns hns => ?_⟩
  · rw [h.names_eq]
    exact files_eq h.proper_right h.paths.2
  · exact h.place_eq ns (mem_sortNames.1 hns)

theorem violationsBelow_eq :
    violationsBelow p.registry (contentAt d x) (sortNames (p.names d x)) =
      violationsBelow q.registry (contentAt e y) (sortNames (q.names e y)) := by
  unfold violationsBelow
  rw [h.registry_eq, ← h.names_eq]
  apply List.flatMap_congr
  intro ns hns
  rw [h.content_eq (mem_sortNames.1 hns)]

/-- They report the same, up to their paths. -/
theorem report : SameReport x y (p.analyze d) (q.analyze e) where
  filesChecked_eq := by
    rw [filesChecked_eq_names h.proper h.paths.1, filesChecked_eq_names h.proper_right h.paths.2,
      ← h.names_eq]
    refine congrArg List.length (List.filter_congr fun ns hns => ?_)
    rw [h.content_eq (mem_sortNames.1 hns)]
  violations_eq := by
    refine ⟨_, violations_eq h.proper h.paths.1 h.rules, ?_⟩
    rw [h.violationsBelow_eq]
    exact violations_eq h.proper_right h.paths.2 (h.registry_eq ▸ h.rules)
  errors_iff := by
    rw [errors_eq_nil_iff h.proper h.paths.1, errors_eq_nil_iff h.proper_right h.paths.2,
      h.leads_eq, ← h.names_eq]
    refine and_congr_right fun _ => forall₂_congr fun ns hns => ?_
    rw [h.content_eq hns]

end SameWork

end Plan

/-! ## The same place under two paths -/

namespace Sieve

variable {s : Sieve}

/-- Every pattern is the bare name of a directory. -/
def IsBare (s : Sieve) : Prop := ∀ x ∈ s.excludes, ∃ n, x = .name n

/-- Bare names are looked for below the root of a walk. -/
theorem leavesOut_of_isBare (h : s.IsBare) (path path' : Text) (below : List Text) (isDir : Bool) :
    s.leavesOut path below isDir = s.leavesOut path' below isDir := by
  unfold leavesOut
  rw [Bool.eq_iff_iff, List.any_eq_true, List.any_eq_true]
  refine exists_congr fun x => and_congr_right fun hx => ?_
  obtain ⟨n, rfl⟩ := h x hx
  exact Iff.rfl

/-- With bare names a walk goes the same way below any path, if no path on the way is too long. -/
theorem takes_eq (h : s.IsBare) {path path' : Text} {below names : List Text}
    (hpath : ∀ m, m <+: names → utf8Length (Path.joinAll path m) ≤ Disk.pathLimit)
    (hpath' : ∀ m, m <+: names → utf8Length (Path.joinAll path' m) ≤ Disk.pathLimit) :
    s.takes path below names = s.takes path' below names := by
  induction names generalizing path path' below with
  | nil => rw [takes, takes, leavesOut_of_isBare h path path']
  | cons n names ih =>
      have hshort := Nat.not_lt.2 (hpath [] List.nil_prefix)
      have hshort' := Nat.not_lt.2 (hpath' [] List.nil_prefix)
      rw [Path.joinAll_nil] at hshort hshort'
      rw [takes, takes, leavesOut_of_isBare h path path', decide_eq_false hshort,
        decide_eq_false hshort', ih (fun m hm => ?_) fun m hm => ?_]
      · exact hpath (n :: m) (List.cons_prefix_cons.2 ⟨rfl, hm⟩)
      · exact hpath' (n :: m) (List.cons_prefix_cons.2 ⟨rfl, hm⟩)

end Sieve

theorem Path.isAbsolute_joinAll {x : Text} (hx : x ≠ []) {names : List Text}
    (h : ∀ n ∈ names, isName n = true) : isAbsolute (joinAll x names) = isAbsolute x := by
  induction names generalizing x with
  | nil => rfl
  | cons n names ih =>
      have hn := isAbsolute_of_isName (h n List.mem_cons_self)
      rw [joinAll_cons, ih (join_ne_nil hx hn) fun m hm => h m (List.mem_cons_of_mem n hm),
        isAbsolute_join hx hn]

namespace Plan

variable {p q : Plan} {d e : Disk} {x y : Text}

theorem leads_eq_of_find (h : d.find x = e.find y) : leads d x = leads e y := by
  unfold leads Disk.isFile Disk.isDir
  rw [h]

/-- With bare names the files found below a path go by where it leads. -/
theorem names_eq_of_resolve (hd : d.tree.isProper = true) (htree : d.tree = e.tree)
    (h : d.resolve x = e.resolve y) (hsieve : q.sieve = p.sieve) (hbare : p.sieve.IsBare)
    (hx : d.Fits x) (hy : e.Fits y) : p.names d x = q.names e y := by
  have hfind := Disk.find_eq htree h
  unfold names
  rw [← hfind, hsieve]
  cases ht : d.find x with
  | error _ => rfl
  | ok t =>
      cases t with
      | file _ => rfl
      | dir es =>
          refine List.filter_congr fun ns hns => ?_
          obtain ⟨n, ms, rfl⟩ := Tree.exists_cons_of_mem_names hns
          obtain ⟨there, _, hget⟩ := Disk.exists_of_find ht
          obtain ⟨b, hb⟩ := (Tree.mem_names_iff (Tree.isProper_of_get? hd hget).1).1 hns
          -- the directories on the way to a file are entries of the tree, so their paths fit
          have hway : ∀ m, m <+: ms → ((Tree.dir es).get? (n :: m)).isSome = true := by
            rintro m ⟨rest, rfl⟩
            rw [← List.cons_append, Tree.get?_append] at hb
            exact Option.isSome_of_isSome_bind (by rw [hb]; rfl)
          exact Sieve.takes_eq hbare (fun m hm => hx.2 _ ht (n :: m) (hway m hm))
            fun m hm => hy.2 _ (hfind ▸ ht) (n :: m) (hway m hm)

/-- Plans do the same work below two paths that lead to the same place. -/
theorem sameWork_of_resolve (hpaths : p.paths = [x] ∧ q.paths = [y])
    (hd : d.tree.isProper = true) (htree : d.tree = e.tree) (h : d.resolve x = e.resolve y)
    (hsieve : q.sieve = p.sieve) (hbare : p.sieve.IsBare) (hregistry : q.registry = p.registry)
    (hrules : ∀ r ∈ p.registry.enabledRules, r ∈ Rule.builtin) (hx : d.Fits x) (hy : e.Fits y) :
    SameWork p q d e x y where
  paths := hpaths
  proper := hd
  tree_eq := htree
  registry_eq := hregistry
  rules := hrules
  leads_eq := leads_eq_of_find (Disk.find_eq htree h)
  names_eq := names_eq_of_resolve hd htree h hsieve hbare hx hy
  place_eq := by
    intro ns hns
    obtain ⟨there, b, hthere, hget, _⟩ := place_of_mem_names hd hns
    obtain ⟨t, ht, hfile⟩ := Option.bind_eq_some_iff.1 ((Tree.get?_append _ _ _).symm.trans hget)
    have hfind := Disk.find_of_resolve hthere ht
    have hsome : (t.get? ns).isSome = true := by rw [hfile]; rfl
    rw [Disk.resolve_joinAll hd hthere (by simp [hget]) (hx.2 t hfind ns hsome),
      Disk.resolve_joinAll (d := e) (htree ▸ hd) (h ▸ hthere) (by simp [← htree, hget])
        (hy.2 t (Disk.find_eq htree h ▸ hfind) ns hsome)]

/-- An absolute path stands for the same files from every working directory. -/
theorem sameWork_of_isAbsolute (hpaths : p.paths = [x] ∧ q.paths = [x])
    (hd : d.tree.isProper = true) (htree : d.tree = e.tree) (hx : Path.isAbsolute x = true)
    (hsieve : q.sieve = p.sieve) (hregistry : q.registry = p.registry)
    (hrules : ∀ r ∈ p.registry.enabledRules, r ∈ Rule.builtin) : SameWork p q d e x x where
  paths := hpaths
  proper := hd
  tree_eq := htree
  registry_eq := hregistry
  rules := hrules
  leads_eq := leads_eq_of_find (Disk.find_eq htree (Disk.resolve_of_isAbsolute htree hx))
  names_eq := by
    unfold names
    rw [Disk.find_eq htree (Disk.resolve_of_isAbsolute htree hx), hsieve]
  place_eq := by
    intro ns hns
    refine Disk.resolve_of_isAbsolute htree ?_
    rw [Path.isAbsolute_joinAll (ne_nil_of_mem_names hd hns) (isName_of_mem_names hd hns), hx]

end Plan

end DocLint
