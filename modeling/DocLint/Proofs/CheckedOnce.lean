import DocLint.Proofs.Aggregation
import DocLint.Proofs.Walk

/-!
# Files under several paths

Paths of a plan may stand for the same file. What is found twice under one path is checked once, but
two spellings that do not compare as one path count as two, wherever they lead.

* `Plan.checked`, `Plan.ChecksOnce`: the paths that are checked, and that no two of them lead to one
  place.
* `Plan.Shares`, `Disk.Continues`: two paths of a plan stand for one file, and the one that leads
  further is spelled like the other with names behind it.
* `checksOnce_iff`: files are checked once exactly if paths that share one continue each other.
* `checksOnce_of_front`: so it is for paths that differ in the names behind a common beginning.
* `checked_once_iff`: all of this, and what follows for the counts and the violations of a report.
-/

namespace DocLint

open Text

/-! ## Spellings that continue each other -/

namespace Disk

variable {d : Disk} {x y : Text}

/-- If the second path leads to names behind the place of the first, then it is the first with these
names behind it. -/
def Continues (d : Disk) (x y : Text) : Prop :=
  ∀ here below, d.resolve x = .ok here → d.resolve y = .ok (here ++ below) →
    Path.components y = Path.components x ++ below.map .name

/-- Names behind a common beginning continue each other. -/
theorem continues_of_front {front : List Component} {a b : List Text}
    (hx : Path.components x = front ++ a.map .name)
    (hy : Path.components y = front ++ b.map .name) : d.Continues x y := by
  intro here below hherex hherey
  obtain ⟨f, hf, rfl⟩ := resolve_front hx hherex
  obtain ⟨g, hg, hplace⟩ := resolve_front hy hherey
  rw [hf] at hg
  cases hg
  rw [List.append_assoc, List.append_cancel_left_eq] at hplace
  rw [hx, hy, ← hplace, List.map_append, List.append_assoc]

end Disk

/-! ## Checked files -/

namespace Plan

variable {p : Plan} {d : Disk} {x y : Text}

/-- The paths of the files that are read and checked. -/
def checked (p : Plan) (d : Disk) : List Text :=
  (p.files d).filter fun x => (d.read x).toOption.isSome

/-- No two of them lead to the same place. -/
def ChecksOnce (p : Plan) (d : Disk) : Prop := ((p.checked d).map d.resolve).Nodup

instance (p : Plan) (d : Disk) : Decidable (p.ChecksOnce d) :=
  inferInstanceAs (Decidable (List.Nodup _))

/-- A file is checked under both paths. -/
def Shares (p : Plan) (d : Disk) (x y : Text) : Prop :=
  ∃ ns ∈ p.names d x, ∃ ms ∈ p.names d y, Path.joinAll x ns ∈ p.checked d ∧
    Path.joinAll y ms ∈ p.checked d ∧
    d.resolve (Path.joinAll x ns) = d.resolve (Path.joinAll y ms)

theorem outcomes_eq_checked (p : Plan) (d : Disk) :
    p.outcomes d = (p.checked d).map fun x => p.checkSource x (sourceAt d x) := by
  unfold outcomes checked
  induction p.files d with
  | nil => rfl
  | cons x xs ih =>
      rw [List.filterMap_cons, List.filter_cons, ih]
      unfold checkFile
      cases hread : d.read x with
      | error e => simp [Except.toOption]
      | ok b => simp [Except.toOption, sourceAt, hread]

theorem filesChecked_eq (p : Plan) (d : Disk) :
    (p.analyze d).filesChecked = (p.checked d).length := by
  show (p.outcomes d).length = _
  rw [outcomes_eq_checked, List.length_map]

/-- A checked path leads to a file. -/
theorem place_of_checked (h : x ∈ p.checked d) :
    ∃ place b, d.resolve x = .ok place ∧ d.tree.get? place = some (.file b) := by
  obtain ⟨b, hb⟩ := Option.isSome_iff_exists.1 (List.mem_filter.1 h).2
  obtain ⟨place, hplace, hget⟩ := Disk.exists_of_find (Disk.find_of_read (ok_of_toOption hb))
  exact ⟨place, b, hplace, hget⟩

/-- It is found as names behind a path of the plan. -/
theorem names_of_checked {u : Text} (h : u ∈ p.checked d) :
    ∃ x ∈ p.paths, ∃ ns ∈ p.names d x, u = Path.joinAll x ns := by
  have hfound : u ∈ p.found d := Path.mem_of_mem_distinct (List.mem_filter.1 h).1
  rw [found_eq] at hfound
  obtain ⟨x, hx, hfound⟩ := List.mem_flatMap.1 hfound
  obtain ⟨ns, hns, rfl⟩ := List.mem_map.1 hfound
  exact ⟨x, hx, ns, hns, rfl⟩

/-- It leads along these names, and is compared by them. -/
theorem spelling_of_checked (hd : d.tree.isProper = true) {ns : List Text}
    (hns : ns ∈ p.names d x) (h : Path.joinAll x ns ∈ p.checked d) :
    ∃ here, d.resolve x = .ok here ∧ d.resolve (Path.joinAll x ns) = .ok (here ++ ns) ∧
      Path.components (Path.joinAll x ns) = Path.components x ++ ns.map .name := by
  obtain ⟨place, _, hplace, _⟩ := place_of_checked h
  obtain ⟨here, b, hhere, hget, hnames⟩ := place_of_mem_names hd hns
  have hempty : x ≠ [] := (Disk.resolve_eq_ok_iff.1 hhere).2.1
  have hlength := (Disk.resolve_eq_ok_iff.1 hplace).2.2.1
  exact ⟨here, hhere, Disk.resolve_joinAll hd hhere (by simp [hget]) hlength,
    Path.components_joinAll hempty hnames⟩

theorem nodup_components_checked (p : Plan) (d : Disk) :
    ((p.checked d).map Path.components).Nodup :=
  (Path.nodup_components_distinct (p.found d)).sublist (List.filter_sublist.map Path.components)

/-- A file that is found below two paths has one spelling if and only if the path that leads further
is spelled like the other with the names between them behind it. -/
theorem components_eq_iff {c e : List Component} {below ns ms : List Text} (h : ns = below ++ ms) :
    c ++ ns.map .name = e ++ ms.map .name ↔ e = c ++ below.map .name := by
  rw [h, List.map_append, ← List.append_assoc, List.append_cancel_right_eq, eq_comm]

/-- Each file is checked once if and only if paths that share one continue each other. -/
theorem checksOnce_iff (hd : d.tree.isProper = true) :
    p.ChecksOnce d ↔ ∀ x ∈ p.paths, ∀ y ∈ p.paths, p.Shares d x y → d.Continues x y := by
  constructor
  · rintro honce x _ y _ ⟨ns, hns, ms, hms, hu, hv, hplace⟩ here below hx hy
    have hsame : Path.joinAll x ns = Path.joinAll y ms :=
      List.inj_on_of_nodup_map honce hu hv hplace
    obtain ⟨_, hx', hplacex, hcx⟩ := spelling_of_checked hd hns hu
    obtain ⟨_, hy', hplacey, hcy⟩ := spelling_of_checked hd hms hv
    obtain rfl := Except.ok.inj (hx.symm.trans hx')
    obtain rfl := Except.ok.inj (hy.symm.trans hy')
    rw [hplacex, hplacey, Except.ok.injEq, List.append_assoc, List.append_cancel_left_eq] at hplace
    rw [← components_eq_iff hplace, ← hcx, ← hcy, hsame]
  · intro hcontinues
    refine List.Nodup.map_on ?_ (List.Nodup.of_map _ (nodup_components_checked p d))
    intro u hu v hv hplace
    refine List.inj_on_of_nodup_map (nodup_components_checked p d) hu hv ?_
    obtain ⟨x, hx, ns, hns, rfl⟩ := names_of_checked hu
    obtain ⟨y, hy, ms, hms, rfl⟩ := names_of_checked hv
    have hxy := hcontinues x hx y hy ⟨ns, hns, ms, hms, hu, hv, hplace⟩
    have hyx := hcontinues y hy x hx ⟨ms, hms, ns, hns, hv, hu, hplace.symm⟩
    obtain ⟨here, hhere, hplacex, hcx⟩ := spelling_of_checked hd hns hu
    obtain ⟨there, hthere, hplacey, hcy⟩ := spelling_of_checked hd hms hv
    rw [hcx, hcy]
    rw [hplacex, hplacey, Except.ok.injEq] at hplace
    -- one of the paths leads to names behind the place of the other
    rcases List.append_eq_append_iff.1 hplace with ⟨below, rfl, hns'⟩ | ⟨below, rfl, hms'⟩
    · exact (components_eq_iff hns').2 (hxy here below hhere hthere)
    · exact ((components_eq_iff hms').2 (hyx there below hthere hhere)).symm

/-- Paths that differ in the names behind a common beginning stand for each file once. -/
theorem checksOnce_of_front (hd : d.tree.isProper = true) (front : List Component)
    (h : ∀ x ∈ p.paths, ∃ names : List Text, Path.components x = front ++ names.map .name) :
    p.ChecksOnce d := by
  refine (checksOnce_iff hd).2 fun x hx y hy _ => ?_
  obtain ⟨a, ha⟩ := h x hx
  obtain ⟨b, hb⟩ := h y hy
  exact Disk.continues_of_front ha hb

/-! ## What follows for reports -/

/-- No more files are checked than there are. -/
theorem filesChecked_le (hd : d.tree.isProper = true) (honce : p.ChecksOnce d) :
    (p.analyze d).filesChecked ≤ d.tree.files.length := by
  have hsubset : (p.checked d).map d.resolve ⊆ d.tree.names.map Except.ok := by
    intro place hmem
    obtain ⟨x, hx, rfl⟩ := List.mem_map.1 hmem
    obtain ⟨place, b, hplace, hget⟩ := place_of_checked hx
    rw [hplace]
    exact List.mem_map_of_mem ((Tree.mem_names_iff hd).2 ⟨b, hget⟩)
  have hle := (List.subperm_of_subset honce hsubset).length_le
  rw [filesChecked_eq]
  simpa only [Tree.names, List.length_map] using hle

theorem filter_eq_singleton {α β : Type} [DecidableEq β] {f : α → β} {l : List α} {a : α}
    (h : (l.map f).Nodup) (ha : a ∈ l) : l.filter (fun b => f b == f a) = [a] := by
  induction l with
  | nil => cases ha
  | cons b l ih =>
      rw [List.map_cons, List.nodup_cons] at h
      rcases List.mem_cons.1 ha with rfl | ha
      · rw [List.filter_cons_of_pos (by simp), List.filter_eq_nil_iff.2]
        intro c hc heq
        exact h.1 (beq_iff_eq.1 heq ▸ List.mem_map_of_mem hc)
      · have hne : f b ≠ f a := fun heq => h.1 (heq ▸ List.mem_map_of_mem ha)
        rw [List.filter_cons_of_neg (by simpa using hne), ih h.2 ha]

/-- The violations at the place of a file are those of one check of it. -/
theorem violations_at_place (honce : p.ChecksOnce d) (hx : x ∈ p.checked d) :
    ((p.analyze d).violations.filter fun v => d.resolve v.location.file == d.resolve x).Perm
      (p.checkSource x (sourceAt d x)) := by
  have hsort : (p.analyze d).violations.Perm ((p.checked d).flatMap fun x =>
      p.checkSource x (sourceAt d x)) := by
    refine (List.mergeSort_perm _ _).trans ?_
    show (p.outcomes d).flatten.Perm _
    rw [outcomes_eq_checked, List.flatMap_def]
  refine (hsort.filter _).trans ?_
  rw [← flatMap_filter (p := fun y => d.resolve y == d.resolve x), filter_eq_singleton honce hx,
    List.flatMap_singleton]
  intro y _ v hv
  rw [Registry.file_of_mem_check hv]
  rfl

/-- **When a file is checked once.** The report counts the checked paths. No two of them lead to one
file if and only if paths of the plan that share a file are spelled alike: the one that leads
further is the other with the names between them behind it. That is so whenever the paths differ in
the names behind a common beginning, such as `/`, `.` or nothing at all. Then no more files are
checked than the tree has, and the violations at the place of a file are those of one check of
it. -/
theorem checked_once_iff (p : Plan) (d : Disk) (hd : d.tree.isProper = true) :
    (p.analyze d).filesChecked = (p.checked d).length ∧
    (p.ChecksOnce d ↔ ∀ x ∈ p.paths, ∀ y ∈ p.paths, p.Shares d x y → d.Continues x y) ∧
    (∀ front : List Component,
      (∀ x ∈ p.paths, ∃ names : List Text, Path.components x = front ++ names.map .name) →
      p.ChecksOnce d) ∧
    (p.ChecksOnce d → (p.analyze d).filesChecked ≤ d.tree.files.length ∧
      ∀ x ∈ p.checked d,
        ((p.analyze d).violations.filter fun v => d.resolve v.location.file == d.resolve x).Perm
          (p.checkSource x (sourceAt d x))) := by
  refine ⟨filesChecked_eq p d, checksOnce_iff hd, checksOnce_of_front hd, fun honce => ?_⟩
  exact ⟨filesChecked_le hd honce, fun x => violations_at_place honce⟩

/-- A directory and another one below it: three files, checked once each. -/
theorem checked_once_nested :
    let d : Disk := { tree := .dir [("lib", .dir [("a.php", .file []), ("b.php", .file []),
      ("sub", .dir [("c.php", .file [])])])] }
    let p : Plan := { paths := ["lib", "lib/sub"]
                      sieve := { extensions := ["php"] }
                      registry := Registry.standard }
    p.ChecksOnce d ∧ (p.analyze d).filesChecked ≤ 3 := by
  intro d p
  obtain ⟨_, _, hfront, hreport⟩ := checked_once_iff p d (by decide +kernel)
  have honce : p.ChecksOnce d := by
    refine hfront [] fun x hx => ?_
    simp only [p, List.mem_cons, List.not_mem_nil, or_false] at hx
    rcases hx with rfl | rfl
    · exact ⟨["lib"], by decide⟩
    · exact ⟨["lib", "sub"], by decide⟩
  exact ⟨honce, (hreport honce).1⟩

/-- The working directory and a directory in it: the two spellings of the file below both do not
compare as one path, so it is checked and reported twice. -/
theorem checked_twice :
    let d : Disk := { tree := .dir [("src", .dir [("a.php", .file [60, 63, 112, 104, 112])])] }
    let p : Plan := { paths := [".", "src"]
                      sieve := { extensions := ["php"] }
                      registry := Registry.standard.selectOnly ["filephpdocpresent"] }
    d.tree.isProper = true ∧ d.tree.files.length = 1 ∧ (p.analyze d).filesChecked = 2 ∧
      (p.analyze d).violations.map (fun v => (v.location.file, v.code)) =
        [("./src/a.php".toList, "filephpdocpresent".toList), ("src/a.php", "filephpdocpresent")] ∧
      ¬ p.ChecksOnce d := by
  intro d p
  have hfiles : p.files d = ["./src/a.php".toList, "src/a.php".toList] := by
    have hsorted : (p.found d).mergeSort
        (fun x y => (compare (Path.orderKey x) (Path.orderKey y)).isLE) = p.found d :=
      List.mergeSort_of_pairwise (by decide +kernel)
    unfold files Path.distinct
    rw [hsorted]
    decide +kernel
  have hchecked : p.checked d = ["./src/a.php".toList, "src/a.php".toList] := by
    unfold checked
    rw [hfiles]
    decide +kernel
  have hviolations : (p.analyze d).violations = (p.outcomes d).flatten := by
    refine List.mergeSort_of_pairwise ?_
    show (p.outcomes d).flatten.Pairwise _
    rw [outcomes_eq_checked, hchecked]
    decide +kernel
  refine ⟨by decide +kernel, by decide +kernel, ?_, ?_, ?_⟩
  · rw [filesChecked_eq, hchecked]
    rfl
  · rw [hviolations, outcomes_eq_checked, hchecked]
    decide +kernel
  · unfold ChecksOnce
    rw [hchecked]
    decide +kernel

end Plan

end DocLint
