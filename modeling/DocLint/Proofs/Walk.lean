import DocLint.Analysis.Basic
import DocLint.Proofs.Names

/-!
# What walks find

A walk finds files by their names below its root. Which of them it finds is decided on the way, name
by name, so the paths that it gives are the root with these names behind it.

* `Sieve.takes`: what is asked of the names of a file on the way to it.
* `found_walk`: the files that a walk finds, in the order of the tree.
* `Plan.names`, `found_eq`: the same for a path of a plan, be it a file or a directory.
* `Plan.place_of_mem_names`: where a path leads that is found.
-/

namespace DocLint

open Text

namespace Tree

/-- The names that lead to the files of a tree. -/
def names (t : Tree) : List (List Text) := t.files.map Prod.fst

theorem names_dir (es : List (Text × Tree)) :
    (Tree.dir es).names = es.flatMap fun e => e.2.names.map (e.1 :: ·) := by
  unfold names
  rw [files, filesOfEntries_eq_flatMap, List.map_flatMap]
  apply List.flatMap_congr
  rintro ⟨n, t⟩ _
  simp only [filesOfEntry, List.map_map, Function.comp_def]

theorem exists_cons_of_mem_names {es : List (Text × Tree)} {ns : List Text}
    (h : ns ∈ (Tree.dir es).names) : ∃ n ms, ns = n :: ms := by
  rw [names_dir] at h
  obtain ⟨e, _, h⟩ := List.mem_flatMap.1 h
  obtain ⟨ms, _, rfl⟩ := List.mem_map.1 h
  exact ⟨e.1, ms, rfl⟩

theorem mem_names_iff {t : Tree} (ht : t.isProper = true) {ns : List Text} :
    ns ∈ t.names ↔ ∃ b, t.get? ns = some (.file b) := by
  simp only [names, List.mem_map, Prod.exists, exists_and_right, exists_eq_right, mem_files_iff ht]

end Tree

namespace Sieve

variable (s : Sieve)

/-- A walk that has come to `path`, by the names `below`, goes on along further names and finds a
file there: no directory on the way is left out or cannot be opened, and the file counts. -/
def takes : Text → List Text → List Text → Bool
  | path, below, [] => below.getLast?.any s.hasExtension && !s.leavesOut path below false
  | path, below, n :: names =>
    !s.leavesOut path below true && !decide (Disk.pathLimit < utf8Length path) &&
      takes (Path.join path n) (below ++ [n]) names

/-- The same, from a directory that is not asked for. -/
def takesBelow (path : Text) (below : List Text) : List Text → Bool
  | [] => false
  | n :: names => s.takes (Path.join path n) (below ++ [n]) names

/-- The files found below a directory are those of its entries. -/
theorem found_visitEntries {es : List (Text × Tree)}
    (h : ∀ n t, (n, t) ∈ es → ∀ path below, (s.visit path below t).filterMap Sighting.found? =
      (t.names.filter (s.takes path below)).map (Path.joinAll path))
    (path : Text) (below : List Text) :
    (s.visitEntries path below es).filterMap Sighting.found? =
      ((Tree.dir es).names.filter (s.takesBelow path below)).map (Path.joinAll path) := by
  rw [visitEntries_eq_flatMap, List.filterMap_flatMap, Tree.names_dir, List.filter_flatMap,
    List.map_flatMap]
  apply List.flatMap_congr
  rintro ⟨n, t⟩ he
  show (s.visit (Path.join path n) (below ++ [n]) t).filterMap Sighting.found? =
    ((t.names.map (n :: ·)).filter (s.takesBelow path below)).map (Path.joinAll path)
  rw [h n t he, List.filter_map, List.map_map]
  rfl

/-- What a walk finds in a tree that lies below its root. -/
theorem found_visit (t : Tree) (path : Text) (below : List Text) :
    (s.visit path below t).filterMap Sighting.found? =
      (t.names.filter (s.takes path below)).map (Path.joinAll path) := by
  induction t using Tree.induct generalizing path below with
  | file b =>
      have hnames : (Tree.file b).names = [[]] := by simp [Tree.names, Tree.files]
      rw [visit, sight, hnames, List.filter_singleton, takes]
      cases below.getLast?.any s.hasExtension <;> cases s.leavesOut path below false <;> rfl
  | dir es ih =>
      have htakes : ∀ ns ∈ (Tree.dir es).names, s.takes path below ns =
          (!s.leavesOut path below true && !decide (Disk.pathLimit < utf8Length path) &&
            s.takesBelow path below ns) := by
        intro ns hns
        obtain ⟨n, ms, rfl⟩ := Tree.exists_cons_of_mem_names hns
        rfl
      rw [List.filter_congr htakes, visit]
      split
      · rename_i hleft
        simp [hleft]
      · rename_i hleft
        split
        · rename_i hlong
          simp [hlong, Sighting.found?]
        · rename_i hlong
          simp only [hleft, hlong, Bool.not_false, decide_false, Bool.true_and]
          exact s.found_visitEntries ih path below

/-- **What a walk finds**: the files below the directory that the sieve takes. -/
theorem found_walk (root : Text) (es : List (Text × Tree)) :
    (s.walk root (.dir es)).filterMap Sighting.found? =
      ((Tree.dir es).names.filter (s.takesBelow root [])).map (Path.joinAll root) :=
  s.found_visitEntries (fun _ t _ path below => s.found_visit t path below) root []

end Sieve

namespace Plan

variable {p : Plan} {d : Disk} {x : Text}

/-- The names, below a path of the plan, of the files that it stands for. -/
def names (p : Plan) (d : Disk) (x : Text) : List (List Text) :=
  match d.find x with
  | .ok (.file _) => [[]]
  | .ok (.dir es) => (Tree.dir es).names.filter (p.sieve.takesBelow x [])
  | .error _ => []

theorem found_eq (p : Plan) (d : Disk) :
    p.found d = p.paths.flatMap fun x => (p.names d x).map (Path.joinAll x) := by
  unfold found
  apply List.flatMap_congr
  intro x _
  unfold discover names
  cases d.find x with
  | error e => rfl
  | ok t =>
      cases t with
      | file b => rfl
      | dir es => exact p.sieve.found_walk x es

/-- The names of a file that is found lead to it from where the path leads. -/
theorem place_of_mem_names (hd : d.tree.isProper = true) {ns : List Text} (h : ns ∈ p.names d x) :
    ∃ there b, d.resolve x = .ok there ∧ d.tree.get? (there ++ ns) = some (.file b) ∧
      ∀ n ∈ ns, isName n = true := by
  unfold names at h
  cases hfind : d.find x with
  | error e =>
      rw [hfind] at h
      cases h
  | ok t =>
      obtain ⟨there, hthere, hget⟩ := Disk.exists_of_find hfind
      obtain ⟨ht, _⟩ := Tree.isProper_of_get? hd hget
      obtain ⟨b, hb⟩ : ∃ b, t.get? ns = some (.file b) := by
        rw [hfind] at h
        cases t with
        | file b =>
            obtain rfl := List.mem_singleton.1 h
            exact ⟨b, rfl⟩
        | dir es => exact (Tree.mem_names_iff ht).1 (List.mem_filter.1 h).1
      refine ⟨there, b, hthere, ?_, (Tree.isProper_of_get? ht hb).2⟩
      rw [Tree.get?_append, hget]
      exact hb

end Plan

end DocLint
