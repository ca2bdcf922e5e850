import DocLint.Proofs.Relocation
import Mathlib.Data.List.TakeDrop

/-!
# Which files a walk finds

A walk leaves a directory out before it looks into it, and a file after it has come to it. Seen from
a file, that is a condition on its names: it is not left out itself, and no directory on the way to
it is.

* `Tree.sift`: the files of a tree, with a test for the directories that are entered and one for the
  files that are taken; `sift_eq_filter` says what this comes to for each file.
* `Sieve.filesBy`: what a walk finds, with any test of paths in the place of the globs;
  `found_walk_eq`: with the globs themselves it is what the walk of the sieve finds.
* `Sieve.Finds`: what the excludes and the extensions ask of a file.
* `walk_exact`: a walk finds exactly these files, each once; with bare names alone it is a filter of
  all files by what is left out as a file.
-/

namespace DocLint

open Text

namespace Tree

variable (enter take : List Text → Bool)

mutual

/-- The names of the files of a tree that `take` takes; `below` leads to the tree. A directory is
looked into only if `enter` says so. -/
def sift (below : List Text) : Tree → List (List Text)
  | .file _ => if take below then [below] else []
  | .dir es => if enter below then siftEntries below es else []

/-- The same for the entries of a directory, which is not asked for. -/
def siftEntries (below : List Text) : List (Text × Tree) → List (List Text)
  | [] => []
  | e :: es => siftEntry below e ++ siftEntries below es

/-- The same for one entry of a directory. -/
def siftEntry (below : List Text) : Text × Tree → List (List Text)
  | (n, t) => sift (below ++ [n]) t

end

theorem siftEntries_eq_flatMap (below : List Text) (es : List (Text × Tree)) :
    siftEntries enter take below es = es.flatMap (siftEntry enter take below) := by
  induction es with
  | nil => rfl
  | cons e es ih => rw [siftEntries, ih, List.flatMap_cons]

/-- The file at the end of the names is taken, and every directory on the way is entered. -/
def passes (below : List Text) : List Text → Bool
  | [] => take below
  | n :: names => enter below && passes (below ++ [n]) names

/-- The same from a directory that is not asked for. -/
def passesBelow (below : List Text) : List Text → Bool
  | [] => false
  | n :: names => passes enter take (below ++ [n]) names

theorem siftEntries_eq_filter {es : List (Text × Tree)}
    (h : ∀ n t, (n, t) ∈ es → ∀ below, sift enter take below t =
      (t.names.filter (passes enter take below)).map (below ++ ·)) (below : List Text) :
    siftEntries enter take below es =
      ((Tree.dir es).names.filter (passesBelow enter take below)).map (below ++ ·) := by
  rw [siftEntries_eq_flatMap, names_dir, List.filter_flatMap, List.map_flatMap]
  apply List.flatMap_congr
  rintro ⟨n, t⟩ he
  show sift enter take (below ++ [n]) t = _
  rw [h n t he, List.filter_map, List.map_map]
  apply List.map_congr_left
  intro ns _
  simp

/-- **What is found is a matter of the names on the way.** -/
theorem sift_eq_filter (t : Tree) (below : List Text) :
    sift enter take below t = (t.names.filter (passes enter take below)).map (below ++ ·) := by
  induction t using Tree.induct generalizing below with
  | file b =>
      have hnames : (Tree.file b).names = [[]] := by simp [names, files]
      rw [sift, hnames, List.filter_singleton, passes]
      cases take below <;> simp
  | dir es ih =>
      have hpasses : ∀ ns ∈ (Tree.dir es).names, passes enter take below ns =
          (enter below && passesBelow enter take below ns) := by
        intro ns hns
        obtain ⟨n, ms, rfl⟩ := exists_cons_of_mem_names hns
        rfl
      rw [sift, List.filter_congr hpasses, siftEntries_eq_filter enter take ih]
      cases enter below <;> simp

/-- The names pass if the file is taken and every directory on the way to it is entered. -/
theorem passes_iff {below names : List Text} : passes enter take below names = true ↔
    take (below ++ names) = true ∧
      ∀ ds, ds <+: names → ds ≠ names → enter (below ++ ds) = true := by
  induction names generalizing below with
  | nil =>
      rw [passes, List.append_nil, iff_self_and]
      exact fun _ ds hds hne => absurd (List.prefix_nil.1 hds) hne
  | cons n names ih =>
      rw [passes, Bool.and_eq_true, ih, List.append_assoc, List.singleton_append, and_left_comm]
      refine and_congr_right fun _ => ⟨?_, fun h => ⟨?_, fun ds hds hne => ?_⟩⟩
      · rintro ⟨hhere, hway⟩ ds hds hne
        rcases List.prefix_cons_iff.1 hds with rfl | ⟨ms, rfl, hms⟩
        · simpa using hhere
        · simpa using hway ms hms fun heq => hne (by rw [heq])
      · simpa using h [] List.nil_prefix (List.cons_ne_nil n names).symm
      · have hn := h (n :: ds) (List.cons_prefix_cons.2 ⟨rfl, hds⟩) fun heq =>
          hne (List.cons.inj heq).2
        simpa using hn

/-- The directory that the names start from is not asked for. -/
theorem passesBelow_iff {names : List Text} (hnames : names ≠ []) :
    passesBelow enter take [] names = true ↔ take names = true ∧
      ∀ ds, ds <+: names → ds ≠ [] → ds ≠ names → enter ds = true := by
  obtain ⟨n, names, rfl⟩ := List.exists_cons_of_ne_nil hnames
  rw [passesBelow, passes_iff]
  refine and_congr_right fun _ => ⟨fun h ds hds hstart hne => ?_, fun h ds hds hne => ?_⟩
  · rcases List.prefix_cons_iff.1 hds with rfl | ⟨ms, rfl, hms⟩
    · exact absurd rfl hstart
    · exact h ms hms fun heq => hne (by rw [heq])
  · exact h (n :: ds) (List.cons_prefix_cons.2 ⟨rfl, hds⟩) (List.cons_ne_nil n ds) fun heq =>
      hne (List.cons.inj heq).2

end Tree

/-! ## Extensions -/

namespace Path

/-- An extension is what stands behind the last full stop of a name that does not start with it. -/
theorem extension?_eq_some_iff {name ext : Text} : extension? name = some ext ↔
    ∃ stem, name = stem ++ '.' :: ext ∧ stem ≠ [] ∧ '.' ∉ ext := by
  unfold extension?
  rw [List.span_eq_takeWhile_dropWhile]
  constructor
  · intro h
    have hback := List.all_eq_true.1 (List.all_takeWhile (p := (· != '.')) (l := name.reverse))
    cases hrest : name.reverse.dropWhile (· != '.') with
    | nil => simp [hrest] at h
    | cons c stem =>
        have hc : c = '.' := by simpa [hrest] using List.head?_dropWhile_not (· != '.') name.reverse
        obtain ⟨hstem, hext⟩ : stem ≠ [] ∧ _ = ext := by simpa [hrest] using h
        refine ⟨stem.reverse, ?_, by simpa using hstem, ?_⟩
        · calc name = (name.reverse.takeWhile (· != '.') ++
                  name.reverse.dropWhile (· != '.')).reverse := by
                rw [List.takeWhile_append_dropWhile, List.reverse_reverse]
            _ = stem.reverse ++ '.' :: ext := by
                rw [hrest, hc, List.reverse_append, hext, List.reverse_cons, List.append_assoc]
                rfl
        · rw [← hext, List.mem_reverse]
          exact fun hmem => by simpa using hback '.' hmem
  · rintro ⟨stem, rfl, hstem, hext⟩
    have hback : ∀ c ∈ ext.reverse, (c != '.') = true := by
      intro c hc
      rw [bne_iff_ne]
      rintro rfl
      exact hext (List.mem_reverse.1 hc)
    have hreverse : (stem ++ '.' :: ext).reverse = ext.reverse ++ '.' :: stem.reverse := by simp
    rw [hreverse, List.takeWhile_append_of_pos hback, List.dropWhile_append_of_pos hback]
    simp [hstem]

end Path

/-! ## What is left out, with any globs -/

namespace Exclude

/-- The pattern leaves out a path if the globs match what `accepts` says. -/
def coversBy (accepts : Glob → Text → Bool) (x : Exclude) (path : Text) (below : List Text)
    (isDir : Bool) : Bool :=
  match x with
  | .name n => (if isDir then below else below.dropLast).contains n
  | .glob g => accepts g path || (isDir && accepts g (Path.join path []))

theorem coversBy_accepts (x : Exclude) (path : Text) (below : List Text) (isDir : Bool) :
    x.coversBy Glob.accepts path below isDir = x.covers path below isDir := by
  cases x <;> rfl

end Exclude

namespace Sieve

variable (accepts : Glob → Text → Bool) (s : Sieve) (root : Text)

/-- A pattern leaves out what the names below the root lead to. -/
def leavesOutBy (names : List Text) (isDir : Bool) : Bool :=
  s.excludes.any fun x => x.coversBy accepts (Path.joinAll root names) names isDir

/-- A walk goes into the directory that the names lead to. -/
def enters (names : List Text) : Bool :=
  !s.leavesOutBy accepts root names true &&
    !decide (Disk.pathLimit < utf8Length (Path.joinAll root names))

/-- The file that the names lead to has an extension that counts and is not left out itself. -/
def keeps (names : List Text) : Bool :=
  names.getLast?.any s.hasExtension && !s.leavesOutBy accepts root names false

/-- The paths of the files that a walk finds below the root. -/
def filesBy (es : List (Text × Tree)) : List Text :=
  (Tree.siftEntries (s.enters accepts root) (s.keeps accepts root) [] es).map (Path.joinAll root)

theorem filesBy_eq (es : List (Text × Tree)) : s.filesBy accepts root es =
    ((Tree.dir es).names.filter
      (Tree.passesBelow (s.enters accepts root) (s.keeps accepts root) [])).map
        (Path.joinAll root) := by
  unfold filesBy
  rw [Tree.siftEntries_eq_filter _ _ fun n t _ => Tree.sift_eq_filter _ _ t]
  simp

theorem leavesOutBy_accepts (names : List Text) (isDir : Bool) :
    s.leavesOutBy Glob.accepts root names isDir =
      s.leavesOut (Path.joinAll root names) names isDir := by
  simp only [leavesOutBy, leavesOut, Exclude.coversBy_accepts]

theorem passes_eq_takes (below names : List Text) :
    Tree.passes (s.enters Glob.accepts root) (s.keeps Glob.accepts root) below names =
      s.takes (Path.joinAll root below) below names := by
  induction names generalizing below with
  | nil => rw [Tree.passes, keeps, leavesOutBy_accepts, takes]
  | cons n names ih =>
      have hpath : Path.joinAll root (below ++ [n]) = Path.join (Path.joinAll root below) n := by
        rw [Path.joinAll_append]
        rfl
      rw [Tree.passes, enters, leavesOutBy_accepts, ih, hpath, takes]

/-- With the globs as they are, these are the files that the walk finds. -/
theorem found_walk_eq (es : List (Text × Tree)) :
    (s.walk root (.dir es)).filterMap Sighting.found? = s.filesBy Glob.accepts root es := by
  rw [found_walk, filesBy_eq]
  refine congrArg _ (List.filter_congr fun names hnames => ?_)
  obtain ⟨n, ms, rfl⟩ := Tree.exists_cons_of_mem_names hnames
  exact (s.passes_eq_takes root [n] ms).symm

/-! ## What a walk asks of a file -/

/-- What a walk from `root` asks of the names of a file: an extension that counts, and that neither
the file nor a directory between the root and the file is left out. -/
structure Finds (names : List Text) : Prop where
  extension : ∃ stem ext x, names.getLast? = some (stem ++ '.' :: ext) ∧ stem ≠ [] ∧ '.' ∉ ext ∧
    x ∈ s.extensions ∧ Text.lower ext = Text.lower x
  file : s.leavesOutBy accepts root names false = false
  dirs : ∀ ds, ds <+: names → ds ≠ [] → ds ≠ names → s.leavesOutBy accepts root ds true = false

variable {s}

theorem hasExtension_iff {name : Text} : s.hasExtension name = true ↔
    ∃ stem ext x, name = stem ++ '.' :: ext ∧ stem ≠ [] ∧ '.' ∉ ext ∧ x ∈ s.extensions ∧
      Text.lower ext = Text.lower x := by
  unfold hasExtension
  rw [Option.any_eq_true]
  constructor
  · rintro ⟨ext, hext, hsame⟩
    obtain ⟨stem, hname, hstem, hstop⟩ := Path.extension?_eq_some_iff.1 hext
    obtain ⟨x, hx, hx'⟩ := List.any_eq_true.1 hsame
    exact ⟨stem, ext, x, hname, hstem, hstop, hx, beq_iff_eq.1 hx'⟩
  · rintro ⟨stem, ext, x, hname, hstem, hstop, hx, hsame⟩
    exact ⟨ext, Path.extension?_eq_some_iff.2 ⟨stem, hname, hstem, hstop⟩,
      List.any_eq_true.2 ⟨x, hx, beq_iff_eq.2 hsame⟩⟩

theorem keeps_iff {names : List Text} : s.keeps accepts root names = true ↔
    (∃ stem ext x, names.getLast? = some (stem ++ '.' :: ext) ∧ stem ≠ [] ∧ '.' ∉ ext ∧
      x ∈ s.extensions ∧ Text.lower ext = Text.lower x) ∧
    s.leavesOutBy accepts root names false = false := by
  rw [keeps, Bool.and_eq_true, Bool.not_eq_true', Option.any_eq_true]
  refine and_congr_left fun _ => ?_
  simp only [hasExtension_iff]
  constructor
  · rintro ⟨_, hlast, stem, ext, x, rfl, h⟩
    exact ⟨stem, ext, x, hlast, h⟩
  · rintro ⟨stem, ext, x, hlast, h⟩
    exact ⟨_, hlast, stem, ext, x, rfl, h⟩

variable {accepts root}

/-- Where every directory can be opened, a walk asks for nothing else. -/
theorem passesBelow_iff_finds {names : List Text} (hnames : names ≠ [])
    (hopen : ∀ ds, ds <+: names → ds ≠ names →
      utf8Length (Path.joinAll root ds) ≤ Disk.pathLimit) :
    Tree.passesBelow (s.enters accepts root) (s.keeps accepts root) [] names = true ↔
      s.Finds accepts root names := by
  have henters : ∀ ds, ds <+: names → ds ≠ names → (s.enters accepts root ds = true ↔
      s.leavesOutBy accepts root ds true = false) := by
    intro ds hds hne
    rw [enters, decide_eq_false (Nat.not_lt.2 (hopen ds hds hne)), Bool.not_false, Bool.and_true,
      Bool.not_eq_true']
  rw [Tree.passesBelow_iff _ _ hnames, keeps_iff]
  constructor
  · rintro ⟨⟨hextension, hfile⟩, hdirs⟩
    exact ⟨hextension, hfile, fun ds hds hstart hne =>
      (henters ds hds hne).1 (hdirs ds hds hstart hne)⟩
  · rintro ⟨hextension, hfile, hdirs⟩
    exact ⟨⟨hextension, hfile⟩, fun ds hds hstart hne =>
      (henters ds hds hne).2 (hdirs ds hds hstart hne)⟩

/-- A bare name leaves out what has a directory of this name on the way to it. -/
theorem leavesOutBy_iff_of_isBare (h : s.IsBare) {names : List Text} {isDir : Bool} :
    s.leavesOutBy accepts root names isDir = true ↔
      ∃ n ∈ (if isDir then names else names.dropLast), Exclude.name n ∈ s.excludes := by
  rw [leavesOutBy, List.any_eq_true]
  constructor
  · rintro ⟨x, hx, hcovers⟩
    obtain ⟨n, rfl⟩ := h x hx
    exact ⟨n, List.contains_iff_mem.1 hcovers, hx⟩
  · rintro ⟨n, hn, hx⟩
    exact ⟨.name n, hx, List.contains_iff_mem.2 hn⟩

/-- With bare names, a directory on the way is left out only if the file is. -/
theorem passesBelow_eq_keeps_of_isBare (h : s.IsBare) {names : List Text} (hnames : names ≠ [])
    (hopen : ∀ ds, ds <+: names → ds ≠ names →
      utf8Length (Path.joinAll root ds) ≤ Disk.pathLimit) :
    Tree.passesBelow (s.enters accepts root) (s.keeps accepts root) [] names =
      s.keeps accepts root names := by
  rw [Bool.eq_iff_iff, passesBelow_iff_finds hnames hopen, keeps_iff]
  refine ⟨fun hfinds => ⟨hfinds.extension, hfinds.file⟩, fun ⟨hextension, hfile⟩ =>
    ⟨hextension, hfile, fun ds hds _ hne => ?_⟩⟩
  rw [← Bool.not_eq_true, leavesOutBy_iff_of_isBare h]
  rintro ⟨n, hn, hx⟩
  refine Bool.eq_false_iff.1 hfile ((leavesOutBy_iff_of_isBare h).2 ⟨n, ?_, hx⟩)
  obtain ⟨rest, rfl⟩ := hds
  have hrest : rest ≠ [] := by
    rintro rfl
    exact hne (List.append_nil ds).symm
  rw [if_neg Bool.false_ne_true, List.dropLast_append_of_ne_nil hrest]
  exact List.mem_append_left _ hn

end Sieve

/-- What stands on the way to something is a directory. -/
theorem Tree.exists_dir_of_prefix {t u : Tree} {names ds : List Text} (h : t.get? names = some u)
    (hds : ds <+: names) (hne : ds ≠ names) : ∃ es, t.get? ds = some (.dir es) := by
  obtain ⟨rest, rfl⟩ := hds
  rw [get?_append, Option.bind_eq_some_iff] at h
  obtain ⟨v, hv, hrest⟩ := h
  cases v with
  | dir es => exact ⟨es, hv⟩
  | file b =>
      cases rest with
      | nil => exact absurd (List.append_nil ds).symm hne
      | cons n rest => cases hrest

namespace Sieve

variable {accepts : Glob → Text → Bool} {s : Sieve} {d : Disk} {root : Text}
  {es : List (Text × Tree)}

/-- The paths of files below a root are all different. -/
theorem nodup_filesBy (hroot : root ≠ []) (hproper : (Tree.dir es).isProper = true) :
    ((s.filesBy accepts root es).map Path.components).Nodup := by
  have hname : ∀ names ∈ (Tree.dir es).names, ∀ n ∈ names, isName n = true := by
    intro names hnames
    obtain ⟨b, hb⟩ := (Tree.mem_names_iff hproper).1 hnames
    exact (Tree.isProper_of_get? hproper hb).2
  rw [filesBy_eq, List.map_map]
  refine List.Nodup.map_on (fun a ha b hb heq => ?_) ((Tree.nodup_files hproper).filter _)
  exact Path.components_joinAll_inj hroot (hname a (List.mem_filter.1 ha).1)
    (hname b (List.mem_filter.1 hb).1) heq

section OpenDirectories

variable (hproper : (Tree.dir es).isProper = true)
  (hopen : ∀ dirs inside, (Tree.dir es).get? dirs = some (.dir inside) →
    utf8Length (Path.joinAll root dirs) ≤ Disk.pathLimit)

include hproper hopen

theorem way_of_mem_names {names : List Text} (h : names ∈ (Tree.dir es).names) : names ≠ [] ∧
    ∀ ds, ds <+: names → ds ≠ names → utf8Length (Path.joinAll root ds) ≤ Disk.pathLimit := by
  obtain ⟨b, hb⟩ := (Tree.mem_names_iff hproper).1 h
  refine ⟨?_, fun ds hds hne => ?_⟩
  · rintro rfl
    cases hb
  · obtain ⟨inside, hinside⟩ := Tree.exists_dir_of_prefix hb hds hne
    exact hopen ds inside hinside

theorem mem_filesBy_iff {path : Text} : path ∈ s.filesBy accepts root es ↔ ∃ names b,
    (Tree.dir es).get? names = some (.file b) ∧ path = Path.joinAll root names ∧
    s.Finds accepts root names := by
  rw [filesBy_eq, List.mem_map]
  constructor
  · rintro ⟨names, hmem, rfl⟩
    obtain ⟨hnames, hpasses⟩ := List.mem_filter.1 hmem
    obtain ⟨b, hb⟩ := (Tree.mem_names_iff hproper).1 hnames
    obtain ⟨hne, hway⟩ := way_of_mem_names hproper hopen hnames
    exact ⟨names, b, hb, rfl, (passesBelow_iff_finds hne hway).1 hpasses⟩
  · rintro ⟨names, b, hb, rfl, hfinds⟩
    have hnames := (Tree.mem_names_iff hproper).2 ⟨b, hb⟩
    obtain ⟨hne, hway⟩ := way_of_mem_names hproper hopen hnames
    exact ⟨names, List.mem_filter.2 ⟨hnames, (passesBelow_iff_finds hne hway).2 hfinds⟩, rfl⟩

/-- With bare names every file is judged by itself. -/
theorem filesBy_eq_of_isBare (h : s.IsBare) : s.filesBy accepts root es =
    ((Tree.dir es).names.filter (s.keeps accepts root)).map (Path.joinAll root) := by
  rw [filesBy_eq]
  refine congrArg _ (List.filter_congr fun names hnames => ?_)
  obtain ⟨hne, hway⟩ := way_of_mem_names hproper hopen hnames
  exact passesBelow_eq_keeps_of_isBare h hne hway

end OpenDirectories

/-- **A walk finds exactly the files that are not left out.** The globs may match any paths, and
every directory below the root can be opened. No two of the paths found are the same path; they are
those of the files with an extension that counts, in any case of its letters, that are not left out
and are in no directory below the root that is left out. With bare names alone it is enough to ask
whether the file is left out, that is, whether a directory between the root and the file has such a
name. The files that an analysis discovers are these. -/
theorem walk_exact (accepts : Glob → Text → Bool) (s : Sieve) (hd : d.tree.isProper = true)
    (hroot : d.find root = .ok (.dir es))
    (hopen : ∀ dirs inside, (Tree.dir es).get? dirs = some (.dir inside) →
      utf8Length (Path.joinAll root dirs) ≤ Disk.pathLimit) :
    ((s.filesBy accepts root es).map Path.components).Nodup ∧
    (∀ path, path ∈ s.filesBy accepts root es ↔ ∃ names b,
      (Tree.dir es).get? names = some (.file b) ∧ path = Path.joinAll root names ∧
      s.Finds accepts root names) ∧
    (s.IsBare → s.filesBy accepts root es =
        ((Tree.dir es).names.filter (s.keeps accepts root)).map (Path.joinAll root) ∧
      ∀ names, s.leavesOutBy accepts root names false = true ↔
        ∃ n ∈ names.dropLast, Exclude.name n ∈ s.excludes) ∧
    ∀ p : Plan, p.sieve = s → ∃ seen, p.discover d root = .ok seen ∧
      seen.filterMap Sighting.found? = s.filesBy Glob.accepts root es := by
  obtain ⟨there, hthere, hget⟩ := Disk.exists_of_find hroot
  have hproper := (Tree.isProper_of_get? hd hget).1
  refine ⟨nodup_filesBy (Disk.resolve_eq_ok_iff.1 hthere).2.1 hproper,
    fun path => mem_filesBy_iff hproper hopen, fun hbare => ⟨?_, fun names => ?_⟩, ?_⟩
  · exact filesBy_eq_of_isBare hproper hopen hbare
  · exact leavesOutBy_iff_of_isBare hbare
  · rintro p rfl
    refine ⟨p.sieve.walk root (.dir es), ?_, p.sieve.found_walk_eq root es⟩
    unfold Plan.discover
    rw [hroot]

/-- A root with the name that is left out, and a glob that leaves out a directory but no file. -/
theorem walk_exact_vendor :
    let es : List (Text × Tree) := [("A.PHP", .file []), ("gen", .dir [("b.php", .file [])]),
      ("vendor", .dir [("c.php", .file [])]), ("vendor.php", .file [])]
    let d : Disk := { tree := .dir [("vendor", .dir es)] }
    let p : Plan := { paths := ["vendor"]
                      sieve := {
                        excludes := [.name "vendor", .glob ⟨("vendor/gen" : Text).map .char⟩]
                        extensions := ["php"] }
                      registry := Registry.standard }
    d.tree.isProper = true ∧ ∃ seen, p.discover d "vendor" = .ok seen ∧
      seen.filterMap Sighting.found? = ["vendor/A.PHP".toList, "vendor/vendor.php"] := by
  intro es d p
  have hproper : d.tree.isProper = true := by decide +kernel
  have hroot : d.find "vendor" = .ok (.dir es) := rfl
  have hshort : ∀ dirs, ((Tree.dir es).get? dirs).isSome = true →
      utf8Length (Path.joinAll "vendor" dirs) ≤ Disk.pathLimit := by
    have hinside : ∀ n m : Text, utf8Length (Path.joinAll "vendor" [n]) ≤ Disk.pathLimit →
        utf8Length (Path.joinAll "vendor" [n, m]) ≤ Disk.pathLimit →
        ∀ ns, ((Tree.dir [(m, .file [])]).get? ns).isSome = true →
          utf8Length (Path.joinAll "vendor" (n :: ns)) ≤ Disk.pathLimit := fun n m hn hm =>
      Tree.forall_get?_dir hn (List.forall_mem_singleton.2 (Tree.forall_get?_file hm))
    refine Tree.forall_get?_dir (by decide) ?_
    simp only [es, List.forall_mem_cons, List.not_mem_nil, false_imp_iff, implies_true, and_true]
    refine ⟨?_, ?_, ?_, ?_⟩
    · exact Tree.forall_get?_file (by decide)
    · exact hinside "gen" "b.php" (by decide) (by decide)
    · exact hinside "vendor" "c.php" (by decide) (by decide)
    · exact Tree.forall_get?_file (by decide)
  obtain ⟨_, _, _, hdiscover⟩ := walk_exact Glob.accepts p.sieve hproper hroot fun dirs inside h =>
    hshort dirs (by rw [h]; rfl)
  obtain ⟨seen, hseen, hfound⟩ := hdiscover p rfl
  refine ⟨hproper, seen, hseen, hfound.trans ?_⟩
  decide +kernel

end Sieve

end DocLint
