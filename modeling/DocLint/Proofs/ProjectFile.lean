import DocLint.Command.Origin
import DocLint.Proofs.Names

/-!
# Where the project file is found

The project file is looked for in the working directory, as `.`, and then in the directories above
it, as absolute paths. From a directory below that of the file it is therefore found under another
path, and the root in it is anchored at another path, but both lead to the same place.

* `Disk.resolve_absolute`, `Disk.isFile_absolute`, `Path.parent_absolute`: absolute paths.
* `Origin.settingsName?`, `Encloses`: the project file of a directory, and a directory below it for
  which it is the nearest one.
* `Encloses.locate_project`, `Encloses.locate_below`: what is found from either directory.
* `Encloses.resolve_anchor`: the root leads to the same place from either directory.
-/

namespace DocLint

open Text

/-! ## Absolute paths -/

theorem ne_nil_of_isName {n : Text} (h : isName n = true) : n ≠ [] := by
  rintro rfl
  exact absurd h (by decide)

theorem isName_append_singleton {names : List Text} {n : Text}
    (h : ∀ m ∈ names, isName m = true) (hn : isName n = true) :
    ∀ m ∈ names ++ [n], isName m = true :=
  List.forall_mem_append.2 ⟨h, List.forall_mem_singleton.2 hn⟩

/-- A text with a name at its end does not end with a slash. -/
theorem getLast?_append_name {n : Text} (h : isName n = true) (p : Text) :
    (p ++ n).getLast? ≠ some '/' := by
  obtain ⟨_, _, hslash, _⟩ := isName_iff.1 h
  rw [List.getLast?_append_of_ne_nil _ (ne_nil_of_isName h)]
  exact fun hmem => hslash (List.mem_of_getLast? hmem)

theorem Path.joinAll_eq_join {p : Text} (hp : p ≠ []) (hlast : p.getLast? ≠ some '/')
    {names : List Text} (h : ∀ n ∈ names, isName n = true) :
    joinAll p names = Text.join ['/'] (p :: names) := by
  induction names generalizing p with
  | nil => rfl
  | cons n names ih =>
      have hn := h n List.mem_cons_self
      have hjoin : join p n = p ++ '/' :: n := by
        unfold join
        rw [if_neg (by simp [isAbsolute_of_isName hn]), if_neg (by simp [hp, hlast])]
      have hlast' : (p ++ '/' :: n).getLast? ≠ some '/' := by
        rw [List.append_cons]
        exact getLast?_append_name hn _
      rw [joinAll_cons, hjoin, ih (by simp) hlast' fun m hm => h m (List.mem_cons_of_mem n hm)]
      cases names <;> simp [Text.join]

namespace Disk

variable {d : Disk} {names : List Text}

/-- An absolute path is the root with the names behind it. -/
theorem absolute_eq (h : ∀ n ∈ names, isName n = true) :
    absolute names = Path.joinAll ['/'] names := by
  cases names with
  | nil => rfl
  | cons n names =>
      have hn := h n List.mem_cons_self
      have hjoin : Path.join ['/'] n = '/' :: n := by
        unfold Path.join
        rw [if_neg (by simp [Path.isAbsolute_of_isName hn])]
        rfl
      have hlast : ('/' :: n).getLast? ≠ some '/' := getLast?_append_name hn ['/']
      rw [Path.joinAll_cons, hjoin, Path.joinAll_eq_join (by simp) hlast fun m hm =>
        h m (List.mem_cons_of_mem n hm)]
      unfold absolute
      cases names <;> simp [Text.join]

theorem join_absolute {n : Text} (h : ∀ m ∈ names, isName m = true) (hn : isName n = true) :
    Path.join (absolute names) n = absolute (names ++ [n]) := by
  have hall := isName_append_singleton h hn
  rw [absolute_eq h, absolute_eq hall, Path.joinAll_append]
  rfl

theorem components_absolute (h : ∀ n ∈ names, isName n = true) :
    Path.components (absolute names) = .root :: names.map .name := by
  rw [absolute_eq h, Path.components_joinAll (by simp) h]
  rfl

/-- An absolute path leads nowhere but to its names. -/
theorem place_of_absolute (h : ∀ n ∈ names, isName n = true) {place : List Text}
    (hplace : d.resolve (absolute names) = .ok place) : place = names := by
  have hfront : Path.components (absolute names) = [.root] ++ names.map .name :=
    components_absolute h
  obtain ⟨here, hhere, rfl⟩ := resolve_front hfront hplace
  cases hhere
  rfl

theorem resolve_absolute (hd : d.tree.isProper = true) (hroot : d.tree.isDir = true)
    (hthere : (d.tree.get? names).isSome = true)
    (hlength : utf8Length (absolute names) ≤ pathLimit) :
    d.resolve (absolute names) = .ok names := by
  obtain ⟨t, ht⟩ := Option.isSome_iff_exists.1 hthere
  have hnames := (Tree.isProper_of_get? hd ht).2
  have hslash : d.resolve ['/'] = .ok [] := by
    obtain ⟨tree, cwd⟩ := d
    cases tree with
    | file b => cases hroot
    | dir es => rfl
  rw [absolute_eq hnames] at hlength ⊢
  exact resolve_joinAll hd hslash hthere hlength

theorem resolve_join_of_null {p q : Text} (hp : p ≠ []) (hq : Path.isAbsolute q = false)
    (hnull : '\x00' ∈ q) : d.resolve (Path.join p q) = .error .nullInPath := by
  obtain ⟨s, hs, _⟩ := Path.join_eq hp hq
  unfold resolve
  rw [hs, if_pos (by simp [hnull])]

/-- The working directory is where `.` leads. -/
theorem resolve_dot {es : List (Text × Tree)} (h : d.tree.get? d.cwd = some (.dir es)) :
    d.resolve ['.'] = .ok d.cwd := by
  refine resolve_eq_ok_iff.2 ⟨by decide, by decide, by decide, ?_⟩
  refine foldlM_cons_ok_iff.2 ⟨d.cwd, ?_, rfl⟩
  show follow d.tree d.cwd ['.'] = _
  unfold follow
  rw [h]
  rfl

theorem isFile_iff {p : Text} : d.isFile p = true ↔
    ∃ place, d.resolve p = .ok place ∧ (d.tree.get? place).any Tree.isFile = true := by
  unfold isFile
  constructor
  · intro h
    cases hfind : d.find p with
    | error e =>
        rw [hfind] at h
        cases h
    | ok t =>
        rw [hfind] at h
        obtain ⟨place, hplace, hget⟩ := exists_of_find hfind
        exact ⟨place, hplace, by rw [hget]; exact h⟩
  · rintro ⟨place, hplace, h⟩
    cases hget : d.tree.get? place with
    | none =>
        rw [hget] at h
        cases h
    | some t =>
        rw [hget] at h
        rw [find_of_resolve hplace hget]
        exact h

/-- A name behind a path is a file if the entry is one. -/
theorem isFile_join {p n : Text} {here : List Text} (hp : d.resolve p = .ok here)
    (hn : isName n = true) (hlength : utf8Length (Path.join p n) ≤ pathLimit) :
    d.isFile (Path.join p n) = (d.tree.get? (here ++ [n])).any Tree.isFile := by
  rw [Bool.eq_iff_iff, isFile_iff]
  constructor
  · rintro ⟨place, hplace, h⟩
    obtain ⟨hidle, hdots, hslash, hnull, _⟩ := isName_iff.1 hn
    rw [resolve_join_eq hp (Path.isAbsolute_of_isName hn) hnull hlength, splitOn_of_not_mem hslash]
      at hplace
    have hname : ∀ m ∈ [n], Path.isIdle m = false ∧ m ≠ ['.', '.'] := by
      intro m hm
      rw [List.mem_singleton.1 hm]
      exact ⟨hidle, hdots⟩
    rwa [← foldlM_follow_names hname hplace]
  · intro h
    exact ⟨here ++ [n], resolve_join hp hn (Option.isSome_of_any h) hlength, h⟩

/-- An absolute path is a file if its names lead to one and it is not too long. -/
theorem isFile_absolute (hd : d.tree.isProper = true) (hroot : d.tree.isDir = true)
    (h : ∀ n ∈ names, isName n = true) :
    d.isFile (absolute names) = (decide (utf8Length (absolute names) ≤ pathLimit) &&
      (d.tree.get? names).any Tree.isFile) := by
  rw [Bool.eq_iff_iff, isFile_iff, Bool.and_eq_true, decide_eq_true_eq]
  constructor
  · rintro ⟨place, hplace, hfile⟩
    rw [place_of_absolute h hplace] at hfile
    exact ⟨(resolve_eq_ok_iff.1 hplace).2.2.1, hfile⟩
  · rintro ⟨hlength, hfile⟩
    exact ⟨names, resolve_absolute hd hroot (Option.isSome_of_any hfile) hlength, hfile⟩

end Disk

/-! ## The directory of a path -/

namespace Path

variable {n : Text}

theorem trimParts_append (hn : isIdle n = false) (first : Text) (rest : List Text) :
    trimParts (first :: rest ++ [n]) = first :: rest ++ [n] := by
  rw [List.cons_append, trimParts, List.reverse_append, List.reverse_singleton,
    List.singleton_append, List.dropWhile_cons_of_neg (by simp [hn]), List.reverse_cons,
    List.reverse_reverse]

theorem splitOn_names {names : List Text} (h : ∀ m ∈ names, isName m = true) (hne : names ≠ []) :
    splitOn '/' (Text.join ['/'] names) = names := by
  induction names with
  | nil => exact absurd rfl hne
  | cons m names ih =>
      obtain ⟨_, _, hslash, _⟩ := isName_iff.1 (h m List.mem_cons_self)
      cases names with
      | nil => exact splitOn_of_not_mem hslash
      | cons k names =>
          rw [Text.join, List.append_assoc, List.singleton_append, splitOn_append,
            splitOn_of_not_mem hslash, ih (fun l hl => h l (List.mem_cons_of_mem m hl)) (by simp)]
          · rfl
          · simp

/-- The directory of a name behind the root or behind other names. -/
theorem parent_absolute {names : List Text} (h : ∀ m ∈ names, isName m = true)
    (hn : isName n = true) : parent (Disk.absolute (names ++ [n])) = Disk.absolute names := by
  have hidle : ∀ {m : Text}, isName m = true → isIdle m = false := fun hm => (isName_iff.1 hm).1
  have hall := isName_append_singleton h hn
  have hsplit : splitOn '/' (Disk.absolute (names ++ [n])) = [] :: names ++ [n] := by
    rw [Disk.absolute, splitOn, if_pos rfl, splitOn_names hall (by simp)]
    rfl
  unfold parent
  rw [hsplit, trimParts_append (hidle hn), List.dropLast_concat]
  rcases List.eq_nil_or_concat names with rfl | ⟨front, m, rfl⟩
  · rfl
  · have hm : isName m = true := h m (by simp)
    rw [List.concat_eq_append, ← List.cons_append, trimParts_append (hidle hm)]
    cases front <;> rfl

end Path

/-! ## The project file of a directory -/

namespace Command

namespace Origin

/-- The name of the project file of a directory. -/
def settingsName? (t : Tree) (dir : List Text) : Option Text :=
  projectNames.find? fun n => (t.get? (dir ++ [n])).any Tree.isFile

theorem isName_of_mem_projectNames : ∀ n ∈ projectNames, isName n = true := by decide

theorem mem_of_settingsName? {t : Tree} {dir : List Text} {name : Text}
    (h : settingsName? t dir = some name) :
    name ∈ projectNames ∧ (t.get? (dir ++ [name])).any Tree.isFile = true :=
  ⟨List.mem_of_find?_eq_some h, by simpa using List.find?_some h⟩

/-- From its own directory the project file is found as a name behind `.`. -/
theorem projectFile?_dot {d : Disk} {es : List (Text × Tree)}
    (h : d.tree.get? d.cwd = some (.dir es)) :
    projectFile? d ['.'] = (settingsName? d.tree d.cwd).map (Path.join ['.']) := by
  have hfile : ∀ n ∈ projectNames, d.isFile (Path.join ['.'] n) =
      (d.tree.get? (d.cwd ++ [n])).any Tree.isFile := by
    intro n hn
    refine Disk.isFile_join (Disk.resolve_dot h) (isName_of_mem_projectNames n hn) ?_
    revert n
    decide
  unfold projectFile? settingsName?
  rw [List.find?_map]
  simp only [← List.head?_filter]
  exact congrArg (Option.map _) (congrArg List.head? (List.filter_congr hfile))

section Above

variable {d : Disk} {dir : List Text} (hd : d.tree.isProper = true) (hroot : d.tree.isDir = true)
  (hdir : ∀ n ∈ dir, isName n = true)

include hd hroot hdir

theorem isFile_join_absolute {n : Text} (hn : isName n = true) :
    d.isFile (Path.join (Disk.absolute dir) n) =
      (decide (utf8Length (Disk.absolute (dir ++ [n])) ≤ Disk.pathLimit) &&
        (d.tree.get? (dir ++ [n])).any Tree.isFile) := by
  rw [Disk.join_absolute hdir hn,
    Disk.isFile_absolute hd hroot (isName_append_singleton hdir hn)]

/-- A directory above without a project file is passed over. -/
theorem projectFile?_absolute_eq_none (h : settingsName? d.tree dir = none) :
    projectFile? d (Disk.absolute dir) = none := by
  unfold projectFile?
  rw [List.find?_map, Option.map_eq_none_iff, List.find?_eq_none]
  intro n hn
  have hnone := List.find?_eq_none.1 h n hn
  rw [Function.comp_apply, isFile_join_absolute hd hroot hdir (isName_of_mem_projectNames n hn)]
  simp only [Bool.and_eq_true]
  exact fun hfile => hnone hfile.2

/-- The project file of a directory above is found under its absolute path, if that is not too
long. -/
theorem projectFile?_absolute_eq_some {name : Text} (h : settingsName? d.tree dir = some name)
    (hlength : utf8Length (Disk.absolute (dir ++ [name])) ≤ Disk.pathLimit) :
    projectFile? d (Disk.absolute dir) = some (Disk.absolute (dir ++ [name])) := by
  have hjoin : ∀ n ∈ projectNames, Path.join (Disk.absolute dir) n = Disk.absolute (dir ++ [n]) :=
    fun n hn => Disk.join_absolute hdir (isName_of_mem_projectNames n hn)
  obtain ⟨hfile, before, after, hnames, hbefore⟩ := List.find?_eq_some_iff_append.1 h
  have hname : name ∈ projectNames := by
    rw [hnames]
    simp
  unfold projectFile?
  rw [List.find?_map, Option.map_eq_some_iff]
  refine ⟨name, List.find?_eq_some_iff_append.2 ⟨?_, before, after, hnames, fun n hn => ?_⟩,
    hjoin name hname⟩
  · rw [Function.comp_apply,
      isFile_join_absolute hd hroot hdir (isName_of_mem_projectNames name hname),
      decide_eq_true hlength, hfile]
    rfl
  · have hmem : n ∈ projectNames := by
      rw [hnames]
      exact List.mem_append_left _ hn
    have hnone := hbefore n hn
    rw [Bool.not_eq_true'] at hnone
    rw [Function.comp_apply, isFile_join_absolute hd hroot hdir (isName_of_mem_projectNames n hmem),
      hnone, Bool.and_false]
    rfl

end Above

/-! ## What it says -/

/-- The settings in the file that names lead to. -/
def settingsAt? (t : Tree) (names : List Text) : Option Settings :=
  match t.get? names with
  | some (.file b) => (Utf8.decode? b).bind Settings.parse?
  | _ => none

theorem toOption_readFile {d : Disk} {p : Text} {place : List Text}
    (h : d.resolve p = .ok place) : (readFile d p).toOption = settingsAt? d.tree place := by
  have hfile : (readFile d p).toOption = (d.readText p).toOption.bind Settings.parse? := by
    unfold readFile
    cases d.readText p with
    | error e => rfl
    | ok text =>
        dsimp only [Except.toOption, Option.bind]
        cases Settings.parse? text <;> rfl
  rw [hfile]
  unfold settingsAt? Disk.readText Disk.read Disk.find
  simp only [h, bind, Except.bind]
  cases d.tree.get? place with
  | none => rfl
  | some t =>
      cases t with
      | dir es => rfl
      | file b =>
          dsimp only [pure, Except.pure]
          cases Utf8.decode? b <;> rfl

/-- The settings of a project, with the root seen from the directory of the file. -/
theorem toOption_load {d : Disk} {p : Text} {place : List Text} (h : d.resolve p = .ok place) :
    (load d (.project p)).toOption = (settingsAt? d.tree place).map fun s =>
      { s with root := anchor (Path.parent p) s.root } := by
  rw [← toOption_readFile h]
  show (readFile d p >>= fun s => _).toOption = _
  cases readFile d p <;> rfl

end Origin

/-! ## A directory below -/

/-- The directory `project` has a project file `name`, which is the nearest one for the directory
that lies `below` it. -/
structure Encloses (t : Tree) (project below : List Text) (name : Text) : Prop where
  proper : t.isProper = true
  deeper : below ≠ []
  directory : (t.get? (project ++ below)).any Tree.isDir = true
  file : Origin.settingsName? t project = some name
  nearest : ∀ above, above <+: below → above ≠ [] → Origin.settingsName? t (project ++ above) = none

/-- The directories from the project file down are a finite number. -/
theorem encloses_iff {t : Tree} {project below : List Text} {name : Text} :
    Encloses t project below name ↔ t.isProper = true ∧ below ≠ [] ∧
      (t.get? (project ++ below)).any Tree.isDir = true ∧
      Origin.settingsName? t project = some name ∧
      ∀ i < below.length, Origin.settingsName? t (project ++ below.take (i + 1)) = none := by
  constructor
  · rintro ⟨hproper, hdeeper, hdirectory, hfile, hnearest⟩
    refine ⟨hproper, hdeeper, hdirectory, hfile, fun i hi => ?_⟩
    exact hnearest _ (List.take_prefix _ _) (by simp [hdeeper])
  · rintro ⟨hproper, hdeeper, hdirectory, hfile, hnearest⟩
    refine ⟨hproper, hdeeper, hdirectory, hfile, fun above habove hne => ?_⟩
    obtain ⟨n, ns, rfl⟩ := List.exists_cons_of_ne_nil hne
    rw [List.prefix_iff_eq_take.1 habove]
    exact hnearest ns.length (Nat.lt_of_succ_le habove.length_le)

instance (t : Tree) (project below : List Text) (name : Text) :
    Decidable (Encloses t project below name) :=
  decidable_of_iff _ encloses_iff.symm

namespace Encloses

variable {t : Tree} {project below : List Text} {name : Text} (h : Encloses t project below name)

include h

theorem dir_below : ∃ es, t.get? (project ++ below) = some (.dir es) := by
  have hdir := h.directory
  cases hget : t.get? (project ++ below) with
  | none =>
      rw [hget] at hdir
      cases hdir
  | some u =>
      cases u with
      | file b =>
          rw [hget] at hdir
          cases hdir
      | dir es => exact ⟨es, rfl⟩

theorem dir_project : ∃ es, t.get? project = some (.dir es) := by
  obtain ⟨es, hget⟩ := h.dir_below
  rw [Tree.get?_append] at hget
  obtain ⟨u, hu, hrest⟩ := Option.bind_eq_some_iff.1 hget
  cases u with
  | file b =>
      obtain ⟨n, ns, hbelow⟩ := List.exists_cons_of_ne_nil h.deeper
      rw [hbelow] at hrest
      cases hrest
  | dir es => exact ⟨es, hu⟩

theorem isDir_root : t.isDir = true := by
  obtain ⟨es, hget⟩ := h.dir_project
  cases t with
  | file b =>
      cases project with
      | nil => cases hget
      | cons n ns => cases hget
  | dir es => rfl

theorem isName_of_mem : ∀ n ∈ project ++ below, isName n = true := by
  obtain ⟨es, hget⟩ := h.dir_below
  exact (Tree.isProper_of_get? h.proper hget).2

theorem isName_of_mem_project : ∀ n ∈ project, isName n = true :=
  fun n hn => h.isName_of_mem n (List.mem_append_left _ hn)

theorem isName_name : isName name = true :=
  Origin.isName_of_mem_projectNames name (Origin.mem_of_settingsName? h.file).1

theorem locate_project (globalDir : Option Text) :
    Origin.locate { tree := t, cwd := project } ['.'] none globalDir =
      .project (Path.join ['.'] name) := by
  obtain ⟨es, hget⟩ := h.dir_project
  have hfile : Origin.projectFile? { tree := t, cwd := project } ['.'] =
      some (Path.join ['.'] name) := by
    rw [Origin.projectFile?_dot hget, h.file]
    rfl
  unfold Origin.locate Origin.projectDirs
  rw [List.findSome?_cons, hfile]

/-- The directories above the working directory, down to that of the project file, have none. -/
theorem above_eq : ∃ nearer farther,
    Origin.above (project ++ below) = nearer ++ project :: farther ∧
    ∀ dir ∈ nearer, ∃ above, above <+: below ∧ above ≠ [] ∧ dir = project ++ above := by
  obtain ⟨n, ns, rfl⟩ := List.exists_cons_of_ne_nil h.deeper
  have htake : ∀ i, (project ++ n :: ns).take (project.length + i) = project ++ (n :: ns).take i :=
    fun i => List.take_length_add_append i
  refine ⟨((List.range ns.length).map fun i => project ++ (n :: ns).take (i + 1)).reverse,
    (List.range project.length).reverse.map (project ++ n :: ns).take, ?_, ?_⟩
  · unfold Origin.above
    rw [List.length_append, List.length_cons, List.range_add, List.range_succ_eq_map, List.map_cons,
      List.map_map, List.reverse_append, List.reverse_cons, List.map_append, List.map_append,
      List.map_reverse, List.map_map]
    simp only [Function.comp_def, Nat.succ_eq_add_one, htake, List.map_cons, List.map_nil,
      List.take_zero, List.append_nil, List.append_assoc, List.singleton_append]
  · intro dir hdir
    obtain ⟨i, _, rfl⟩ := List.mem_map.1 (List.mem_reverse.1 hdir)
    exact ⟨(n :: ns).take (i + 1), List.take_prefix _ _, by simp, rfl⟩

/-- From below the project file is found under its absolute path. -/
theorem locate_below (globalDir : Option Text)
    (hlength : utf8Length (Disk.absolute (project ++ [name])) ≤ Disk.pathLimit) :
    Origin.locate { tree := t, cwd := project ++ below } ['.'] none globalDir =
      .project (Disk.absolute (project ++ [name])) := by
  obtain ⟨es, hget⟩ := h.dir_below
  have hhere : Origin.projectFile? { tree := t, cwd := project ++ below } ['.'] = none := by
    rw [Origin.projectFile?_dot hget]
    show (Origin.settingsName? t (project ++ below)).map _ = none
    rw [h.nearest below (List.prefix_refl below) h.deeper]
    rfl
  obtain ⟨nearer, farther, habove, hnearer⟩ := h.above_eq
  have hfound : ((Origin.above (project ++ below)).map Disk.absolute).findSome?
      (Origin.projectFile? { tree := t, cwd := project ++ below }) =
        some (Disk.absolute (project ++ [name])) := by
    rw [habove, List.findSome?_eq_some_iff]
    refine ⟨nearer.map Disk.absolute, Disk.absolute project, farther.map Disk.absolute, by simp,
      Origin.projectFile?_absolute_eq_some h.proper h.isDir_root h.isName_of_mem_project h.file
        hlength, ?_⟩
    intro path hpath
    obtain ⟨dir, hdir, rfl⟩ := List.mem_map.1 hpath
    obtain ⟨above, habove, hne, rfl⟩ := hnearer dir hdir
    have hnames := List.forall_mem_append.1 h.isName_of_mem
    refine Origin.projectFile?_absolute_eq_none h.proper h.isDir_root ?_
      (h.nearest above habove hne)
    exact List.forall_mem_append.2 ⟨hnames.1, fun n hn => hnames.2 n (habove.subset hn)⟩
  unfold Origin.locate Origin.projectDirs
  rw [List.findSome?_cons, hhere, Disk.resolve_dot hget]
  simp only [hfound]

/-- From its own directory the project file is where its name leads. -/
theorem resolve_file_project :
    Disk.resolve { tree := t, cwd := project } (Path.join ['.'] name) =
      .ok (project ++ [name]) := by
  obtain ⟨es, hget⟩ := h.dir_project
  obtain ⟨hmem, hfile⟩ := Origin.mem_of_settingsName? h.file
  have hshort : ∀ n ∈ projectNames, utf8Length (Path.join ['.'] n) ≤ Disk.pathLimit := by decide
  exact Disk.resolve_join (Disk.resolve_dot hget) h.isName_name (Option.isSome_of_any hfile)
    (hshort name hmem)

/-- From below it is where its absolute path leads. -/
theorem resolve_file_below
    (hlength : utf8Length (Disk.absolute (project ++ [name])) ≤ Disk.pathLimit) :
    Disk.resolve { tree := t, cwd := project ++ below } (Disk.absolute (project ++ [name])) =
      .ok (project ++ [name]) :=
  Disk.resolve_absolute h.proper h.isDir_root
    (Option.isSome_of_any (Origin.mem_of_settingsName? h.file).2) hlength

theorem load_project : (Origin.load { tree := t, cwd := project }
    (.project (Path.join ['.'] name))).toOption =
      (Origin.settingsAt? t (project ++ [name])).map fun s =>
        { s with root := Origin.anchor ['.'] s.root } := by
  have hparent : ∀ n ∈ projectNames, Path.parent (Path.join ['.'] n) = ['.'] := by decide
  rw [Origin.toOption_load h.resolve_file_project,
    hparent name (Origin.mem_of_settingsName? h.file).1]

theorem load_below
    (hlength : utf8Length (Disk.absolute (project ++ [name])) ≤ Disk.pathLimit) :
    (Origin.load { tree := t, cwd := project ++ below }
      (.project (Disk.absolute (project ++ [name])))).toOption =
        (Origin.settingsAt? t (project ++ [name])).map fun s =>
          { s with root := Origin.anchor (Disk.absolute project) s.root } := by
  rw [Origin.toOption_load (h.resolve_file_below hlength),
    Path.parent_absolute h.isName_of_mem_project h.isName_name]

/-! ## Its root -/

/-- A root that is relative leads to the same place from either directory, if its path is not too
long from either. -/
theorem resolve_anchor {root : Text} (hroot : Path.isAbsolute root = false)
    (hproject : utf8Length (Origin.anchor ['.'] root) ≤ Disk.pathLimit)
    (hbelow : utf8Length (Origin.anchor (Disk.absolute project) root) ≤ Disk.pathLimit) :
    Disk.resolve { tree := t, cwd := project } (Origin.anchor ['.'] root) =
      Disk.resolve { tree := t, cwd := project ++ below }
        (Origin.anchor (Disk.absolute project) root) := by
  obtain ⟨es, hget⟩ := h.dir_project
  have hdot := Disk.resolve_dot (d := { tree := t, cwd := project }) hget
  have habsolute : utf8Length (Disk.absolute project) ≤ Disk.pathLimit →
      Disk.resolve { tree := t, cwd := project ++ below } (Disk.absolute project) =
        .ok project := by
    refine Disk.resolve_absolute h.proper h.isDir_root ?_
    show (t.get? project).isSome = true
    rw [hget]
    rfl
  have hanchor : ∀ dir, Origin.anchor dir root =
      if Path.same root ['.'] then dir else Path.join dir root :=
    fun dir => if_neg (by simp [hroot])
  rw [hanchor] at hproject hbelow
  rw [hanchor, hanchor]
  split
  · rename_i hsame
    rw [if_pos hsame] at hbelow
    rw [hdot, habsolute hbelow]
  · rename_i hsame
    rw [if_neg hsame] at hproject hbelow
    have hne : Disk.absolute project ≠ [] := by simp [Disk.absolute]
    have hplace := habsolute (Nat.le_trans (Path.utf8Length_le_join hne hroot) hbelow)
    -- a null character is refused before any part of the path is followed
    by_cases hnull : '\x00' ∈ root
    · rw [Disk.resolve_join_of_null (by decide) hroot hnull,
        Disk.resolve_join_of_null hne hroot hnull]
    · rw [Disk.resolve_join_eq hdot hroot hnull hproject,
        Disk.resolve_join_eq hplace hroot hnull hbelow]

end Encloses

end Command

end DocLint
