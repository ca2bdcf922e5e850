import DocLint.Command.Basic
import DocLint.Proofs.ProjectFile
import DocLint.Proofs.Relocation

/-!
# A check from a directory below the project

Without paths on the command line a check goes by the project file, wherever below its directory it
is run. The two runs name the file and the root of the project differently. What agrees are places
and names: the settings come from one file, the files checked are the same, and the violations
differ in what stands in front of the names.

* `Environment.plan?`, `Environment.CarriesOut`: the plan of a check, and what comes of it.
* `Request.plan_of_bare`: with bare names the root changes nothing but the path of the plan.
* `check_from_below`: the two runs.
-/

namespace DocLint

open Text

/-! ## Bare names -/

/-- Every pattern is the bare name of a directory, also written between stars. -/
def AllBare (patterns : List Text) : Prop := ∀ x ∈ patterns, (Exclude.bareName? x).isSome = true

namespace Request

theorem mapM_parse {patterns : List Text} (h : AllBare patterns) :
    patterns.mapM Exclude.parse = .ok (patterns.filterMap fun x =>
      (Exclude.bareName? x).map .name) := by
  induction patterns with
  | nil => rfl
  | cons x patterns ih =>
      obtain ⟨n, hn⟩ := Option.isSome_iff_exists.1 (h x List.mem_cons_self)
      have hparse : Exclude.parse x = .ok (.name n) := by
        unfold Exclude.parse
        rw [hn]
      rw [List.mapM_cons, hparse, ih fun y hy => h y (List.mem_cons_of_mem x hy),
        List.filterMap_cons, hn]
      rfl

/-- With bare names a request is always worked out, and its root is at most the path of the plan. -/
theorem plan_of_bare {r : Request} (h : AllBare (r.excludes ++ r.settings.exclude)) :
    ∃ s : Sieve, s.IsBare ∧ ∀ root, { r with settings := { r.settings with root } }.plan =
      .ok { paths := if r.paths.isEmpty then [root] else r.paths
            sieve := s
            registry := r.chosenRules } := by
  refine ⟨{ excludes := (r.excludes ++ r.settings.exclude).filterMap fun x =>
              (Exclude.bareName? x).map .name
            extensions := if r.extensions.isEmpty then r.settings.extensions else r.extensions },
    ?_, fun root => ?_⟩
  · intro x hx
    obtain ⟨_, _, hx⟩ := List.mem_filterMap.1 hx
    obtain ⟨n, _, rfl⟩ := Option.map_eq_some_iff.1 hx
    exact ⟨n, rfl⟩
  · unfold plan
    rw [mapM_parse h]
    rfl

/-- Whatever is chosen from the built-in rules is built in. -/
theorem mem_builtin_of_chosen {r : Request} (h : r.registry.rules = Rule.builtin) :
    ∀ rule ∈ r.chosenRules.enabledRules, rule ∈ Rule.builtin := by
  have hrules : r.chosenRules.rules = Rule.builtin := by
    have hconfigure := (Registry.retunes_configure r.registry r.settings).rules_eq
    unfold chosenRules
    cases r.selection with
    | none => exact hconfigure.trans h
    | some selectors =>
        show ((r.registry.configure r.settings).selectOnly selectors).rules = _
        rw [Registry.selectOnly_eq]
        exact hconfigure.trans h
  intro rule hrule
  rw [← hrules]
  exact (List.mem_filter.1 hrule).1

end Request

namespace Command

/-! ## The plan of a check -/

/-- What a check asks for under the settings. -/
def CheckOptions.request (o : CheckOptions) (settings : Settings) : Request where
  paths := o.paths
  excludes := o.excludes
  settings := settings
  registry := Registry.standard
  selection := o.selection

namespace Environment

/-- The environment with another working directory. -/
def within (env : Environment) (dir : List Text) : Environment :=
  { env with disk := { env.disk with cwd := dir } }

variable {env : Environment} {config : Option Text} {o : CheckOptions}

/-- Where the settings of a check come from. -/
def origin (env : Environment) (config : Option Text) (o : CheckOptions) : Origin :=
  Origin.locate env.disk (env.projectDir o.paths) config env.settingsDir

/-- The plan of a check, if there are settings and the patterns are well-formed. -/
def plan? (env : Environment) (config : Option Text) (o : CheckOptions) : Option Plan :=
  ((env.origin config o).load env.disk).toOption.bind fun s => (o.request s).plan.toOption

theorem plan?_of_load {s : Settings} (h : (env.origin config o).load env.disk = .ok s) :
    env.plan? config o = (o.request s).plan.toOption := by
  unfold plan?
  rw [h]
  rfl

theorem runCheck_eq (env : Environment) (config : Option Text) (o : CheckOptions) :
    env.runCheck config o = match (env.origin config o).load env.disk with
      | .error e => env.failed [] (.settings e)
      | .ok s => env.runRequest [.settingsFrom (env.origin config o).describe] (o.request s)
          (o.format.getD .text) := rfl

/-- The check carries out the plan: what it writes and its exit code are those of the report. -/
structure CarriesOut (env : Environment) (config : Option Text) (o : CheckOptions) (p : Plan) :
    Prop where
  plan_eq : env.plan? config o = some p
  output_eq : (env.runCheck config o).output =
    (p.analyze env.disk).output env.snippetSource (o.format.getD .text)
  exitCode_eq : (env.runCheck config o).exitCode =
    if (p.analyze env.disk).hasErrors || !(p.analyze env.disk).errors.isEmpty then 1 else 0

theorem carriesOut_of_plan? {p : Plan} (h : env.plan? config o = some p) :
    env.CarriesOut config o p := by
  cases hs : (env.origin config o).load env.disk with
  | error e =>
      unfold plan? at h
      rw [hs] at h
      cases h
  | ok s =>
      have hplan : (o.request s).plan = .ok p := by
        rw [plan?_of_load hs] at h
        cases hp : (o.request s).plan with
        | error e =>
            rw [hp] at h
            cases h
        | ok p' =>
            rw [hp] at h
            cases h
            rfl
      have hrun : env.runCheck config o = env.runRequest
          [.settingsFrom (env.origin config o).describe] (o.request s) (o.format.getD .text) := by
        rw [runCheck_eq, hs]
      unfold runRequest at hrun
      rw [hplan] at hrun
      exact ⟨h, by rw [hrun], by rw [hrun]⟩

/-- A check without a plan fails. -/
theorem exitCode_of_plan?_eq_none (h : env.plan? config o = none) :
    (env.runCheck config o).exitCode = 1 := by
  rw [runCheck_eq]
  cases hs : (env.origin config o).load env.disk with
  | error e => rfl
  | ok s =>
      rw [plan?_of_load hs] at h
      show (env.runRequest _ (o.request s) _).exitCode = 1
      unfold runRequest
      cases hp : (o.request s).plan with
      | error e => rfl
      | ok p =>
          rw [hp] at h
          cases h

/-- Checks with the same report, up to the paths in it, end in the same way. -/
theorem CarriesOut.exitCode_eq_of_sameReport {env' : Environment} {p q : Plan} {x y : Text}
    (hp : env.CarriesOut config o p) (hq : env'.CarriesOut config o q)
    (h : Plan.SameReport x y (p.analyze env.disk) (q.analyze env'.disk)) :
    (env.runCheck config o).exitCode = (env'.runCheck config o).exitCode := by
  have herrors : (p.analyze env.disk).errors.isEmpty = (q.analyze env'.disk).errors.isEmpty := by
    rw [Bool.eq_iff_iff, List.isEmpty_iff, List.isEmpty_iff]
    exact h.errors_iff
  rw [hp.exitCode_eq, hq.exitCode_eq, h.hasErrors_eq, herrors]

end Environment

/-! ## The two runs -/

namespace Encloses

variable {env : Environment} {o : CheckOptions} {project below : List Text} {name : Text}
  (h : Encloses env.disk.tree project below name) (hpaths : o.paths = [])

include h hpaths

theorem origin_project : (env.within project).origin none o = .project (Path.join ['.'] name) := by
  unfold Environment.origin
  rw [hpaths]
  exact h.locate_project _

theorem origin_below (hfile : utf8Length (Disk.absolute (project ++ [name])) ≤ Disk.pathLimit) :
    (env.within (project ++ below)).origin none o =
      .project (Disk.absolute (project ++ [name])) := by
  unfold Environment.origin
  rw [hpaths]
  exact h.locate_below _ hfile

theorem plan?_project : (env.within project).plan? none o =
    (Origin.settingsAt? env.disk.tree (project ++ [name])).bind fun s =>
      (o.request { s with root := Origin.anchor ['.'] s.root }).plan.toOption := by
  have hload : (Origin.load (env.within project).disk (.project (Path.join ['.'] name))).toOption =
      _ := h.load_project
  unfold Environment.plan?
  rw [h.origin_project hpaths, hload, Option.bind_map]
  rfl

theorem plan?_below (hfile : utf8Length (Disk.absolute (project ++ [name])) ≤ Disk.pathLimit) :
    (env.within (project ++ below)).plan? none o =
      (Origin.settingsAt? env.disk.tree (project ++ [name])).bind fun s =>
        (o.request
          { s with root := Origin.anchor (Disk.absolute project) s.root }).plan.toOption := by
  have hload : (Origin.load (env.within (project ++ below)).disk
      (.project (Disk.absolute (project ++ [name])))).toOption = _ := h.load_below hfile
  unfold Environment.plan?
  rw [h.origin_below hpaths hfile, hload, Option.bind_map]
  rfl

/-- The two runs plan the same but for the path to the root. -/
theorem plans (hfile : utf8Length (Disk.absolute (project ++ [name])) ≤ Disk.pathLimit)
    {s : Settings} (hs : Origin.settingsAt? env.disk.tree (project ++ [name]) = some s)
    (hbare : AllBare (o.excludes ++ s.exclude)) :
    ∃ sieve : Sieve, sieve.IsBare ∧
      (env.within project).plan? none o =
        some ⟨[Origin.anchor ['.'] s.root], sieve, (o.request s).chosenRules⟩ ∧
      (env.within (project ++ below)).plan? none o =
        some ⟨[Origin.anchor (Disk.absolute project) s.root], sieve,
          (o.request s).chosenRules⟩ := by
  obtain ⟨sieve, hsieve, hplan⟩ := Request.plan_of_bare (r := o.request s) hbare
  have hplan : ∀ root, (o.request { s with root }).plan =
      .ok ⟨[root], sieve, (o.request s).chosenRules⟩ := by
    intro root
    have hempty : (o.request s).paths.isEmpty = true := List.isEmpty_iff.2 hpaths
    have hroot := hplan root
    rwa [if_pos hempty] at hroot
  refine ⟨sieve, hsieve, ?_, ?_⟩
  · rw [h.plan?_project hpaths, hs, Option.bind_some, hplan]
    rfl
  · rw [h.plan?_below hpaths hfile, hs, Option.bind_some, hplan]
    rfl

/-- They do the same work. -/
theorem sameWork_plans (hfile : utf8Length (Disk.absolute (project ++ [name])) ≤ Disk.pathLimit)
    {s : Settings} (hs : Origin.settingsAt? env.disk.tree (project ++ [name]) = some s)
    (hbare : AllBare (o.excludes ++ s.exclude))
    (hroot : Path.isAbsolute s.root = false →
      (env.within project).disk.Fits (Origin.anchor ['.'] s.root) ∧
      (env.within (project ++ below)).disk.Fits (Origin.anchor (Disk.absolute project) s.root)) :
    ∃ p q, (env.within project).plan? none o = some p ∧
      (env.within (project ++ below)).plan? none o = some q ∧
      Plan.SameWork p q (env.within project).disk (env.within (project ++ below)).disk
        (Origin.anchor ['.'] s.root) (Origin.anchor (Disk.absolute project) s.root) := by
  obtain ⟨sieve, hsieve, hp, hq⟩ := h.plans hpaths hfile hs hbare
  have hrules := Request.mem_builtin_of_chosen (r := o.request s) rfl
  refine ⟨_, _, hp, hq, ?_⟩
  cases habsolute : Path.isAbsolute s.root with
  | true =>
      -- the root is not anchored: both plans have the same path, and its length does not matter
      have hanchor : ∀ dir, Origin.anchor dir s.root = s.root := fun dir => if_pos habsolute
      rw [hanchor, hanchor]
      exact Plan.sameWork_of_isAbsolute ⟨rfl, rfl⟩ h.proper rfl habsolute rfl rfl hrules
  | false =>
      obtain ⟨hhere, hthere⟩ := hroot habsolute
      exact Plan.sameWork_of_resolve ⟨rfl, rfl⟩ h.proper rfl
        (h.resolve_anchor habsolute hhere.1 hthere.1) rfl hsieve rfl hrules hhere hthere

end Encloses

/-- **Running from a subdirectory checks the same project.** Let a directory have a project file,
and let it be the nearest one for a directory below. Without paths and with bare names for excludes,
a check in either directory goes by that file. If the file holds no settings, both fail. Otherwise
both carry out a plan: they check the same files of the tree, and the reports agree up to the roots
that stand in front of the names. The path of the file and, for a root that is relative, those to
what lies below it have to be short enough to be used. -/
theorem check_from_below (env : Environment) (o : CheckOptions) (project below : List Text)
    (name : Text) (h : Encloses env.disk.tree project below name) (hpaths : o.paths = [])
    (hbare : ∀ s, Origin.settingsAt? env.disk.tree (project ++ [name]) = some s →
      AllBare (o.excludes ++ s.exclude))
    (hfile : utf8Length (Disk.absolute (project ++ [name])) ≤ Disk.pathLimit)
    (hroot : ∀ s, Origin.settingsAt? env.disk.tree (project ++ [name]) = some s →
      Path.isAbsolute s.root = false →
        (env.within project).disk.Fits (Origin.anchor ['.'] s.root) ∧
        (env.within (project ++ below)).disk.Fits (Origin.anchor (Disk.absolute project) s.root)) :
    let here := env.within project
    let there := env.within (project ++ below)
    (∃ x y, here.origin none o = .project x ∧ there.origin none o = .project y ∧
      here.disk.resolve x = .ok (project ++ [name]) ∧
      there.disk.resolve y = .ok (project ++ [name])) ∧
    (here.runCheck none o).exitCode = (there.runCheck none o).exitCode ∧
    (Origin.settingsAt? env.disk.tree (project ++ [name]) = none →
      here.plan? none o = none ∧ there.plan? none o = none) ∧
    ∀ s, Origin.settingsAt? env.disk.tree (project ++ [name]) = some s →
      let x := Origin.anchor ['.'] s.root
      let y := Origin.anchor (Disk.absolute project) s.root
      ∃ (p q : Plan) (names : List (List Text)),
        here.CarriesOut none o p ∧ there.CarriesOut none o q ∧
        p.files here.disk = names.map (Path.joinAll x) ∧
        q.files there.disk = names.map (Path.joinAll y) ∧
        (∀ ns ∈ names,
          here.disk.resolve (Path.joinAll x ns) = there.disk.resolve (Path.joinAll y ns)) ∧
        Plan.SameReport x y (p.analyze here.disk) (q.analyze there.disk) := by
  intro here there
  refine ⟨⟨_, _, h.origin_project hpaths, h.origin_below hpaths hfile, h.resolve_file_project,
    h.resolve_file_below hfile⟩, ?_⟩
  cases hs : Origin.settingsAt? env.disk.tree (project ++ [name]) with
  | none =>
      have hhere : here.plan? none o = none := by
        rw [h.plan?_project hpaths, hs]
        rfl
      have hthere : there.plan? none o = none := by
        rw [h.plan?_below hpaths hfile, hs]
        rfl
      refine ⟨?_, fun _ => ⟨hhere, hthere⟩, by simp⟩
      rw [Environment.exitCode_of_plan?_eq_none hhere, Environment.exitCode_of_plan?_eq_none hthere]
  | some s =>
      obtain ⟨p, q, hp, hq, hwork⟩ := h.sameWork_plans hpaths hfile hs (hbare s hs) (hroot s hs)
      obtain ⟨names, hnames, hnames', hplaces⟩ := hwork.files
      have hhere := Environment.carriesOut_of_plan? hp
      have hthere := Environment.carriesOut_of_plan? hq
      refine ⟨hhere.exitCode_eq_of_sameReport hthere hwork.report, by simp, ?_⟩
      intro s' hs'
      obtain rfl := Option.some.inj hs'
      exact ⟨p, q, names, hhere, hthere, hnames, hnames', hplaces, hwork.report⟩

/-- A project with a relative root and an exclude of its own, and a directory two levels below. -/
theorem check_from_below_nested :
    let b := Utf8.encode "[analyzer]\nroot = \"src\"\nexclude = [\"gen\"]\n"
    let source : Tree := .dir [("a.php", .file []), ("gen", .dir [("b.php", .file [])])]
    let tree : Tree := .dir [("work", .dir
      [("phpdoc-check.toml", .file b), ("src", source), ("sub", .dir [("deep", .dir [])])])]
    let env : Environment := { disk := { tree } }
    let here := env.within ["work"]
    let there := env.within ["work", "sub", "deep"]
    Encloses tree ["work"] ["sub", "deep"] "phpdoc-check.toml" ∧
    (here.runCheck none {}).exitCode = (there.runCheck none {}).exitCode ∧
    ∃ p q, here.CarriesOut none {} p ∧ there.CarriesOut none {} q ∧
      Plan.SameReport "./src" "/work/src" (p.analyze here.disk) (q.analyze there.disk) := by
  intro b source tree env here there
  have hencloses : Encloses tree ["work"] ["sub", "deep"] "phpdoc-check.toml" := by decide +kernel
  have hsettings : Origin.settingsAt? env.disk.tree
      (["work".toList] ++ ["phpdoc-check.toml".toList]) =
        some { root := "src", exclude := ["gen"] } := by
    decide +kernel
  have hentries : ∀ ns, (source.get? ns).isSome = true →
      ns ∈ [[], ["a.php".toList], ["gen".toList], ["gen".toList, "b.php".toList]] := by
    refine Tree.forall_get?_dir (by simp)
      (List.forall_mem_cons.2 ⟨?_, List.forall_mem_singleton.2 ?_⟩)
    · exact Tree.forall_get?_file (by simp)
    · refine Tree.forall_get?_dir (by simp) (List.forall_mem_singleton.2 ?_)
      exact Tree.forall_get?_file (by simp)
  have hfits : ∀ (d : Disk) (x : Text), d.find x = .ok source → (∀ ns ∈ [[], ["a.php".toList],
      ["gen".toList], ["gen".toList, "b.php".toList]],
        utf8Length (Path.joinAll x ns) ≤ Disk.pathLimit) → d.Fits x := by
    intro d x hfind hlength
    refine ⟨hlength [] List.mem_cons_self, fun t ht ns hns => hlength ns (hentries ns ?_)⟩
    cases hfind.symm.trans ht
    exact hns
  have hx : Origin.anchor ['.'] "src" = "./src".toList := by decide +kernel
  have hy : Origin.anchor (Disk.absolute ["work"]) "src" = "/work/src".toList := by decide +kernel
  have hhere : here.disk.Fits (Origin.anchor ['.'] "src") := by
    have hplace : here.disk.resolve (Origin.anchor ['.'] "src") = .ok ["work", "src"] := by
      decide +kernel
    exact hfits _ _ (Disk.find_of_resolve hplace rfl) (by decide +kernel)
  have hthere : there.disk.Fits (Origin.anchor (Disk.absolute ["work"]) "src") := by
    have hplace : there.disk.resolve (Origin.anchor (Disk.absolute ["work"]) "src") =
        .ok ["work", "src"] := by
      decide +kernel
    exact hfits _ _ (Disk.find_of_resolve hplace rfl) (by decide +kernel)
  have hbare : AllBare ["gen"] := by
    unfold AllBare
    decide
  have hruns := check_from_below env {} ["work"] ["sub", "deep"] "phpdoc-check.toml" hencloses rfl
    (fun s hs => Option.some.inj (hsettings.symm.trans hs) ▸ hbare) (by decide)
    (fun s hs _ => Option.some.inj (hsettings.symm.trans hs) ▸ ⟨hhere, hthere⟩)
  obtain ⟨_, hexit, _, hplans⟩ := hruns
  obtain ⟨p, q, _, hp, hq, _, _, _, hreport⟩ := hplans _ hsettings
  exact ⟨hencloses, hexit, p, q, hp, hq, hx ▸ hy ▸ hreport⟩

/-- A root that goes into a directory and out again too often: it is short enough behind `.` and too
long behind the absolute path of the project, so that from below nothing is checked. -/
theorem check_from_below_too_long :
    let name : Text := List.replicate 59 '𝄞'
    let root : Text := (List.replicate 17 (name ++ "/../")).flatten ++ "a.php"
    let b := Utf8.encode ("[analyzer]\nroot = \"" ++ root ++ "\"\n")
    let tree : Tree := .dir [("work", .dir [("project", .dir
      [("a.php", .file (Utf8.encode "<?php")), ("phpdoc-check.toml", .file b), ("sub", .dir []),
       (name, .dir [])])])]
    let env : Environment := { disk := { tree } }
    let here := env.within ["work", "project"]
    let there := env.within ["work", "project", "sub"]
    Encloses tree ["work", "project"] ["sub"] "phpdoc-check.toml" ∧
    (∃ s, Origin.settingsAt? tree ["work", "project", "phpdoc-check.toml"] = some s ∧
      AllBare s.exclude) ∧
    ∃ p q, here.CarriesOut none {} p ∧ there.CarriesOut none {} q ∧
      (p.analyze here.disk).filesChecked = 1 ∧ (q.analyze there.disk).filesChecked = 0 := by
  intro name root b tree env here there
  have hencloses : Encloses env.disk.tree ["work", "project"] ["sub"] "phpdoc-check.toml" := by
    decide +kernel
  have hsettings : Origin.settingsAt? tree ["work", "project", "phpdoc-check.toml"] =
      some { root } := by
    decide +kernel
  have hbare : AllBare ({ root } : Settings).exclude := by
    unfold AllBare
    decide
  obtain ⟨sieve, _, hp, hq⟩ := hencloses.plans (o := {}) rfl (by decide) hsettings hbare
  refine ⟨hencloses, ⟨_, hsettings, hbare⟩, _, _, Environment.carriesOut_of_plan? hp,
    Environment.carriesOut_of_plan? hq, ?_, ?_⟩
  · have hresolve : here.disk.resolve (Origin.anchor ['.'] root) =
        .ok ["work", "project", "a.php"] := by
      decide +kernel
    have hfind : here.disk.find (Origin.anchor ['.'] root) = _ := Disk.find_of_resolve hresolve rfl
    rw [Plan.filesChecked_eq_names (d := here.disk) hencloses.proper rfl]
    unfold Plan.names Plan.contentAt Plan.sortNames Disk.read
    rw [hfind, List.mergeSort_singleton, List.filter_singleton, Path.joinAll_nil, hfind]
    rfl
  · have hresolve : there.disk.resolve (Origin.anchor (Disk.absolute ["work", "project"]) root) =
        .error .tooLong := by
      decide +kernel
    rw [Plan.filesChecked_eq_names (d := there.disk) hencloses.proper rfl]
    unfold Plan.names Plan.sortNames Disk.find
    rw [hresolve]
    show (List.filter _ (List.mergeSort [] _)).length = 0
    rw [List.mergeSort_nil]
    rfl

end Command

end DocLint
