import DocLint.Analysis.Plan
import DocLint.Report.Basic

/-!
# Analyses

An analysis finds the files of a plan on a disk, checks each of them once, and gathers one report.
A path that leads to a file is checked in any case; a path that leads to a directory stands for the
files that a walk finds below it.

* `Plan.files`: the files to check, in order.
* `Plan.checkFile`: the violations of one file.
* `Plan.analyze`: the report; `Plan.events`: what is told meanwhile.
-/

namespace DocLint

/-- Why a path is not checked. -/
inductive Problem where
  | notFound (path : Text)
  | unreadable (path : Text) (cause : AccessError)
  deriving DecidableEq, Repr

/-- The wording of a problem. -/
def Problem.message : Problem → Text
  | notFound p => "Path not found: " ++ p
  | unreadable p e => "Failed to read " ++ p ++ ": " ++ e.message

namespace Plan

/-- The number of rules that are checked. -/
def ruleCount (p : Plan) : Nat := p.registry.enabledRules.length

/-- What is seen of a path. -/
def discover (p : Plan) (d : Disk) (path : Text) : Except Problem (List Sighting) :=
  match d.find path with
  | .ok (.file _) => .ok [.found path]
  | .ok t => .ok (p.sieve.walk path t)
  | .error _ => .error (.notFound path)

/-- The files that the paths of the plan stand for, in the order of the paths. -/
def found (p : Plan) (d : Disk) : List Text :=
  p.paths.flatMap fun path => ((p.discover d path).toOption.getD []).filterMap Sighting.found?

/-- The files to check, in order, each once. -/
def files (p : Plan) (d : Disk) : List Text := Path.distinct (p.found d)

/-- The violations of a source. -/
def checkSource (p : Plan) (path source : Text) : List Violation :=
  p.registry.check (SourceFile.parse path source)

/-- The violations of a file. Bytes that are no UTF-8 are read as replacement characters. -/
def checkFile (p : Plan) (d : Disk) (path : Text) : Except Problem (List Violation) :=
  match d.read path with
  | .ok b => .ok (p.checkSource path (Utf8.decode b))
  | .error e => .error (.unreadable path e)

/-- The paths of the plan that lead nowhere. -/
def missing (p : Plan) (d : Disk) : List PathError :=
  p.paths.filterMap fun path =>
    match p.discover d path with
    | .ok _ => none
    | .error e => some ⟨path, e.message⟩

/-- The files that cannot be read. -/
def unreadable (p : Plan) (d : Disk) : List PathError :=
  (p.files d).filterMap fun path =>
    match d.read path with
    | .ok _ => none
    | .error e => some ⟨path, (Problem.unreadable path e).message⟩

/-- The violations of each file that can be read. -/
def outcomes (p : Plan) (d : Disk) : List (List Violation) :=
  (p.files d).filterMap fun path => (p.checkFile d path).toOption

/-- Checks every file and gathers the report. -/
def analyze (p : Plan) (d : Disk) : Report :=
  let outcomes := p.outcomes d
  Report.sort {
    violations := outcomes.flatten
    filesChecked := outcomes.length
    errors := p.missing d ++ p.unreadable d }

/-- What is told of a path while its files are found. -/
def discoveryEvents (p : Plan) (d : Disk) (path : Text) : List Event :=
  match p.discover d path with
  | .ok sightings => sightings.filterMap fun
    | .excluded q => some (.excluded q)
    | .unopened q e => some (.skipped path q e.message)
    | .found _ => none
  | .error e => [.failed e.message]

/-- What is told during the analysis with the report `r`. -/
def events (p : Plan) (d : Disk) (r : Report) : List Event :=
  [.started p.paths.length] ++ p.paths.flatMap (p.discoveryEvents d) ++
    [.discovered (p.files d).length] ++ (p.files d).map .reading ++
    (p.unreadable d).map (fun e => .failed e.message) ++
    [.completed r.violations.length r.filesChecked]

end Plan

end DocLint
