import DocLint.Analysis.Event
import DocLint.Analysis.Walk
import DocLint.Registry

/-!
# Plans

A request is what a caller asks for, together with the settings; a plan is a request worked out:
the paths to check, the sieve for directories, and the registry with its rules chosen.

* `Request.plan`: works a request out; a bad exclude pattern is the only error.
* `Request.events`: what is told meanwhile.
-/

namespace DocLint

/-- What a caller asks for. -/
structure Request where
  paths : List Text := []
  /-- Exclude patterns, on top of those of the settings. -/
  excludes : List Text := []
  /-- Extensions; those of the settings if there are none. -/
  extensions : List Text := []
  settings : Settings := {}
  registry : Registry := {}
  /-- Selectors of the rules to check, whatever is enabled otherwise. -/
  selection : Option (List Text) := none

/-- A run that is ready to start. -/
structure Plan where
  paths : List Text
  sieve : Sieve
  registry : Registry

namespace Request

/-- The registry with the settings and the selection applied. -/
def chosenRules (r : Request) : Registry :=
  let g := r.registry.configure r.settings
  match r.selection with
  | some selectors => g.selectOnly selectors
  | none => g

/-- Works the request out. -/
def plan (r : Request) : Except Glob.Error Plan := do
  let excludes ← (r.excludes ++ r.settings.exclude).mapM Exclude.parse
  return {
    paths := if r.paths.isEmpty then [r.settings.root] else r.paths
    sieve := {
      excludes
      extensions := if r.extensions.isEmpty then r.settings.extensions else r.extensions }
    registry := r.chosenRules }

/-- The settings of a rule that is not registered are passed over. -/
def settingEvents (r : Request) : List Event :=
  r.settings.rules.filterMap fun (selector, setting) =>
    if setting.enabled.isSome && (r.registry.get? selector).isNone
    then some (.selectorIgnored selector) else none

/-- Selectors that select no rule are named. -/
def selectionEvents (r : Request) : List Event :=
  (r.selection.getD []).flatMap fun s =>
    if (r.registry.get? s).isNone then [.selectorUnknown s, .selectorIgnored s] else []

/-- What is told while the request is worked out. -/
def events (r : Request) : List Event := r.settingEvents ++ r.selectionEvents

end Request

end DocLint
