import DocLint.Report.Violation
import DocLint.Rule.Builtin
import DocLint.Rule.Catalog
import DocLint.Settings.Basic

/-!
# The registry

The registered rules in order, the codes of the enabled ones, overridden severities and the
message catalog. A selector is the code or an alias of a rule; no selector belongs to two
registered rules.

* `Registry.add`: registers a rule, unless one of its selectors is taken.
* `Registry.enable`, `Registry.enableAll`, `Registry.disableAll`, `Registry.setSeverity`.
* `Registry.configure`, `Registry.selectOnly`: apply settings and a selection.
* `Registry.check`: the violations of a file; `Registry.validate`: their messages.
-/

namespace DocLint

/-- Rules with their state. -/
structure Registry where
  /-- The registered rules, in order. -/
  rules : List Rule := []
  /-- The codes of the enabled rules. -/
  enabled : List Text := []
  /-- Severities by code, where they differ from the rule's own. -/
  severities : Table Severity := []
  messages : Catalog := Catalog.english

/-- Why a rule is not registered. -/
inductive RegistryError where
  /-- The selector belongs to a registered rule. -/
  | taken (selector : Text)
  deriving DecidableEq, Repr

/-- The wording of an error. -/
def RegistryError.message : RegistryError → Text
  | taken s => "Rule '" ++ s ++ "' is already registered"

namespace Registry

/-- The registered rule that a selector selects. -/
def get? (g : Registry) (selector : Text) : Option Rule :=
  g.rules.find? (·.isSelectedBy selector)

/-- Registers a rule, disabled. It fails on the first of its selectors that is taken. -/
def add (g : Registry) (r : Rule) : Except RegistryError Registry :=
  match r.selectors.find? fun s => (g.get? s).isSome with
  | some s => .error (.taken s)
  | none => .ok { g with rules := g.rules ++ [r] }

/-- Registers rules one by one up to the first that fails; the error of that one, if any. -/
def addAll (g : Registry) : List Rule → Registry × Option RegistryError
  | [] => (g, none)
  | r :: rs =>
    match g.add r with
    | .ok g' => g'.addAll rs
    | .error e => (g, some e)

/-- The built-in rules, all enabled, with the built-in catalog. -/
def standard : Registry :=
  { rules := Rule.builtin, enabled := Rule.builtin.map (·.code) }

/-- Enables or disables the rule that a selector selects; no other selector does anything. -/
def enable (g : Registry) (selector : Text) (on : Bool) : Registry :=
  match g.get? selector with
  | none => g
  | some r =>
    let others := g.enabled.filter (· != r.code)
    { g with enabled := if on then r.code :: others else others }

/-- Enables every registered rule. -/
def enableAll (g : Registry) : Registry := { g with enabled := g.rules.map (·.code) }

/-- Disables every rule. -/
def disableAll (g : Registry) : Registry := { g with enabled := [] }

/-- The code is that of an enabled rule. -/
def isEnabled (g : Registry) (code : Text) : Bool := g.enabled.contains code

/-- The enabled rules, in order. -/
def enabledRules (g : Registry) : List Rule := g.rules.filter fun r => g.isEnabled r.code

/-- Overrides the severity of the rule that a selector selects. The severity of another selector is
kept for a rule that is registered later under that code. -/
def setSeverity (g : Registry) (selector : Text) (s : Severity) : Registry :=
  { g with severities := g.severities.set (((g.get? selector).map (·.code)).getD selector) s }

/-- The severity of a rule in this registry. -/
def severityOf (g : Registry) (r : Rule) : Severity := (g.severities.get? r.code).getD r.severity

/-- The display name of a rule in this registry. -/
def nameOf (g : Registry) (r : Rule) : Text := g.messages.ruleName r

/-- Applies the settings of one rule. -/
def configureRule (g : Registry) (entry : Text × RuleSetting) : Registry :=
  let (selector, setting) := entry
  let g := match setting.enabled with
    | some on => g.enable selector on
    | none => g
  match setting.severity with
  | some s => g.setSeverity selector s
  | none => g

/-- Applies the settings of the rules and the messages. -/
def configure (g : Registry) (s : Settings) : Registry :=
  let g := s.rules.foldl configureRule g
  { g with messages := g.messages.extend s.messages }

/-- Enables exactly the rules that the selectors select. -/
def selectOnly (g : Registry) (selectors : List Text) : Registry :=
  selectors.foldl (fun g s => g.enable s true) g.disableAll

/-- The place of a finding: its token, or else the start of its line. -/
def locate (f : SourceFile) (x : Finding) : Location :=
  let line := x.line.getD 1
  match x.token with
  | some tid =>
    let (offset, length) := f.tokenSpan tid
    ⟨f.path, line, f.columnNumber tid, offset, length⟩
  | none => ⟨f.path, line, 1, f.lineOffset line, 0⟩

/-- A finding of a rule, placed and worded. -/
def violation (g : Registry) (f : SourceFile) (r : Rule) (x : Finding) : Violation where
  code := r.code
  rule := g.nameOf r
  severity := g.severityOf r
  location := locate f x
  message := g.messages.formatError r x

/-- The violations of a file, in the order of the rules. -/
def check (g : Registry) (f : SourceFile) : List Violation :=
  g.enabledRules.flatMap fun r => (r.findings f).map (g.violation f r)

/-- The messages of the findings of a file, in the order of the rules. -/
def validate (g : Registry) (f : SourceFile) : List Text :=
  g.enabledRules.flatMap fun r => (r.findings f).map (g.messages.formatError r)

end Registry

end DocLint
