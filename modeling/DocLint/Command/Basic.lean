import DocLint.Analysis.Basic
import DocLint.Command.Arguments
import DocLint.Command.Failure
import DocLint.Command.Help
import DocLint.Command.Template

/-!
# Commands

A command line is run in an environment: a disk and the places of the global settings. The outcome
is what the program writes, its exit code, and the disk afterwards.

* `Environment.run`: runs a command line.
-/

namespace DocLint.Command

open Text

/-- What a command line is run in. -/
structure Environment where
  disk : Disk
  /-- The home directory. -/
  home : Option Text := none
  /-- The directory of the global settings, if it is not below the home directory. -/
  globalDir : Option Text := none

/-- What a command line leads to. -/
structure Outcome where
  exitCode : Nat := 0
  /-- What is told on the way. -/
  events : List Event := []
  output : Output := {}
  disk : Disk

namespace Environment

/-- The directory of the global settings. -/
def settingsDir (env : Environment) : Option Text :=
  env.globalDir <|> env.home.map fun h => Path.join h ".phpdoc-check"

/-- The directory in which the project file is looked for: the first path, if it leads to a
directory, or else the working directory. -/
def projectDir (env : Environment) (paths : List Text) : Text :=
  (paths.head?.filter env.disk.isDir).getD ['.']

/-- A command that fails. -/
def failed (env : Environment) (events : List Event) (f : Failure) : Outcome where
  exitCode := 1
  events := events
  output := { errorLines := f.lines }
  disk := env.disk

/-- The text of a file for snippets. -/
def snippetSource (env : Environment) (path : Text) : Option Text :=
  (env.disk.read path).toOption.map Utf8.decode

/-- Checks what a request asks for. -/
def runRequest (env : Environment) (events : List Event) (r : Request) (format : Format) :
    Outcome :=
  match r.plan with
  | .error e => env.failed events (.excludes e)
  | .ok plan =>
    let report := plan.analyze env.disk
    { exitCode := if report.hasErrors || !report.errors.isEmpty then 1 else 0
      events := events ++ r.events ++ [.planned plan.paths.length plan.ruleCount] ++
        plan.events env.disk report
      output := report.output env.snippetSource format
      disk := env.disk }

/-- Runs `check`. -/
def runCheck (env : Environment) (config : Option Text) (o : CheckOptions) : Outcome :=
  let origin := Origin.locate env.disk (env.projectDir o.paths) config env.settingsDir
  match origin.load env.disk with
  | .error e => env.failed [] (.settings e)
  | .ok settings =>
    let request : Request := {
      paths := o.paths, excludes := o.excludes, settings, registry := Registry.standard,
      selection := o.selection }
    env.runRequest [.settingsFrom origin.describe] request (o.format.getD .text)

/-- The lines of one rule in the list of rules. -/
def ruleLines (g : Registry) (r : Rule) : List Text :=
  [padEnd 22 r.code ++ " " ++ padEnd 8 (g.severityOf r).name ++ " " ++ g.nameOf r,
   padEnd 32 [] ++ r.description]

/-- The lines before the list of rules. -/
def listHeading : List Text :=
  ["Available rules:", [], padEnd 22 "Code" ++ " Severity Name", List.replicate 80 '-']

/-- The lines after the list of rules. -/
def listClosing : List Text :=
  [[], "Use --rules to run specific rules, e.g.:",
   "  phpdoc-check check --rules classesdocumented,functionarguments"]

/-- Runs `list-rules`. -/
def runListRules (env : Environment) : Outcome :=
  let g := Registry.standard
  { output := { standard := unlines (listHeading ++ g.rules.flatMap (ruleLines g) ++ listClosing) }
    disk := env.disk }

/-- The name of the file that `init` writes. -/
def initName : Text := "phpdoc-check.toml"

/-- Runs `init`. -/
def runInit (env : Environment) (force : Bool) : Outcome :=
  if (env.disk.here? initName).isSome && !force then env.failed [] (.fileExists initName)
  else match env.disk.write initName (Utf8.encode (unlines templateLines)) with
    | .error e => env.failed [] (.access e)
    | .ok disk =>
      let lines : List Text :=
        ["Created " ++ initName, [], "Next steps:",
         "  1. Edit " ++ initName ++ " to configure rules", "  2. Run: phpdoc-check check"]
      { output := { standard := unlines lines }, disk }

/-- Runs a command. -/
def runAction (env : Environment) (config : Option Text) : Action → Outcome
  | .check o => env.runCheck config o
  | .listRules => env.runListRules
  | .init force => env.runInit force

/-- The outcome without the events that only a verbose run tells. -/
def quieten (verbose : Bool) (o : Outcome) : Outcome :=
  { o with events := o.events.filter fun e => verbose || e.level != .debug }

/-- What is shown when the words are no command. -/
def stopped (env : Environment) : Stop → Outcome
  | .misuse => { exitCode := 2, output := { errorLines := programHelp }, disk := env.disk }
  | .help topic full =>
    { output := { standard := unlines (helpLines topic full) }, disk := env.disk }
  | .version => { output := { standard := unlines [versionLine] }, disk := env.disk }

/-- Runs a command line. -/
def run (env : Environment) (words : List Text) : Outcome :=
  match Invocation.parse words with
  | .error s => env.stopped s
  | .ok i => quieten i.shared.verbose (env.runAction i.shared.config i.action)

end Environment

end DocLint.Command
