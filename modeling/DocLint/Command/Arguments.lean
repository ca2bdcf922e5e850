import DocLint.Command.Switch
import DocLint.Report.Output
import DocLint.Text.Blank
import DocLint.Text.Lowercase

/-!
# Command lines

* `Invocation`: a command with its options.
* `Invocation.parse`: reads the words of a command line.
* `CheckOptions.selection`: the selectors of the rules to check.
-/

namespace DocLint.Command

open Text

/-- Options of every command. -/
structure Shared where
  verbose : Bool := false
  /-- The settings file to use. -/
  config : Option Text := none
  deriving DecidableEq, Repr

/-- Options of `check`. -/
structure CheckOptions where
  paths : List Text := []
  format : Option Format := none
  /-- Selectors with commas between them. -/
  rules : Option Text := none
  excludes : List Text := []
  /-- The greatest number of files checked at the same time. -/
  jobs : Option Nat := none
  deriving DecidableEq, Repr

/-- What to do. -/
inductive Action where
  | check (options : CheckOptions)
  | listRules
  | init (force : Bool)
  deriving DecidableEq, Repr

/-- A command line that has been read. -/
structure Invocation where
  shared : Shared
  action : Action
  deriving DecidableEq, Repr

/-- The switches of every command. -/
def sharedSwitches : List Switch :=
  [{ key := .verbose, long := some "verbose", short := 'v' },
   { key := .config, long := some "config", short := 'c', takesValue := true },
   { key := .help, short := 'h' },
   { key := .fullHelp, long := some "help" }]

/-- Takes an item of every command into the options. No option is given twice. -/
def Shared.accept (topic : Option Text) (s : Shared) : Item → Except Stop Shared
  | .flag .verbose => if s.verbose then .error .misuse else .ok { s with verbose := true }
  | .value .config p =>
    if s.config.isSome || p.isEmpty then .error .misuse else .ok { s with config := some p }
  | .flag .help => .error (.help topic false)
  | .flag .fullHelp => .error (.help topic true)
  | _ => .error .misuse

/-- Options before the command together with those behind it, which count more. -/
def Shared.merge (before behind : Shared) : Shared where
  verbose := before.verbose || behind.verbose
  config := behind.config <|> before.config

/-- A number of jobs: digits, a plus sign before them or not, below `2 ^ 64`. -/
def jobs? (t : Text) : Option Nat :=
  let digits := (dropPrefix? "+" t).getD t
  if digits.isEmpty || !digits.all Char.isDigit then none
  else
    let n := digits.foldl (fun n c => 10 * n + (c.toNat - '0'.toNat)) 0
    if n < Nat.pow 2 64 then some n else none

/-- Takes an item of `check` into the options. Only excludes and paths are given more than once. -/
def CheckOptions.accept (o : CheckOptions) : Item → Except Stop CheckOptions
  | .value .format f =>
    match o.format, Format.ofName? f with
    | none, some f => .ok { o with format := some f }
    | _, _ => .error .misuse
  | .value .rules r => if o.rules.isSome then .error .misuse else .ok { o with rules := some r }
  | .value .exclude x => .ok { o with excludes := o.excludes ++ [x] }
  | .value .jobs n =>
    match o.jobs, jobs? n with
    | none, some n => .ok { o with jobs := some n }
    | _, _ => .error .misuse
  | .operand p => if p.isEmpty then .error .misuse else .ok { o with paths := o.paths ++ [p] }
  | _ => .error .misuse

/-- The selectors of the rules to check, in lower case, if some are given. -/
def CheckOptions.selection (o : CheckOptions) : Option (List Text) :=
  o.rules.map fun r => (((splitOn ',' r).map trim).filter (!·.isEmpty)).map lowercase

/-- The words before the command. -/
def programLevel : Level Shared where
  switches := sharedSwitches ++ [{ key := .version, long := some "version", short := 'V' }]
  isCommand w := ["check".toList, "list-rules".toList, "init".toList, "help".toList].contains w
  accept s
    | .flag .version => .error .version
    | item => s.accept none item

/-- The words behind a command, with switches of its own. What is not shared goes to `own`. -/
def commandLevel {σ : Type} (topic : Text) (switches : List Switch)
    (own : σ → Item → Except Stop σ) : Level (Shared × σ) where
  switches := sharedSwitches ++ switches
  accept
    | (s, o), item =>
      match item with
      | .flag .verbose | .value .config _ | .flag .help | .flag .fullHelp =>
        return (← s.accept (some topic) item, o)
      | item => return (s, ← own o item)

/-- The words behind `check`. -/
def checkLevel : Level (Shared × CheckOptions) :=
  commandLevel "check"
    [{ key := .format, long := some "format", short := 'f', takesValue := true },
     { key := .rules, long := some "rules", takesValue := true },
     { key := .exclude, long := some "exclude", short := 'e', takesValue := true },
     { key := .jobs, long := some "jobs", short := 'j', takesValue := true }]
    CheckOptions.accept

/-- The words behind `list-rules`. -/
def listRulesLevel : Level (Shared × Unit) :=
  commandLevel "list-rules" [] fun _ _ => .error .misuse

/-- The words behind `init`; the state tells whether a file may be replaced. -/
def initLevel : Level (Shared × Bool) :=
  commandLevel "init" [{ key := .force, long := some "force" }] fun
    | false, .flag .force => .ok true
    | _, _ => .error .misuse

/-- Reads a command and the words behind it. -/
def readCommand (command : Text) (words : List Text) : Except Stop (Shared × Action) := do
  match String.ofList command with
  | "check" =>
    let ((s, o), _) ← checkLevel.read ({}, {}) none words
    return (s, .check o)
  | "list-rules" =>
    let ((s, _), _) ← listRulesLevel.read ({}, ()) none words
    return (s, .listRules)
  | "init" =>
    let ((s, force), _) ← initLevel.read ({}, false) none words
    return (s, .init force)
  | _ =>
    match words with
    | [] => throw (.help none true)
    | [topic] => if programLevel.isCommand topic then throw (.help topic true) else throw .misuse
    | _ => throw .misuse

/-- Reads the words of a command line. -/
def Invocation.parse (words : List Text) : Except Stop Invocation := do
  match ← programLevel.read {} none words with
  | (_, []) => throw .misuse
  | (before, command :: rest) =>
    let (behind, action) ← readCommand command rest
    return ⟨before.merge behind, action⟩

end DocLint.Command
