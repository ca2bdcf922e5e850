import DocLint.Report.Json

/-!
# Output formats

* `text`: every violation over two lines in colour, then a summary line.
* `json`: the report as JSON.
* `compact`: one line for each violation; paths that could not be checked go to the error stream.
* `pretty`: diagnostics with snippets, path errors and a summary, all on the error stream. The
  diagnostics are handed on as data, `Output.diagnostics`.
-/

namespace DocLint

open Text

/-- How a report is shown. -/
inductive Format where
  | text
  | json
  | compact
  | pretty
  deriving DecidableEq, Repr

/-- The format of a name. -/
def Format.ofName? (name : Text) : Option Format :=
  [("text".toList, .text), ("json".toList, .json), ("compact".toList, .compact),
    ("pretty".toList, .pretty)].lookup name

/-- What is written to the two streams. -/
structure Output where
  /-- The standard stream. -/
  standard : Text := []
  /-- Diagnostics for the error stream, before its lines. -/
  diagnostics : List Diagnostic := []
  /-- The lines of the error stream. -/
  errorLines : List Text := []

/-- The lines of a text, each with its line feed. -/
def unlines (ls : List Text) : Text := ls.flatMap (· ++ "\n")

/-- A colour of a terminal. -/
inductive Colour where
  | red
  | green
  | yellow
  | blue
  deriving DecidableEq, Repr

namespace Colour

/-- The sequence that starts the colour. -/
def start : Colour → Text
  | red => "\x1b[31m"
  | green => "\x1b[32m"
  | yellow => "\x1b[33m"
  | blue => "\x1b[34m"

/-- A text in the colour. -/
def paint (c : Colour) (t : Text) : Text := c.start ++ t ++ "\x1b[0m"

end Colour

/-- The colour of a severity. -/
def Severity.colour : Severity → Colour
  | .error => .red
  | .warning => .yellow
  | .info => .blue

namespace Report

/-- The numbers of the report in one line. -/
def summary (r : Report) : Text :=
  "Found " ++ ofNat (r.count .error) ++ " error(s), " ++ ofNat (r.count .warning) ++
    " warning(s), " ++ ofNat (r.count .info) ++ " info(s) in " ++ ofNat r.filesChecked ++ " file(s)"

/-- The colour of the summary: that of the worst that happened. -/
def summaryColour (r : Report) : Colour :=
  if r.hasErrors || !r.errors.isEmpty then .red
  else if 0 < r.count .warning then .yellow
  else .green

/-- A violation over two lines, with an empty line after it. -/
def violationLines (v : Violation) : List Text :=
  [v.code ++ " " ++ v.rule ++ " at " ++ v.location.render,
   "  " ++ v.severity.colour.paint v.severity.name ++ ": " ++ v.message,
   []]

/-- A path and why it could not be checked. -/
def errorLine (e : PathError) : Text := e.path ++ ": " ++ e.message

/-- The lines of the text format. -/
def textLines (r : Report) : List Text :=
  r.violations.flatMap violationLines ++
    r.errors.map (fun e => Colour.red.paint "cannot check" ++ " " ++ errorLine e) ++
    (if r.errors.isEmpty then [] else [[]]) ++
    [r.summaryColour.paint r.summary]

/-- Shows the report in a format. `source` gives the text of a file for its snippets. -/
def output (r : Report) (source : Text → Option Text) : Format → Output
  | .text => { standard := unlines r.textLines }
  | .json => { standard := unlines [r.json] }
  | .compact =>
    { standard := unlines (r.violations.map (·.oneLine)), errorLines := r.errors.map errorLine }
  | .pretty =>
    { diagnostics := r.violations.map fun v => v.diagnostic (source v.location.file)
      errorLines := r.errors.map errorLine ++ [r.summary] }

end Report

end DocLint
