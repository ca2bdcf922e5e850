import DocLint.Command.Origin
import DocLint.Exclude

/-!
# Failures

Why a command ends before it has done its work, and how that is told: a message, then its causes.
-/

namespace DocLint.Command

open Text

/-- Why a command fails. -/
inductive Failure where
  | settings (e : LoadError)
  | excludes (e : Glob.Error)
  /-- The file that `init` writes is there already. -/
  | fileExists (name : Text)
  | access (e : AccessError)
  deriving DecidableEq, Repr

namespace Failure

/-- The wording of a failure. -/
def message : Failure → Text
  | settings (.unreadable p _) | settings (.malformed p) => "Failed to load config: " ++ p
  | excludes _ => "Failed to build analyzer"
  | fileExists n =>
    "Configuration file already exists at " ++ n ++ ". Use --force to overwrite."
  | access e => e.message

/-- The causes of a failure, the nearest first. -/
def causes : Failure → List Text
  | settings (.unreadable p e) =>
    ["Failed to read config file " ++ p ++ ": " ++ e.message, e.message]
  | settings (.malformed _) => ["Failed to parse config"]
  | excludes e => [e.excludeMessage, e.message]
  | fileExists _ | access _ => []

/-- A text behind a label; each of its further lines is indented as far as the first. -/
def labelled (label c : Text) : Text :=
  label ++ join ('\n' :: List.replicate label.length ' ') (splitOn '\n' c)

/-- The lines of a cause list; several causes are numbered from 0. -/
def causeLines : List Text → List Text
  | [] => []
  | [c] => [[], "Caused by:", labelled "    " c]
  | cs => [[], "Caused by:"] ++ cs.zipIdx.map fun (c, i) => labelled ("    " ++ ofNat i ++ ": ") c

/-- The failure on the error stream. -/
def lines (f : Failure) : List Text := ("Error: " ++ f.message) :: causeLines f.causes

end Failure

end DocLint.Command
