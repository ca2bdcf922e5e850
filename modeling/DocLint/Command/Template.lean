import DocLint.Text.Basic

/-!
# The settings file of a new project
-/

namespace DocLint.Command

/-- The lines of the file that `init` writes. -/
def templateLines : List Text := List.map String.toList [
  "# phpdoc-check configuration",
  "",
  "[analyzer]",
  "# Directories and glob patterns to skip. \x60**/<name>/**\x60 skips every",
  "# directory named <name>; other patterns match the whole path.",
  "exclude = [",
  "    \"**/vendor/**\",",
  "    \"**/node_modules/**\",",
  "    \"**/.git/**\",",
  "    \"**/cache/**\",",
  "]",
  "",
  "# File extensions to check",
  "extensions = [\"php\"]",
  "",
  "# Worker threads (default: number of CPUs)",
  "# parallelism = 4",
  "",
  "# All rules are enabled by default.",
  "# Each rule can be disabled or have its severity overridden.",
  "",
  "[rules.filehascopyright]",
  "enabled = true",
  "# severity = \"warning\"",
  "",
  "[rules.classeshavecopyright]",
  "enabled = true",
  "",
  "# [rules.definedoccorrect]",
  "# enabled = false",
  "",
  "# Message catalog overrides. Placeholders match the rule's fields.",
  "[messages]",
  "# error_classesdocumented = \"Class \x7bclass\x7d needs a phpdoc block\""]

end DocLint.Command
