import DocLint.Text.Basic

/-!
# Help texts
-/

namespace DocLint.Command

/-- The name and version of the program. -/
def versionLine : Text := "phpdoc-check 0.4.2"

/-- The help text of the program. -/
def programHelp : List Text := List.map String.toList [
  "CLI tool for phpdoc-check documentation linter",
  "",
  "Usage: phpdoc-check [OPTIONS] <COMMAND>",
  "",
  "Commands:",
  "  check       Run documentation checks",
  "  list-rules  List available rules",
  "  init        Initialize configuration file",
  "  help        Print this message or the help of the given subcommand(s)",
  "",
  "Options:",
  "  -v, --verbose          Enable verbose output",
  "  -c, --config <CONFIG>  Path to configuration file",
  "  -h, --help             Print help",
  "  -V, --version          Print version"]

/-- The short help text of `check`. -/
def checkHelp : List Text := List.map String.toList [
  "Run documentation checks",
  "",
  "Usage: phpdoc-check check [OPTIONS] [PATHS]...",
  "",
  "Arguments:",
  "  [PATHS]...  Files or directories to check (default: the configured root)",
  "",
  "Options:",
  "  -f, --format <FORMAT>    Output format [default: text] [possible values: text, json, compact, pretty]",
  "  -v, --verbose            Enable verbose output",
  "  -c, --config <CONFIG>    Path to configuration file",
  "      --rules <RULES>      Only run specific rules (comma-separated codes)",
  "  -e, --exclude <EXCLUDE>  Exclude patterns (can be specified multiple times)",
  "  -j, --jobs <JOBS>        Number of worker threads",
  "  -h, --help               Print help (see more with '--help')"]

/-- The full help text of `check`. -/
def checkFullHelp : List Text := List.map String.toList [
  "Run documentation checks",
  "",
  "Usage: phpdoc-check check [OPTIONS] [PATHS]...",
  "",
  "Arguments:",
  "  [PATHS]...",
  "          Files or directories to check (default: the configured root)",
  "",
  "Options:",
  "  -f, --format <FORMAT>",
  "          Output format",
  "",
  "          Possible values:",
  "          - text:    Human-readable text output",
  "          - json:    JSON output",
  "          - compact: One-line-per-violation compact format",
  "          - pretty:  Source snippets rendered by miette",
  "          ",
  "          [default: text]",
  "",
  "  -v, --verbose",
  "          Enable verbose output",
  "",
  "  -c, --config <CONFIG>",
  "          Path to configuration file",
  "",
  "      --rules <RULES>",
  "          Only run specific rules (comma-separated codes)",
  "",
  "  -e, --exclude <EXCLUDE>",
  "          Exclude patterns (can be specified multiple times)",
  "",
  "  -j, --jobs <JOBS>",
  "          Number of worker threads",
  "",
  "  -h, --help",
  "          Print help (see a summary with '-h')"]

/-- The help text of `list-rules`. -/
def listRulesHelp : List Text := List.map String.toList [
  "List available rules",
  "",
  "Usage: phpdoc-check list-rules [OPTIONS]",
  "",
  "Options:",
  "  -v, --verbose          Enable verbose output",
  "  -c, --config <CONFIG>  Path to configuration file",
  "  -h, --help             Print help"]

/-- The help text of `init`. -/
def initHelp : List Text := List.map String.toList [
  "Initialize configuration file",
  "",
  "Usage: phpdoc-check init [OPTIONS]",
  "",
  "Options:",
  "      --force            Overwrite existing config",
  "  -v, --verbose          Enable verbose output",
  "  -c, --config <CONFIG>  Path to configuration file",
  "  -h, --help             Print help"]

/-- The help text of `help`. -/
def helpHelp : List Text := List.map String.toList [
  "Print this message or the help of the given subcommand(s)",
  "",
  "Usage: phpdoc-check help [COMMAND]...",
  "",
  "Arguments:",
  "  [COMMAND]...  Print help for the subcommand(s)"]

/-- The help text of a command, or of the program. -/
def helpLines (topic : Option Text) (full : Bool) : List Text :=
  match (topic.map String.ofList).getD "" with
  | "check" => if full then checkFullHelp else checkHelp
  | "list-rules" => listRulesHelp
  | "init" => initHelp
  | "help" => helpHelp
  | _ => programHelp

end DocLint.Command
