import DocLint.Text.Basic

/-!
# Events

What a run tells about its progress.

* `Event.line`: how an event is told in a log. A log is read on a terminal, so characters that a
  terminal obeys are spelled out in it.
-/

namespace DocLint

open Text

/-- How much an event matters. -/
inductive Level where
  | debug
  | info
  | warn
  deriving DecidableEq, Repr

/-- The name of a level. -/
def Level.name : Level → Text
  | debug => "DEBUG"
  | info => "INFO"
  | warn => "WARN"

/-- A step of a run. -/
inductive Event where
  /-- The settings in use come from here. -/
  | settingsFrom (origin : Text)
  /-- A selector that selects no rule is passed over. -/
  | selectorIgnored (selector : Text)
  /-- A selector given for this run selects no rule. -/
  | selectorUnknown (selector : Text)
  | planned (paths rules : Nat)
  | started (paths : Nat)
  | excluded (path : Text)
  /-- A directory below `root` cannot be opened. -/
  | skipped (root path cause : Text)
  /-- A path cannot be checked. -/
  | failed (message : Text)
  | discovered (files : Nat)
  | reading (path : Text)
  | completed (violations files : Nat)
  deriving DecidableEq, Repr

namespace Event

/-- The level of an event. -/
def level : Event → Level
  | selectorIgnored _ | excluded _ | reading _ => .debug
  | selectorUnknown _ | skipped _ _ _ | failed _ => .warn
  | _ => .info

/-- The wording of an event. -/
def message : Event → Text
  | settingsFrom o => "Using config: " ++ o
  | selectorIgnored s => "Ignoring unknown rule code: " ++ s
  | selectorUnknown s => "Unknown rule: " ++ s
  | planned p r => "Checking " ++ ofNat p ++ " path(s) with " ++ ofNat r ++ " rules"
  | started p => "Starting analysis of " ++ ofNat p ++ " path(s)"
  | excluded p => "Excluding: " ++ p
  | skipped r p c =>
    "Skipping unreadable entry under " ++ r ++ ": IO error for operation on " ++ p ++ ": " ++ c
  | failed m => m
  | discovered n => "Found " ++ ofNat n ++ " files to analyze"
  | reading p => "Analyzing: " ++ p
  | completed v n => "Analysis complete: " ++ ofNat v ++ " violations in " ++ ofNat n ++ " files"

/-- A character of a log. The bell, the backspace, the form feed, the escape, the delete and the
controls above ASCII are spelled out; all else stands for itself. -/
def spelled (c : Char) : Text :=
  let hex := Nat.toDigits 16 c.toNat
  match c with
  | '\x07' | '\x08' | '\x0c' => "\\x0" ++ hex
  | '\x1b' | '\x7f' => "\\x" ++ hex
  | c => if 0x80 ≤ c.toNat ∧ c.toNat ≤ 0x9f then "\\u\x7b" ++ hex ++ "\x7d" else [c]

/-- The line of an event in a log. -/
def line (e : Event) : Text := e.level.name ++ " " ++ e.message.flatMap spelled

end Event

end DocLint
