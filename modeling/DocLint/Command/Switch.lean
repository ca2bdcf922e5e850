import DocLint.Text.Basic

/-!
# Switches of a command line

The words after a command are switches, values of switches and operands. A switch is written
`--name` or, in short, `-c`; short ones may share a dash. A value follows as the next word, after
`=`, or right behind a short switch. After `--` every word is an operand.

* `Level`: the switches a command knows and what it does with what it reads.
* `Level.read`: reads words up to the name of a subcommand.
-/

namespace DocLint.Command

/-- A switch by its meaning. -/
inductive Key where
  | verbose
  | config
  | help
  | fullHelp
  | version
  | format
  | rules
  | exclude
  | jobs
  | force
  deriving DecidableEq, Repr

/-- A switch as it is written. -/
structure Switch where
  key : Key
  /-- The name after two dashes. -/
  long : Option Text := none
  /-- The letter after one dash. -/
  short : Option Char := none
  /-- A value belongs to it. -/
  takesValue : Bool := false
  deriving DecidableEq, Repr

/-- Something read from the words. -/
inductive Item where
  | flag (key : Key)
  | value (key : Key) (value : Text)
  | operand (value : Text)
  deriving DecidableEq, Repr

/-- Why reading stops before the end. -/
inductive Stop where
  /-- The words are not a command. -/
  | misuse
  /-- The help text of a command is asked for; no topic is the whole program. -/
  | help (topic : Option Text) (full : Bool)
  /-- The version is asked for. -/
  | version
  deriving DecidableEq, Repr

/-- A command that reads its words into a state. -/
structure Level (σ : Type) where
  switches : List Switch
  /-- The word names a subcommand. -/
  isCommand : Text → Bool := fun _ => false
  /-- Takes an item into the state. -/
  accept : σ → Item → Except Stop σ

namespace Level

variable {σ : Type}

/-- The switch with a long name. -/
def long? (l : Level σ) (name : Text) : Option Switch := l.switches.find? (·.long == some name)

/-- The switch with a letter. -/
def short? (l : Level σ) (c : Char) : Option Switch := l.switches.find? (·.short == some c)

/-- Reads the name and, after `=`, the value of a long switch. The key that is left waits for its
value. -/
def readLong (l : Level σ) (s : σ) (word : Text) : Except Stop (σ × Option Key) :=
  let (name, rest) := word.span (· ≠ '=')
  match l.long? name, rest with
  | none, _ => .error .misuse
  | some k, [] =>
    if k.takesValue then .ok (s, some k.key) else return (← l.accept s (.flag k.key), none)
  | some k, _ :: v =>
    if k.takesValue then return (← l.accept s (.value k.key v), none) else .error .misuse

/-- Reads the letters that share a dash. Behind a switch with a value the rest is the value,
without an `=` in front. -/
def readShort (l : Level σ) (s : σ) : Text → Except Stop (σ × Option Key)
  | [] => .ok (s, none)
  | c :: t =>
    match l.short? c with
    | none => .error .misuse
    | some k =>
      if !k.takesValue then do readShort l (← l.accept s (.flag k.key)) t
      else match t with
        | [] => .ok (s, some k.key)
        | '=' :: v => return (← l.accept s (.value k.key v), none)
        | v => return (← l.accept s (.value k.key v), none)

/-- Reads operands only. -/
def readOperands (l : Level σ) (s : σ) (words : List Text) : Except Stop σ :=
  words.foldlM (fun s w => l.accept s (.operand w)) s

/-- Reads words up to the name of a subcommand, which is left with what follows it. `pending` waits
for its value. A word that looks like a switch is never a value. -/
def read (l : Level σ) (s : σ) (pending : Option Key) : List Text → Except Stop (σ × List Text)
  | [] => if pending.isSome then .error .misuse else .ok (s, [])
  | word :: words =>
    match word with
    | ['-', '-'] =>
      if pending.isSome then .error .misuse else return (← l.readOperands s words, [])
    | '-' :: '-' :: name =>
      if pending.isSome then .error .misuse else do
        let (s, pending) ← l.readLong s name
        read l s pending words
    | '-' :: c :: cs =>
      if pending.isSome then .error .misuse else do
        let (s, pending) ← l.readShort s (c :: cs)
        read l s pending words
    | word =>
      match pending with
      | some k => do read l (← l.accept s (.value k word)) none words
      | none =>
        if l.isCommand word then .ok (s, word :: words)
        else do read l (← l.accept s (.operand word)) none words

end Level

end DocLint.Command
