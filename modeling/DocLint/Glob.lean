import DocLint.Text.Basic

/-!
# Globs

A glob is a pattern for whole texts: `?` stands for any character, `*` for any text, `[…]` and
`[!…]` for a character inside or outside a set, and `**` for a text that is empty or ends with a
slash. `**` has to be a whole path component. A slash is a character like any other to `?`, `*`
and the sets.

* `Glob.parse`: reads a pattern, or says where and why it is not one.
* `Glob.accepts`: the glob matches a text.
-/

namespace DocLint

/-- A set of characters, as closed ranges. -/
abbrev CharSet := List (Char × Char)

namespace CharSet

/-- The set written `t`: `a-b` is a range, any other character stands for itself. -/
def parse : Text → CharSet
  | a :: '-' :: b :: t => (a, b) :: parse t
  | a :: t => (a, a) :: parse t
  | [] => []

/-- The character is in the set. -/
def has (s : CharSet) (c : Char) : Bool := s.any fun (a, b) => a ≤ c && c ≤ b

end CharSet

namespace Glob

/-- An element of a glob. -/
inductive Part where
  | char (c : Char)
  | any
  | within (s : CharSet)
  | outside (s : CharSet)
  /-- Any text. -/
  | sequence
  /-- The empty text, or a text that ends with a slash. -/
  | recursive
  deriving DecidableEq, Repr

/-- Why a text is not a glob. -/
inductive Fault where
  | wildcards
  | recursion
  | range
  deriving DecidableEq, Repr

/-- The wording of a fault. -/
def Fault.message : Fault → Text
  | wildcards => "wildcards are either regular \x60*\x60 or recursive \x60**\x60"
  | recursion => "recursive wildcards must form a single path component"
  | range => "invalid range pattern"

/-- A fault and the character it is near, counted from 0. -/
structure Error where
  position : Nat
  fault : Fault
  deriving DecidableEq, Repr

/-- The wording of an error. -/
def Error.message (e : Error) : Text :=
  "Pattern syntax error near position " ++ Text.ofNat e.position ++ ": " ++ e.fault.message

/-- The part that starts with the star at `pos`, with the number of characters of `t` it takes;
`prev` is the character before the star and `t` what follows it. -/
def star (pos : Nat) (prev : Option Char) (t : Text) : Except Error (Part × Nat) :=
  match t with
  | '*' :: '*' :: _ => .error ⟨pos + 2, .wildcards⟩
  | '*' :: rest =>
    if prev = none ∨ prev = some '/' then
      match rest with
      | [] => .ok (.recursive, 1)
      | '/' :: _ => .ok (.recursive, 2)
      | _ :: _ => .error ⟨pos + 2, .recursion⟩
    else .error ⟨pos - 1, .recursion⟩
  | _ => .ok (.sequence, 0)

/-- The members of a set up to its bracket; the first character is a member in any case. -/
def members? : Text → Option Text
  | [] => none
  | c :: t => if ']' ∈ t then some (c :: t.takeWhile (· ≠ ']')) else none

/-- The set that starts with the bracket at `pos`, with the number of characters of `t` it takes;
`t` is what follows the bracket. -/
def set (pos : Nat) (t : Text) : Except Error (Part × Nat) :=
  match t with
  | '!' :: t =>
    match members? t with
    | some m => .ok (.outside (CharSet.parse m), m.length + 2)
    | none => .error ⟨pos, .range⟩
  | t =>
    match members? t with
    | some m => .ok (.within (CharSet.parse m), m.length + 1)
    | none => .error ⟨pos, .range⟩

/-- The part that starts with `c` at `pos`, with the number of characters of `t` it takes. -/
def part (pos : Nat) (prev : Option Char) (c : Char) (t : Text) : Except Error (Part × Nat) :=
  match c with
  | '?' => .ok (.any, 0)
  | '*' => star pos prev t
  | '[' => set pos t
  | c => .ok (.char c, 0)

/-- Adds a part to those read so far, the latest first. Of two recursive wildcards in a row one is
kept, except at the very front. -/
def push (p : Part) : List Part → List Part
  | .recursive :: q :: ps =>
    if p = .recursive then .recursive :: q :: ps else p :: .recursive :: q :: ps
  | ps => p :: ps

/-- Reads the parts of a pattern from `pos` on, `taken` characters of which belong to the part
read last. -/
def scan (pos : Nat) (prev : Option Char) (taken : Nat) (parts : List Part) :
    Text → Except Error (List Part)
  | [] => .ok parts.reverse
  | c :: t =>
    match taken with
    | k + 1 => scan (pos + 1) (some c) k parts t
    | 0 => do
      let (p, k) ← part pos prev c t
      scan (pos + 1) (some c) k (push p parts) t

end Glob

/-- A pattern for texts. -/
structure Glob where
  parts : List Glob.Part
  deriving DecidableEq, Repr

namespace Glob

/-- Reads a pattern. -/
def parse (pattern : Text) : Except Error Glob := return ⟨← scan 0 none 0 [] pattern⟩

/-- The outcome of matching from some place on. -/
inductive Match where
  | matched
  /-- No match; one may be found if an earlier wildcard takes more. -/
  | retry
  /-- The text is too short for what follows, however much the wildcards take. -/
  | exhausted
  deriving DecidableEq, Repr

/-- Tries `k` where the wildcard takes nothing more, then after each character it may end with. -/
def sweep (recursive : Bool) (k : Text → Match) : Text → Match
  | [] => k []
  | c :: t =>
    if recursive && c ≠ '/' then sweep recursive k t
    else match k t with
      | .retry => sweep recursive k t
      | m => m

/-- Tries the empty text for a wildcard first, then longer ones. -/
def wildcard (recursive : Bool) (k : Text → Match) (t : Text) : Match :=
  match k t with
  | .retry => sweep recursive k t
  | m => m

/-- One character of the class `p`, then `k`. -/
def single (p : Char → Bool) (k : Text → Match) : Text → Match
  | [] => .exhausted
  | c :: t => if p c then k t else .retry

/-- Matches the parts with the whole of a text. -/
def run : List Part → Text → Match
  | [], t => if t.isEmpty then .matched else .retry
  | .char c :: ps, t => single (· == c) (run ps) t
  | .any :: ps, t => single (fun _ => true) (run ps) t
  | .within s :: ps, t => single s.has (run ps) t
  | .outside s :: ps, t => single (fun c => !s.has c) (run ps) t
  | .sequence :: ps, t => wildcard false (run ps) t
  | .recursive :: ps, t => wildcard true (run ps) t

/-- The glob matches the text. -/
def accepts (g : Glob) (t : Text) : Bool := run g.parts t == .matched

end Glob

end DocLint
