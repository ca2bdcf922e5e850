import DocLint.Toml.Quoted

/-!
# TOML numbers

Integers have 64 bits and may be written in base 16, 8 or 2. Of a float only its form and its size
are looked at.

* `integer?`: the value of an integer.
* `isFloat`: whether a text is a float.
-/

namespace DocLint.Toml

open Text

/-- Digits of a base, an underscore allowed between two of them. -/
def digitRun? (digit? : Char → Option Nat) : Text → Option (List Nat)
  | [] => none
  | [c] => (digit? c).map ([·])
  | c :: '_' :: t => (digit? c).bind fun d => (digitRun? digit? t).map (d :: ·)
  | c :: t => (digit? c).bind fun d => (digitRun? digit? t).map (d :: ·)

/-- The value of digits in a base. -/
def digitsValue (base : Nat) (ds : List Nat) : Nat := ds.foldl (fun v d => v * base + d) 0

/-- A digit below a base. -/
def digitBelow? (base : Nat) (c : Char) : Option Nat := (hexDigit? c).filter (· < base)

/-- The sign at the front, and the text after it. -/
def signed : Text → Bool × Text
  | '-' :: t => (true, t)
  | '+' :: t => (false, t)
  | t => (false, t)

/-- Decimal digits without a leading zero. -/
def decimal? (t : Text) : Option (List Nat) := do
  let ds ← digitRun? (digitBelow? 10) t
  if ds.head? = some 0 ∧ t.length > 1 then none else some ds

/-- An integer of 64 bits. -/
def inRange? (n : Int) : Option Int :=
  if -9223372036854775808 ≤ n ∧ n < 9223372036854775808 then some n else none

/-- An integer. -/
def integer? (t : Text) : Option Int :=
  let based (base : Nat) (t : Text) : Option Int :=
    (digitRun? (digitBelow? base) t).bind fun ds => inRange? (digitsValue base ds)
  match t with
  | '0' :: 'x' :: t => based 16 t
  | '0' :: 'o' :: t => based 8 t
  | '0' :: 'b' :: t => based 2 t
  | t =>
    let (negative, digits) := signed t
    (decimal? digits).bind fun ds =>
      let n : Int := digitsValue 10 ds
      inRange? (if negative then -n else n)

/-- The value `digits · 10 ^ exponent` rounds to a finite number. -/
def isFinite (digits : List Nat) (exponent : Int) : Bool :=
  let ds := digits.dropWhile (· == 0)
  let magnitude : Int := ds.length + exponent
  if ds.isEmpty || magnitude < 309 then true
  else if magnitude > 309 then false
  else
    let bound : Nat := Nat.pow 2 1024 - Nat.pow 2 970
    let n := digitsValue 10 ds
    if 0 ≤ exponent then decide (n * Nat.pow 10 exponent.toNat < bound)
    else decide (n < bound * Nat.pow 10 (-exponent).toNat)

/-- A float: an integer part with a fraction, an exponent or both, or one of `inf` and `nan`. Only
positive numbers are refused for their size. -/
def isFloat (t : Text) : Bool :=
  let (negative, u) := signed t
  if u = "inf".toList ∨ u = "nan".toList then true
  else
    let isE (c : Char) : Bool := c == 'e' || c == 'E'
    let (number, rest) := u.span (!isE ·)
    let (whole, fraction) := number.span (· != '.')
    let exponent? : Option Int := match rest with
      | [] => some 0
      | _ :: e =>
        let (down, ds) := signed e
        (digitRun? (digitBelow? 10) ds).map fun ds =>
          let n : Int := digitsValue 10 ds
          if down then -n else n
    let fraction? : Option (List Nat) := match fraction with
      | [] => some []
      | _ :: ds => digitRun? (digitBelow? 10) ds
    if rest.isEmpty && fraction.isEmpty then false
    else match decimal? whole, fraction?, exponent? with
      | some w, some f, some e => negative || isFinite (w ++ f) (e - f.length)
      | _, _, _ => false

end DocLint.Toml
