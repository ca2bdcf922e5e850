import DocLint.Toml.Number

/-!
# TOML times

A time is a date, a time of day, or both with a time zone or without one. A time can be written in
several ways; `Time.text` is the one written form in which it is handed on.

* `Time.ofText?`: the time that a text writes.
* `Time.text`: the written form. The date is divided from the time of day by a capital `T`, and
  parts of a second have no zeros at their end.
-/

namespace DocLint.Toml

open Text

/-- A day of the calendar. -/
structure Date where
  year : Nat
  month : Nat
  day : Nat
  deriving DecidableEq, Repr

/-- A time of day. -/
structure Clock where
  hour : Nat
  minute : Nat
  second : Nat
  /-- Parts of a second, each the billionth of it. -/
  nanosecond : Nat := 0
  deriving DecidableEq, Repr

/-- A time zone. -/
inductive Zone where
  | utc
  /-- So many minutes ahead of universal time. -/
  | ahead (minutes : Int)
  deriving DecidableEq, Repr

/-- A time. -/
inductive Time where
  | date (d : Date)
  | clock (c : Clock)
  /-- A time of day on a day. -/
  | moment (d : Date) (c : Clock) (zone : Option Zone)
  deriving DecidableEq, Repr

/-! ## Writing -/

/-- A number with zeros before it up to a width. -/
def zeroPadded (width n : Nat) : Text :=
  List.replicate (width - (ofNat n).length) '0' ++ ofNat n

/-- The written form of a date. -/
def Date.text (d : Date) : Text :=
  zeroPadded 4 d.year ++ "-" ++ zeroPadded 2 d.month ++ "-" ++ zeroPadded 2 d.day

/-- The written form of a part of a second: no digit that does not count. -/
def fractionText (nanosecond : Nat) : Text :=
  if nanosecond = 0 then [] else '.' :: trimEndOf (· == '0') (zeroPadded 9 nanosecond)

/-- The written form of a time of day. -/
def Clock.text (c : Clock) : Text :=
  zeroPadded 2 c.hour ++ ":" ++ zeroPadded 2 c.minute ++ ":" ++ zeroPadded 2 c.second ++
    fractionText c.nanosecond

/-- The written form of a time zone. -/
def Zone.text : Zone → Text
  | utc => "Z"
  | ahead m =>
    (if m < 0 then '-' else '+') :: zeroPadded 2 (m.natAbs / 60) ++ ":" ++
      zeroPadded 2 (m.natAbs % 60)

/-- The written form of a time. -/
def Time.text : Time → Text
  | date d => d.text
  | clock c => c.text
  | moment d c zone => d.text ++ "T" ++ c.text ++ (zone.map Zone.text).getD []

/-! ## Reading -/

/-- A number of `n` digits at the front, between two bounds. -/
def fixed? (n low high : Nat) (t : Text) : Option (Nat × Text) := do
  let ds ← (t.take n).mapM (digitBelow? 10)
  let v := digitsValue 10 ds
  if ds.length = n ∧ low ≤ v ∧ v ≤ high then some (v, t.drop n) else none

/-- The character `c` at the front goes. -/
def char? (c : Char) : Text → Option Text
  | d :: t => if c = d then some t else none
  | [] => none

/-- The last day of a month. -/
def lastDay (year month : Nat) : Nat :=
  if month = 2 then
    if year % 4 = 0 ∧ (year % 100 ≠ 0 ∨ year % 400 = 0) then 29 else 28
  else if month ∈ [4, 6, 9, 11] then 30
  else 31

/-- A date at the front. -/
def date? (t : Text) : Option (Date × Text) := do
  let (year, t) ← fixed? 4 0 9999 t
  let t ← char? '-' t
  let (month, t) ← fixed? 2 1 12 t
  let t ← char? '-' t
  let (day, t) ← fixed? 2 1 (lastDay year month) t
  some (⟨year, month, day⟩, t)

/-- Parts of a second at the front, behind a point. Digits behind the ninth do not count. -/
def fraction? : Text → Option (Nat × Text)
  | '.' :: t => do
    let ds ← (t.takeWhile Char.isDigit).mapM (digitBelow? 10)
    if ds.isEmpty then none
    else some (digitsValue 10 ((ds ++ List.replicate 9 0).take 9), t.dropWhile Char.isDigit)
  | t => some (0, t)

/-- A time of day at the front. The second 60 is one that is put in to keep step with the sun. -/
def clock? (t : Text) : Option (Clock × Text) := do
  let (hour, t) ← fixed? 2 0 23 t
  let t ← char? ':' t
  let (minute, t) ← fixed? 2 0 59 t
  let t ← char? ':' t
  let (second, t) ← fixed? 2 0 60 t
  let (nanosecond, t) ← fraction? t
  some (⟨hour, minute, second, nanosecond⟩, t)

/-- The minutes of a text of hours and minutes. -/
def offset? (t : Text) : Option Nat := do
  let (hours, t) ← fixed? 2 0 23 t
  let t ← char? ':' t
  let (minutes, t) ← fixed? 2 0 59 t
  if t.isEmpty then some (60 * hours + minutes) else none

/-- The time zone that a text writes; an empty text writes none. -/
def zone? : Text → Option (Option Zone)
  | [] => some none
  | ['Z'] | ['z'] => some (some .utc)
  | '+' :: t => (offset? t).map fun m => some (.ahead m)
  | '-' :: t => (offset? t).map fun m => some (.ahead (-m))
  | _ => none

namespace Time

/-- The time of day that a text writes, a time zone behind it or not, on a day. -/
def onDay? (d : Date) (t : Text) : Option Time := do
  let (c, t) ← clock? t
  let zone ← zone? t
  some (moment d c zone)

/-- The time that a text writes. -/
def ofText? (t : Text) : Option Time :=
  match date? t with
  | some (d, []) => some (date d)
  | some (d, 'T' :: t) | some (d, 't' :: t) => onDay? d t
  | some _ => none
  | none =>
    match clock? t with
    | some (c, []) => some (clock c)
    | _ => none

end Time

end DocLint.Toml
