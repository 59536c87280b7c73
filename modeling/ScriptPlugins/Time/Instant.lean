import ScriptPlugins.Text.Blank
import ScriptPlugins.Text.Decimal

/-!
# Instants — points in time, written as in RFC 3339

An instant is kept in UTC.  The reader takes any offset and is lenient about blanks between the
parts; the writer uses `Z` and as many digits of the second as it needs, in groups of three.
-/

namespace ScriptPlugins

/-- A point in time, in UTC.  A leap second is second 60. -/
structure Instant where
  year : Int
  month : Nat
  day : Nat
  hour : Nat
  minute : Nat
  second : Nat
  nanos : Nat
  deriving DecidableEq, Repr

namespace Instant

open Text

/-! ## 1. The calendar -/

def isLeapYear (year : Int) : Bool := year % 4 = 0 ∧ (year % 100 ≠ 0 ∨ year % 400 = 0)

def daysInMonth (year : Int) (month : Nat) : Nat :=
  if month = 2 then (if isLeapYear year then 29 else 28)
  else if month = 4 ∨ month = 6 ∨ month = 9 ∨ month = 11 then 30
  else 31

/-- The day after a date. -/
def nextDay : Int × Nat × Nat → Int × Nat × Nat
  | (y, m, d) =>
    if d < daysInMonth y m then (y, m, d + 1)
    else if m < 12 then (y, m + 1, 1)
    else (y + 1, 1, 1)

/-- The day before a date. -/
def previousDay : Int × Nat × Nat → Int × Nat × Nat
  | (y, m, d) =>
    if 1 < d then (y, m, d - 1)
    else if 1 < m then (y, m - 1, daysInMonth y (m - 1))
    else (y - 1, 12, 31)

/-- The years an instant can lie in. -/
def yearInRange (year : Int) : Bool := -262143 ≤ year ∧ year ≤ 262142

/-- Whether the fields name a day and a second of it. -/
def valid (t : Instant) : Bool :=
  yearInRange t.year ∧ 1 ≤ t.month ∧ t.month ≤ 12 ∧ 1 ≤ t.day ∧ t.day ≤ daysInMonth t.year t.month ∧
  t.hour ≤ 23 ∧ t.minute ≤ 59 ∧ t.second ≤ 60 ∧ t.nanos < 1000000000

/-- The same instant in UTC, for fields that were read with an offset of less than a day. -/
def toUTC (t : Instant) (offsetMinutes : Int) : Instant :=
  let minutes : Int := t.hour * 60 + t.minute - offsetMinutes
  let date := (t.year, t.month, t.day)
  let (date, minutes) :=
    if minutes < 0 then (previousDay date, minutes + 1440)
    else if minutes ≥ 1440 then (nextDay date, minutes - 1440)
    else (date, minutes)
  { t with
    year := date.1, month := date.2.1, day := date.2.2
    hour := minutes.toNat / 60, minute := minutes.toNat % 60 }

/-- The instant so many nanoseconds after the beginning of 1970. -/
def sinceEpoch (n : Nat) : Instant :=
  let seconds := n / 1000000000
  let (year, month, day) := Nat.repeat nextDay (seconds / 86400) (1970, 1, 1)
  ⟨year, month, day, seconds / 3600 % 24, seconds / 60 % 60, seconds % 60, n % 1000000000⟩

/-! ## 2. Reading -/

/-- Up to `most` digits, at least one. -/
def takeDigits (most : Nat) (cs : List Char) : Option (Nat × List Char) :=
  let ds := (cs.take most).takeWhile Char.isDigit
  if ds = [] then none else (numeral? 10 ds).map (·, cs.drop ds.length)

/-- A number of at most two digits, with blanks before it. -/
def takeField (cs : List Char) : Option (Nat × List Char) := takeDigits 2 (trimStart cs)

/-- The year: up to four digits, or any number of them behind a sign. -/
def takeYear (cs : List Char) : Option (Int × List Char) :=
  match trimStart cs with
  | '-' :: cs => (takeDigits cs.length cs).map fun (n, rest) => (-(n : Int), rest)
  | '+' :: cs => (takeDigits cs.length cs).map fun (n, rest) => ((n : Int), rest)
  | cs => (takeDigits 4 cs).map fun (n, rest) => ((n : Int), rest)

/-- A given mark, with blanks before it. -/
def takeMark (mark : Char) (cs : List Char) : Option (List Char) :=
  match trimStart cs with
  | c :: cs => if c = mark then some cs else none
  | [] => none

/-- The nanoseconds behind a point; digits after the ninth are passed over. -/
def takeNanos : List Char → Option (Nat × List Char)
  | '.' :: cs => do
    let (n, rest) ← takeDigits 9 cs
    let digits := cs.length - rest.length
    return (n * Nat.pow 10 (9 - digits), rest.dropWhile Char.isDigit)
  | cs => some (0, cs)

/-- The offset in minutes: `Z`, `UTC`, or hours and minutes with a sign. -/
def takeOffset (cs : List Char) : Option (Int × List Char) :=
  match cs with
  | c₁ :: c₂ :: c₃ :: rest =>
    if c₁.toUpper = 'U' ∧ c₂.toUpper = 'T' ∧ c₃.toUpper = 'C' then some (0, rest)
    else signed cs
  | _ => signed cs
where
  signed : List Char → Option (Int × List Char)
    | 'Z' :: rest | 'z' :: rest => some (0, rest)
    | s :: h₁ :: h₂ :: rest => do
      let sign : Int ←
        if s = '+' then some 1 else if s = '-' ∨ s = '\u2212' then some (-1) else none
      let hours ← numeral? 10 [h₁, h₂]
      match rest.dropWhile fun c => c = ':' ∨ isBlank c with
      | m₁ :: m₂ :: rest => do
        let minutes ← numeral? 10 [m₁, m₂]
        if minutes < 60 ∧ hours < 24 then some (sign * (hours * 60 + minutes), rest) else none
      | _ => none
    | _ => none

/-- The instant that a text names. -/
def read (s : String) : Option Instant := do
  let (year, cs) ← takeYear s.toList
  let cs ← takeMark '-' cs
  let (month, cs) ← takeField cs
  let cs ← takeMark '-' cs
  let (day, cs) ← takeField cs
  let cs ← match cs with
    | c :: cs => if c = 't' ∨ c = 'T' ∨ c = ' ' then some cs else none
    | [] => none
  let (hour, cs) ← takeField cs
  let cs ← takeMark ':' cs
  let (minute, cs) ← takeField cs
  let cs ← takeMark ':' cs
  let (second, cs) ← takeField cs
  let (nanos, cs) ← takeNanos cs
  -- Blanks may stand before the offset and behind it.
  let (offset, cs) ← takeOffset (trimStart cs)
  let t : Instant := { year, month, day, hour, minute, second, nanos }
  if t.valid ∧ trimStart cs = [] then
    let t := t.toUTC offset
    if yearInRange t.year then some t else none
  else none

/-! ## 3. Writing -/

/-- A year of four digits; one outside of them has its sign. -/
def writeYear (year : Int) : List Char :=
  if 0 ≤ year ∧ year ≤ 9999 then padded 4 year.toNat
  else if year < 0 then '-' :: padded 4 (-year).toNat
  else '+' :: padded 4 year.toNat

def writeDate (t : Instant) : List Char :=
  writeYear t.year ++ '-' :: padded 2 t.month ++ '-' :: padded 2 t.day

def writeTime (t : Instant) : List Char :=
  padded 2 t.hour ++ ':' :: padded 2 t.minute ++ ':' :: padded 2 t.second

/-- The digits behind the second, in groups of three, with their point. -/
def writeNanos (n : Nat) : List Char :=
  if n = 0 then []
  else if n % 1000000 = 0 then '.' :: padded 3 (n / 1000000)
  else if n % 1000 = 0 then '.' :: padded 6 (n / 1000)
  else '.' :: padded 9 n

/-- The text of an instant, in UTC. -/
def write (t : Instant) : String :=
  String.ofList (writeDate t ++ 'T' :: writeTime t ++ writeNanos t.nanos ++ ['Z'])

/-- The date and the time of day, for people. -/
def display (t : Instant) : String := String.ofList (writeDate t ++ ' ' :: writeTime t)

end Instant

end ScriptPlugins
