/-!
# Dates and times

Dates and times of day as TOML writes them, each part checked against the calendar and the clock.
-/

namespace LayerLint.Toml

/-- A day of the calendar. -/
structure Date where
  year : Nat
  month : Nat
  day : Nat
  deriving DecidableEq, Repr

/-- A time of day. -/
structure Time where
  hour : Nat
  minute : Nat
  second : Nat
  nanosecond : Nat
  deriving DecidableEq, Repr

/-- A distance from universal time. -/
inductive Offset where
  /-- No distance, written as a letter. -/
  | zulu
  /-- A number of minutes to the east. -/
  | minutes (east : Int)
  deriving DecidableEq, Repr

/-- A date, a time, or both, with an offset only where both are there. -/
inductive DateTime where
  | date (date : Date)
  | time (time : Time)
  | both (date : Date) (time : Time) (offset : Option Offset)
  deriving DecidableEq, Repr

/-! ## Writing -/

/-- A number in at least so many digits. -/
def padded (width n : Nat) : String :=
  let digits := Nat.toDigits 10 n
  String.ofList (List.replicate (width - digits.length) '0' ++ digits)

/-- The text of a date. -/
def Date.text (d : Date) : String :=
  s!"{padded 4 d.year}-{padded 2 d.month}-{padded 2 d.day}"

/-- The text of a fraction of a second, without the zeros at its end. -/
def fractionText (nanosecond : Nat) : String :=
  if nanosecond = 0 then ""
  else
    let digits := (padded 9 nanosecond).toList
    "." ++ String.ofList (digits.reverse.dropWhile (· == '0')).reverse

/-- The text of a time. -/
def Time.text (t : Time) : String :=
  s!"{padded 2 t.hour}:{padded 2 t.minute}:{padded 2 t.second}{fractionText t.nanosecond}"

/-- The text of an offset. -/
def Offset.text : Offset → String
  | .zulu => "Z"
  | .minutes east =>
    let sign := if east < 0 then "-" else "+"
    s!"{sign}{padded 2 (east.natAbs / 60)}:{padded 2 (east.natAbs % 60)}"

/-- The text of a date and time. -/
def DateTime.text : DateTime → String
  | .date d => d.text
  | .time t => t.text
  | .both d t offset => s!"{d.text}T{t.text}" ++ (offset.map Offset.text).getD ""

/-! ## Reading -/

/-- Reads a number of so many digits. -/
def readFixed : (count : Nat) → (value : Nat) → List Char → Option (Nat × List Char)
  | 0, value, cs => some (value, cs)
  | count + 1, value, c :: cs =>
    if c.isDigit then readFixed count (10 * value + (c.toNat - '0'.toNat)) cs else none
  | _ + 1, _, [] => none

/-- Reads a number of two digits within bounds. -/
def readPair (low high : Nat) (cs : List Char) : Option (Nat × List Char) := do
  let (n, cs) ← readFixed 2 0 cs
  if low ≤ n ∧ n ≤ high then some (n, cs) else none

/-- The number of days in a month. -/
def daysIn (year month : Nat) : Nat :=
  if month = 2 then
    if year % 4 = 0 ∧ (year % 100 ≠ 0 ∨ year % 400 = 0) then 29 else 28
  else if month = 4 ∨ month = 6 ∨ month = 9 ∨ month = 11 then 30
  else 31

/-- Reads a date. -/
def readDate (cs : List Char) : Option (Date × List Char) := do
  let (year, cs) ← readFixed 4 0 cs
  let '-' :: cs := cs | none
  let (month, cs) ← readPair 1 12 cs
  let '-' :: cs := cs | none
  let (day, cs) ← readPair 1 (daysIn year month) cs
  return (⟨year, month, day⟩, cs)

/-- Reads a fraction of a second, if there is one; places after the ninth are cut off. -/
def readNanosecond : List Char → Option (Nat × List Char)
  | '.' :: cs =>
    match cs.span Char.isDigit with
    | ([], _) => none
    | (digits, cs) => do
      let digits := (digits ++ List.replicate 9 '0').take 9
      let (n, _) ← readFixed 9 0 digits
      return (n, cs)
  | cs => some (0, cs)

/-- Reads a time. A minute may have a leap second. -/
def readTime (cs : List Char) : Option (Time × List Char) := do
  let (hour, cs) ← readPair 0 23 cs
  let ':' :: cs := cs | none
  let (minute, cs) ← readPair 0 59 cs
  let ':' :: cs := cs | none
  let (second, cs) ← readPair 0 60 cs
  let (nanosecond, cs) ← readNanosecond cs
  return (⟨hour, minute, second, nanosecond⟩, cs)

/-- Reads the hours and minutes of an offset, in minutes. -/
def readMinutes (cs : List Char) : Option (Int × List Char) := do
  let (hour, cs) ← readPair 0 23 cs
  let ':' :: cs := cs | none
  let (minute, cs) ← readPair 0 59 cs
  return (Int.ofNat (60 * hour + minute), cs)

/-- Reads an offset, if there is one. -/
def readOffset : List Char → Option (Option Offset × List Char)
  | '+' :: cs => (readMinutes cs).map fun (east, cs) => (some (.minutes east), cs)
  | '-' :: cs => (readMinutes cs).map fun (west, cs) => (some (.minutes (-west)), cs)
  | 'Z' :: cs | 'z' :: cs => some (some .zulu, cs)
  | cs => some (none, cs)

/-- Reads a date, and a time after it when one follows, a letter or a blank between them. -/
def readFromDate (cs : List Char) : Option (DateTime × List Char) := do
  let (date, cs) ← readDate cs
  match cs with
  | 'T' :: cs | 't' :: cs | ' ' :: cs =>
    let (time, cs) ← readTime cs
    let (offset, cs) ← readOffset cs
    return (.both date time offset, cs)
  | cs => return (.date date, cs)

/-- The date and time that a whole text spells. -/
def dateTime? (cs : List Char) : Option DateTime := do
  let (value, rest) ← readFromDate cs <|> (readTime cs).map fun (time, rest) => (.time time, rest)
  if rest.isEmpty then some value else none

end LayerLint.Toml
