import StrictSchema.Number.Decimal

/-!
# TOML dates and times

A `Moment` is a date, a time of day or both, and a date with a time may say how far its clock is
away from universal time. Dates are days of the calendar and times are times of a day, with room for
a leap second. `Toml.moment?` reads the form with digits in fixed places; `Moment.text` writes it
with a capital letter between date and time and no zeros at the end of a fraction.
-/

namespace StrictSchema.Toml

/-- Whether a year has a leap day. -/
def isLeapYear (year : Nat) : Bool := year % 4 = 0 && (year % 100 ≠ 0 || year % 400 = 0)

/-- How many days a month has. -/
def daysOfMonth (year month : Nat) : Nat :=
  if month = 2 then if isLeapYear year then 29 else 28
  else if [4, 6, 9, 11].contains month then 30
  else 31

/-- A day of the calendar, in a year of four digits. -/
structure Date where
  year : Nat
  month : Nat
  day : Nat
  year_lt : year < 10000
  month_mem : 1 ≤ month ∧ month ≤ 12
  day_mem : 1 ≤ day ∧ day ≤ daysOfMonth year month

/-- A time of day; the second after the last one of a minute is a leap second. -/
structure Time where
  hour : Nat
  minute : Nat
  second : Nat
  nanosecond : Nat
  hour_lt : hour < 24
  minute_lt : minute < 60
  second_le : second ≤ 60
  nanosecond_lt : nanosecond < 1000000000

/-- How far a clock is away from universal time: not at all by its letter, or some minutes, less
than a day in either direction. -/
inductive Offset where
  | universal
  | away (minutes : Int) (within : minutes.natAbs < 1440)

/-- A date, a time of day, or a date with a time. -/
inductive Moment where
  | date (d : Date)
  | time (t : Time)
  | dateTime (d : Date) (t : Time) (offset : Option Offset)

/-! ## Texts -/

/-- A number with zeros before it up to a width. -/
def zeroPadded (width n : Nat) : List Char :=
  List.replicate (width - (Decimal.digitsOf n).length) '0' ++ Decimal.digitsOf n

def Date.chars (d : Date) : List Char :=
  zeroPadded 4 d.year ++ '-' :: zeroPadded 2 d.month ++ '-' :: zeroPadded 2 d.day

/-- The nanoseconds as a fraction of a second, without the zeros at its end. -/
def fractionChars (nanosecond : Nat) : List Char :=
  if nanosecond = 0 then []
  else '.' :: ((zeroPadded 9 nanosecond).reverse.dropWhile (· = '0')).reverse

def Time.chars (t : Time) : List Char :=
  zeroPadded 2 t.hour ++ ':' :: zeroPadded 2 t.minute ++ ':' :: zeroPadded 2 t.second ++
    fractionChars t.nanosecond

def Offset.chars : Offset → List Char
  | .universal => ['Z']
  | .away minutes _ =>
    (if minutes < 0 then '-' else '+') ::
      (zeroPadded 2 (minutes.natAbs / 60) ++ ':' :: zeroPadded 2 (minutes.natAbs % 60))

def Moment.chars : Moment → List Char
  | .date d => d.chars
  | .time t => t.chars
  | .dateTime d t offset =>
    d.chars ++ 'T' :: t.chars ++ (match offset with
      | some offset => offset.chars
      | none => [])

/-- The text of a moment. -/
def Moment.text (m : Moment) : String := String.ofList m.chars

/-! ## Reading -/

/-- The number that so many digits spell, with what is left. -/
def fixedDigits? (count : Nat) (cs : List Char) : Option (Nat × List Char) :=
  let digits := cs.take count
  if digits.length = count && digits.all Char.isDigit then
    some (Decimal.ofDigits digits, cs.drop count)
  else none

/-- What is left after a character. -/
def after? (c : Char) : List Char → Option (List Char)
  | [] => none
  | d :: cs => if d = c then some cs else none

/-- A date: a year of four digits, a month and a day of two. -/
def date? (cs : List Char) : Option (Date × List Char) := do
  let (year, rest) ← fixedDigits? 4 cs
  let (month, rest) ← fixedDigits? 2 (← after? '-' rest)
  let (day, rest) ← fixedDigits? 2 (← after? '-' rest)
  if h : year < 10000 ∧ (1 ≤ month ∧ month ≤ 12) ∧ 1 ≤ day ∧ day ≤ daysOfMonth year month then
    some (⟨year, month, day, h.1, h.2.1, h.2.2⟩, rest)
  else none

/-- The nanoseconds after a point: nine digits count, and those that are not there are zeros. -/
def fraction (cs : List Char) : Nat × List Char :=
  match cs with
  | '.' :: rest =>
    let digits := rest.takeWhile Char.isDigit
    if digits.isEmpty then (0, cs)
    else (Decimal.ofDigits (digits.take 9 ++ List.replicate (9 - digits.length) '0'),
      rest.dropWhile Char.isDigit)
  | _ => (0, cs)

/-- A time: hour, minute and second of two digits each, and then a fraction if there is one. -/
def time? (cs : List Char) : Option (Time × List Char) := do
  let (hour, rest) ← fixedDigits? 2 cs
  let (minute, rest) ← fixedDigits? 2 (← after? ':' rest)
  let (second, rest) ← fixedDigits? 2 (← after? ':' rest)
  let (nanosecond, rest) := fraction rest
  if h : hour < 24 ∧ minute < 60 ∧ second ≤ 60 ∧ nanosecond < 1000000000 then
    some (⟨hour, minute, second, nanosecond, h.1, h.2.1, h.2.2.1, h.2.2.2⟩, rest)
  else none

/-- The letter of universal time, or a sign with hours and minutes. -/
def offset? : List Char → Option (Offset × List Char)
  | [] => none
  | c :: cs =>
    if c = 'Z' || c = 'z' then some (.universal, cs)
    else if c = '+' || c = '-' then do
      let (hours, rest) ← fixedDigits? 2 cs
      let (minutes, rest) ← fixedDigits? 2 (← after? ':' rest)
      if h : hours < 24 ∧ minutes < 60 then
        let distance : Int := 60 * hours + minutes
        some (.away (if c = '-' then -distance else distance) (by split <;> omega), rest)
      else none
    else none

/-- A time behind the mark between it and a date, which is a letter or a blank. -/
def timeAfterDate? : List Char → Option (Time × List Char)
  | [] => none
  | c :: cs => if c = 'T' || c = 't' || c = ' ' then time? cs else none

/-- A date, a time, or both. What follows and belongs to neither is left. -/
def moment? (cs : List Char) : Option (Moment × List Char) :=
  match date? cs with
  | none => (time? cs).map fun (t, rest) => (.time t, rest)
  | some (d, rest) =>
    match timeAfterDate? rest with
    | none => some (.date d, rest)
    | some (t, rest) =>
      match offset? rest with
      | none => some (.dateTime d t none, rest)
      | some (offset, rest) => some (.dateTime d t (some offset), rest)

end StrictSchema.Toml
