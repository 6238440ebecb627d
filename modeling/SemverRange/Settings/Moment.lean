import SemverRange.Numeric.Digit

/-!
# Dates and times of day

A settings document can hold a date, or a date with a time of day, which may come
with its distance from the meridian of Greenwich.  They are never valid settings,
but messages show them.

## Main definitions

* `Date`, `Moment` — a date, and a date with a time of day.
* `Date.check`, `Moment.check` — the numbers are in range.
* `Moment.same` — the same instant, as far as that can be told.
* `Date.display`, `Date.plain`, `Moment.display`, `Moment.plain` — the two written forms:
  as a value in a message, and as a text that is sorted.
-/

namespace SemverRange

/-- A day of the calendar. -/
structure Date where
  year : Nat
  month : Nat
  day : Nat
  deriving DecidableEq, Repr

/-- A day with a time of day. -/
structure Moment where
  date : Date
  hour : Nat
  minute : Nat
  second : Nat
  microsecond : Nat
  /-- How many seconds the local time is ahead of Greenwich, if that is known. -/
  offset : Option Int
  deriving DecidableEq, Repr

/-- A number of a date or a time is out of range. -/
inductive MomentDefect
  | year (n : Nat)
  | month
  | day
  | hour
  | minute
  | second
  /-- The offset, in seconds, is a day or more. -/
  | offset (seconds : Int)
  deriving DecidableEq, Repr

/-- The decimal digits of `n`, with zeros in front up to the given width. -/
def decimals (width n : Nat) : String := String.ofList (padded 10 width n)

/-- A span of time as whole days and the seconds that are left. -/
def showSpan (seconds : Int) : String :=
  let days := seconds.fdiv 86400
  let rest := seconds.fmod 86400
  let parts := (if days = 0 then [] else ["days=" ++ toString days]) ++
    (if rest = 0 then [] else ["seconds=" ++ toString rest])
  "datetime.timedelta(" ++ (if parts = [] then "0" else String.intercalate ", " parts) ++ ")"

/-- The wording of the defect. -/
def MomentDefect.message : MomentDefect → String
  | year n => "year " ++ toString n ++ " is out of range"
  | month => "month must be in 1..12"
  | day => "day is out of range for month"
  | hour => "hour must be in 0..23"
  | minute => "minute must be in 0..59"
  | second => "second must be in 0..59"
  | offset n =>
    "offset must be a timedelta strictly between -timedelta(hours=24) and " ++
      "timedelta(hours=24), not " ++ showSpan n ++ "."

namespace Date

/-- The year has a twenty-ninth of February. -/
def isLeapYear (year : Nat) : Bool :=
  year % 4 = 0 && (year % 100 ≠ 0 || year % 400 = 0)

/-- The number of days of a month. -/
def daysOfMonth (year month : Nat) : Nat :=
  if month = 2 then if isLeapYear year then 29 else 28
  else if month = 4 ∨ month = 6 ∨ month = 9 ∨ month = 11 then 30
  else 31

/-- The numbers make a day of the calendar. -/
def check (d : Date) : Except MomentDefect Unit :=
  if d.year < 1 ∨ 9999 < d.year then .error (.year d.year)
  else if d.month < 1 ∨ 12 < d.month then .error .month
  else if d.day < 1 ∨ daysOfMonth d.year d.month < d.day then .error .day
  else .ok ()

/-- The number of days since the first of January of the year 1. -/
def dayNumber (d : Date) : Nat :=
  let y := d.year - 1
  let months := (List.range (d.month - 1)).foldl (fun n m => n + daysOfMonth d.year (m + 1)) 0
  y * 365 + y / 4 - y / 100 + y / 400 + months + (d.day - 1)

/-- The three numbers with commas between them. -/
def commaText (d : Date) : String :=
  String.intercalate ", " [toString d.year, toString d.month, toString d.day]

/-- The date as a value in a message. -/
def display (d : Date) : String := "datetime.date(" ++ d.commaText ++ ")"

/-- The date as a text. -/
def plain (d : Date) : String :=
  String.intercalate "-" [decimals 4 d.year, decimals 2 d.month, decimals 2 d.day]

end Date

namespace Moment

/-- The numbers make a time of day of the calendar; the offset is looked at first. -/
def check (t : Moment) : Except MomentDefect Unit := do
  match t.offset with
  | some n => if n ≤ -86400 ∨ 86400 ≤ n then throw (.offset n)
  | none => pure ()
  t.date.check
  if 23 < t.hour then throw .hour
  if 59 < t.minute then throw .minute
  if 59 < t.second then throw .second

/-- The number of microseconds since the start of the year 1, in local time. -/
def localMicroseconds (t : Moment) : Int :=
  ((((t.date.dayNumber * 24 + t.hour) * 60 + t.minute) * 60 + t.second) * 1000000
    + t.microsecond : Nat)

/-- The same instant; where only one of the two tells its offset, that is never so. -/
def same (t u : Moment) : Bool :=
  match t.offset, u.offset with
  | none, none => t.localMicroseconds = u.localMicroseconds
  | some m, some n =>
    t.localMicroseconds - m * 1000000 = u.localMicroseconds - n * 1000000
  | _, _ => false

/-- The offset as a value in a message. -/
def showOffset (seconds : Int) : String :=
  if seconds = 0 then "datetime.timezone.utc"
  else "datetime.timezone(" ++ showSpan seconds ++ ")"

/-- The moment as a value in a message: seconds and microseconds are left out when they
and all after them are zero. -/
def display (t : Moment) : String :=
  let seconds :=
    if t.microsecond ≠ 0 then [t.second, t.microsecond]
    else if t.second ≠ 0 then [t.second]
    else []
  let numbers := [t.hour, t.minute] ++ seconds
  let zone := t.offset.elim "" fun n => ", tzinfo=" ++ showOffset n
  "datetime.datetime(" ++ String.intercalate ", " (t.date.commaText :: numbers.map toString) ++
    zone ++ ")"

/-- The moment as a text. -/
def plain (t : Moment) : String :=
  let clock := String.intercalate ":" [decimals 2 t.hour, decimals 2 t.minute, decimals 2 t.second]
  let fraction := if t.microsecond = 0 then "" else "." ++ decimals 6 t.microsecond
  let zone := t.offset.elim "" fun n =>
    let minutes := n.natAbs / 60
    (if n < 0 then "-" else "+") ++ decimals 2 (minutes / 60) ++ ":" ++ decimals 2 (minutes % 60)
  t.date.plain ++ " " ++ clock ++ fraction ++ zone

end Moment

end SemverRange
