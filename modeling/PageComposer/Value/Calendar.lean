/-
# Dates and times of day

A date of the proleptic calendar from year 1 to 9999, and a moment: a date, a time of day down to
microseconds, and perhaps an offset from universal time.
-/

namespace PageComposer

/-- A calendar date. -/
structure Date where
  year : Nat
  month : Nat
  day : Nat
  deriving Repr, DecidableEq, Inhabited

/-- A date and a time of day; `offset` counts seconds east of universal time. -/
structure Moment where
  date : Date
  hour : Nat
  minute : Nat
  second : Nat
  microsecond : Nat
  offset : Option Int
  deriving Repr, DecidableEq, Inhabited

/-- Why numbers make no date or time of day. -/
inductive CalendarFault where
  | year (n : Nat)
  | month
  | day
  | hour
  | minute
  | second
  | offset (negative : Bool) (seconds : Nat)
  deriving Repr, DecidableEq, Inhabited

/-- Whether a year has a 29th of February. -/
def isLeapYear (year : Nat) : Bool :=
  year % 4 == 0 && (year % 100 != 0 || year % 400 == 0)

/-- The number of days of a month. -/
def daysInMonth (year month : Nat) : Nat :=
  if month == 2 then (if isLeapYear year then 29 else 28)
  else if month == 4 || month == 6 || month == 9 || month == 11 then 30 else 31

theorem daysInMonth_le (year month : Nat) : daysInMonth year month ≤ 31 := by
  unfold daysInMonth
  split
  · split <;> decide
  · split <;> decide

/-- The date of three numbers. -/
def Date.of (year month day : Nat) : Except CalendarFault Date :=
  if year < 1 || year > 9999 then .error (.year year)
  else if month < 1 || month > 12 then .error .month
  else if day < 1 || day > daysInMonth year month then .error .day
  else .ok ⟨year, month, day⟩

/-- The date that lies `days` days after the first of January 1970. The count of days is moved to the
first of March of year 0, so that leap days end the years, the centuries and the cycles of 400 years. -/
def Date.ofDays (days : Nat) : Date :=
  let n := days + 719468
  let cycle := n / 146097
  let inCycle := n % 146097
  let yearInCycle := (inCycle - inCycle / 1460 + inCycle / 36524 - inCycle / 146096) / 365
  let inYear := inCycle - (365 * yearInCycle + yearInCycle / 4 - yearInCycle / 100)
  let monthFromMarch := (5 * inYear + 2) / 153
  let month := if monthFromMarch < 10 then monthFromMarch + 3 else monthFromMarch - 9
  ⟨cycle * 400 + yearInCycle + (if month ≤ 2 then 1 else 0), month,
    inYear - (153 * monthFromMarch + 2) / 5 + 1⟩

example : [0, 59, 10957, 11016, 11017, 20088].map Date.ofDays =
    [⟨1970, 1, 1⟩, ⟨1970, 3, 1⟩, ⟨2000, 1, 1⟩, ⟨2000, 2, 29⟩, ⟨2000, 3, 1⟩, ⟨2024, 12, 31⟩] := by
  decide

/-- The moment of universal time that lies `seconds` and `microsecond` after the beginning of 1970. -/
def Moment.ofSeconds (seconds microsecond : Nat) : Moment :=
  let inDay := seconds % 86400
  ⟨Date.ofDays (seconds / 86400), inDay / 3600, inDay / 60 % 60, inDay % 60, microsecond, none⟩

/-- A length of time as whole days and the seconds left over, which are never negative. -/
def durationText (seconds : Int) : String :=
  let days := seconds.fdiv 86400
  let rest := seconds.fmod 86400
  let parts := (if days == 0 then [] else [s!"days={days}"]) ++
    (if rest == 0 then [] else [s!"seconds={rest}"])
  "datetime.timedelta(" ++ (if parts.isEmpty then "0" else ", ".intercalate parts) ++ ")"

/-- The words for a fault. -/
def CalendarFault.message : CalendarFault → String
  | .year n => s!"year {n} is out of range"
  | .month => "month must be in 1..12"
  | .day => "day is out of range for month"
  | .hour => "hour must be in 0..23"
  | .minute => "minute must be in 0..59"
  | .second => "second must be in 0..59"
  | .offset negative seconds =>
    "offset must be a timedelta strictly between -timedelta(hours=24) and " ++
      "timedelta(hours=24), not " ++ durationText (if negative then -seconds else seconds) ++ "."

/-- A number padded with zeros on the left. -/
def padded (width n : Nat) : String :=
  let ds := Nat.toDigits 10 n
  String.ofList (List.replicate (width - ds.length) '0' ++ ds)

/-- A date as year, month and day. -/
def Date.text (d : Date) : String :=
  s!"{padded 4 d.year}-{padded 2 d.month}-{padded 2 d.day}"

/-- An offset as sign, hours and minutes, with seconds where there are any. -/
def offsetText (offset : Int) : String :=
  let n := offset.natAbs
  let sign := if offset < 0 then "-" else "+"
  let tail := if n % 60 == 0 then "" else ":" ++ padded 2 (n % 60)
  s!"{sign}{padded 2 (n / 3600)}:{padded 2 (n / 60 % 60)}{tail}"

/-- A moment as date and time of day with `separator` between them. -/
def Moment.text (m : Moment) (separator : String) : String :=
  let fraction := if m.microsecond == 0 then "" else "." ++ padded 6 m.microsecond
  let zone := match m.offset with
    | none => ""
    | some o => offsetText o
  s!"{m.date.text}{separator}{padded 2 m.hour}:{padded 2 m.minute}:{padded 2 m.second}" ++
    fraction ++ zone

end PageComposer
