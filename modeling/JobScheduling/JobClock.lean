import JobScheduling.JobConstants

/-! # UTC datetimes and the stored timestamp format

    `datetime` objects with a zero UTC offset, as field tuples: comparison is
    the tuple comparison of the standard library, subtraction goes through the
    proleptic Gregorian ordinal.  `strftime` is
    `strftime("%Y-%m-%dT%H:%M:%S.000Z")`, the only format the service stores:
    the microseconds are dropped, not rounded. -/

namespace JobClock

open JobConstants

def isLeap (year : Nat) : Bool :=
  year % 4 == 0 && (year % 100 != 0 || year % 400 == 0)

def daysInMonth (year month : Nat) : Nat :=
  match month with
  | 2 => if isLeap year then 29 else 28
  | 4 | 6 | 9 | 11 => 30
  | _ => 31

/-- An aware `datetime` in UTC; the fields carry the ranges its constructor
    enforces. -/
structure Datetime where
  year : Nat
  month : Nat
  day : Nat
  hour : Nat
  minute : Nat
  second : Nat
  microsecond : Nat
  year_range : 1 ≤ year ∧ year ≤ 9999
  month_range : 1 ≤ month ∧ month ≤ 12
  day_range : 1 ≤ day ∧ day ≤ daysInMonth year month
  time_range : hour < 24 ∧ minute < 60 ∧ second < 60
    ∧ microsecond < microsecondsPerSecond
deriving DecidableEq

/-- The field tuple two datetimes of one offset are compared by. -/
def Datetime.fields (d : Datetime) : List Nat :=
  [d.year, d.month, d.day, d.hour, d.minute, d.second, d.microsecond]

/-- `a < b`. -/
def Datetime.before (a b : Datetime) : Bool := decide (a.fields < b.fields)

/-- `a <= b`. -/
def Datetime.notAfter (a b : Datetime) : Bool := !b.before a

def daysBeforeYear (year : Nat) : Nat :=
  (year - 1) * 365 + (year - 1) / 4 - (year - 1) / 100 + (year - 1) / 400

def daysBeforeMonth (year : Nat) : Nat → Nat
  | 0 => 0
  | 1 => 0
  | m + 1 => daysBeforeMonth year m + daysInMonth year m

/-- `date.toordinal`: day 1 is January 1 of year 1. -/
def Datetime.toordinal (d : Datetime) : Nat :=
  daysBeforeYear d.year + daysBeforeMonth d.year d.month + d.day

/-- Whole seconds since midnight of ordinal 0. -/
def Datetime.seconds (d : Datetime) : Nat :=
  ((d.toordinal * 24 + d.hour) * 60 + d.minute) * 60 + d.second

/-- Microseconds since midnight of ordinal 0. -/
def Datetime.instant (d : Datetime) : Nat :=
  d.seconds * microsecondsPerSecond + d.microsecond

/-- `a - b`. -/
def Datetime.sub (a b : Datetime) : Timedelta :=
  (a.instant : Int) - (b.instant : Int)

/-! ## `strftime` -/

/-- `%m`, `%d`, `%H`, `%M`, `%S`: two digits, zero-padded. -/
def pad2 (n : Nat) : List Char :=
  [Nat.digitChar (n / 10), Nat.digitChar (n % 10)]

/-- `strftime("%Y-%m-%dT%H:%M:%S.")`. -/
def Datetime.wholeSeconds (d : Datetime) : List Char :=
  Nat.toDigits 10 d.year ++ '-' :: pad2 d.month ++ '-' :: pad2 d.day
    ++ 'T' :: pad2 d.hour ++ ':' :: pad2 d.minute ++ ':' :: pad2 d.second ++ ['.']

/-- `strftime(TIMESTAMP_FORMAT)`. -/
def Datetime.strftime (d : Datetime) : String :=
  String.ofList (d.wholeSeconds ++ "000Z".toList)

/-- A whole hour of February 2030, the nearest there is: the clock of the
    concrete runs. -/
def february (day hour : Nat) : Datetime where
  year := 2030
  month := 2
  day := max 1 (min day 28)
  hour := min hour 23
  minute := 0
  second := 0
  microsecond := 0
  year_range := by decide
  month_range := by decide
  day_range := by
    show 1 ≤ max 1 (min day 28) ∧ max 1 (min day 28) ≤ 28
    omega
  time_range := ⟨by omega, by decide, by decide, by decide⟩

example : (february 7 16).strftime = "2030-02-07T16:00:00.000Z" := by decide

end JobClock
