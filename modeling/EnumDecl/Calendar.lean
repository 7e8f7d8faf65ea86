import EnumDecl.Decimal

/-!
# Calendar dates and times

Dates of the proleptic Gregorian calendar from year 1 to 9999, and times of day to the microsecond
with an optional offset from universal time. Two times with offsets are equal when they are the
same instant; a time with an offset never equals one without.
-/

namespace EnumDecl.Calendar

/-- A day. -/
structure Date where
  year : Nat
  month : Nat
  day : Nat
  deriving DecidableEq

/-- A day and a time on it; the offset is in seconds. -/
structure DateTime where
  date : Date
  hour : Nat
  minute : Nat
  second : Nat
  microsecond : Nat
  offset : Option Int
  deriving DecidableEq

/-- Why there is no such date or time. -/
inductive Fault
  | year (n : Nat)
  | month
  | day
  | hour
  | minute
  | second
  | /-- The offset reaches a whole day. -/
    offset (seconds : Int)
  deriving DecidableEq

/-- Tells whether a year has 366 days. -/
def isLeapYear (y : Nat) : Bool := y % 4 == 0 && (y % 100 != 0 || y % 400 == 0)

/-- How many days a month has. -/
def daysInMonth (y m : Nat) : Nat :=
  if m = 2 then (if isLeapYear y then 29 else 28)
  else if m = 4 || m = 6 || m = 9 || m = 11 then 30
  else 31

/-- The day of the given numbers, if there is one. -/
def Date.ofParts (y m d : Nat) : Except Fault Date :=
  if y < 1 || 9999 < y then .error (.year y)
  else if m < 1 || 12 < m then .error .month
  else if d < 1 || daysInMonth y m < d then .error .day
  else .ok ⟨y, m, d⟩

/-- The time of the given numbers, if there is one. -/
def DateTime.ofParts (y m d hour minute second microsecond : Nat) (offset : Option Int) :
    Except Fault DateTime := do
  if let some o := offset then
    if 86400 ≤ o.natAbs then throw (.offset o)
  let date ← Date.ofParts y m d
  if 23 < hour then throw .hour
  if 59 < minute then throw .minute
  if 59 < second then throw .second
  pure ⟨date, hour, minute, second, microsecond, offset⟩

/-- Days since the first day of year 1. -/
def Date.dayNumber (t : Date) : Nat :=
  let y := t.year - 1
  let before := (List.range (t.month - 1)).map fun k => daysInMonth t.year (k + 1)
  y * 365 + y / 4 - y / 100 + y / 400 + before.foldl (· + ·) 0 + (t.day - 1)

/-- Microseconds since the start of year 1, by the clock of the offset. -/
def DateTime.microseconds (t : DateTime) : Int :=
  (((t.date.dayNumber * 24 + t.hour) * 60 + t.minute) * 60 + t.second) * 1000000 + t.microsecond

/-- Equality of times. -/
def DateTime.eqv (a b : DateTime) : Bool :=
  match a.offset, b.offset with
  | none, none => a == b
  | some o, some p => a.microseconds - o * 1000000 == b.microseconds - p * 1000000
  | _, _ => false

/-! ## Text -/

/-- Year, month and day with dashes. -/
def Date.text (t : Date) : String :=
  Decimal.padded 4 t.year ++ "-" ++ Decimal.padded 2 t.month ++ "-" ++ Decimal.padded 2 t.day

/-- An offset as hours and minutes, with seconds where there are any. -/
def offsetText (o : Int) : String :=
  let n := o.natAbs
  let seconds := n % 60
  (if o < 0 then "-" else "+") ++ Decimal.padded 2 (n / 3600) ++ ":"
    ++ Decimal.padded 2 (n / 60 % 60) ++
    (if seconds = 0 then "" else ":" ++ Decimal.padded 2 seconds)

/-- Date and time with a space between them. -/
def DateTime.text (t : DateTime) : String :=
  t.date.text ++ " " ++ Decimal.padded 2 t.hour ++ ":" ++ Decimal.padded 2 t.minute ++ ":" ++
    Decimal.padded 2 t.second ++
    (if t.microsecond = 0 then "" else "." ++ Decimal.padded 6 t.microsecond) ++
    (match t.offset with | none => "" | some o => offsetText o)

/-- The fields of a date in the order in which a constructor takes them. -/
def Date.fields (t : Date) : List Nat := [t.year, t.month, t.day]

/-- The fields of a time; seconds and microseconds are left out from the end while they are
zero. -/
def DateTime.fields (t : DateTime) : List Nat :=
  t.date.fields ++ [t.hour, t.minute] ++
    (if t.microsecond ≠ 0 then [t.second, t.microsecond]
    else if t.second ≠ 0 then [t.second] else [])

/-- Numbers separated by commas. -/
def commaSeparated (ns : List Nat) : String := String.intercalate ", " (ns.map Decimal.ofNat)

/-- A span of seconds in whole days and the seconds left over, days being negative for the past. -/
def durationText (seconds : Int) : String :=
  let days := seconds / 86400
  let rest := seconds % 86400
  let parts := (if days = 0 then [] else ["days=" ++ Decimal.ofInt days]) ++
    (if rest = 0 then [] else ["seconds=" ++ Decimal.ofInt rest])
  "datetime.timedelta(" ++ (if parts.isEmpty then "0" else String.intercalate ", " parts) ++ ")"

/-- The constructor form of a date. -/
def Date.constructorText (t : Date) : String :=
  "datetime.date(" ++ commaSeparated t.fields ++ ")"

/-- The constructor form of an offset. -/
def zoneText (o : Int) : String :=
  if o = 0 then "datetime.timezone.utc" else "datetime.timezone(" ++ durationText o ++ ")"

/-- The constructor form of a time. -/
def DateTime.constructorText (t : DateTime) : String :=
  "datetime.datetime(" ++ commaSeparated t.fields ++
    (match t.offset with | none => "" | some o => ", tzinfo=" ++ zoneText o) ++ ")"

/-- What is said about a date or time that does not exist. -/
def Fault.message : Fault → String
  | .year n => "year " ++ Decimal.ofNat n ++ " is out of range"
  | .month => "month must be in 1..12"
  | .day => "day is out of range for month"
  | .hour => "hour must be in 0..23"
  | .minute => "minute must be in 0..59"
  | .second => "second must be in 0..59"
  | .offset o => "offset must be a timedelta strictly between -timedelta(hours=24) and " ++
      "timedelta(hours=24), not " ++ durationText o ++ "."

end EnumDecl.Calendar
