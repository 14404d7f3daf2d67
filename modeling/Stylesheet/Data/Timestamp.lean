/-!
# Points in time

Data files can hold dates, alone or with a time of day and an offset from universal time.
-/

namespace Stylesheet

/-- A time of day; `offset` is its distance from universal time in minutes, if it is known. -/
structure ClockTime where
  hour : Nat
  minute : Nat
  second : Nat
  microsecond : Nat
  offset : Option Int
  deriving DecidableEq, Repr

structure Timestamp where
  year : Nat
  month : Nat
  day : Nat
  time : Option ClockTime
  deriving DecidableEq, Repr

namespace Timestamp

def padded (width n : Nat) : String :=
  String.ofList ((toString n).toList.leftpad width '0')

/-- An offset as `+hh:mm`. -/
def shownOffset (offset : Int) : String :=
  (if offset < 0 then "-" else "+") ++ padded 2 (offset.natAbs / 60) ++ ":" ++
    padded 2 (offset.natAbs % 60)

/-- A time of day as `hh:mm:ss`, with the fraction of a second and the offset if there are any. -/
def shownTime (t : ClockTime) : String :=
  padded 2 t.hour ++ ":" ++ padded 2 t.minute ++ ":" ++ padded 2 t.second ++
    (if t.microsecond = 0 then "" else "." ++ padded 6 t.microsecond) ++
    (t.offset.map shownOffset).getD ""

/-- A timestamp as `yyyy-mm-dd`, with the time after a space if there is one. -/
def shown (t : Timestamp) : String :=
  padded 4 t.year ++ "-" ++ padded 2 t.month ++ "-" ++ padded 2 t.day ++
    (t.time.map fun time => " " ++ shownTime time).getD ""

def constructorOffset (offset : Int) : String :=
  if offset = 0 then "datetime.timezone.utc"
  else
    let seconds := (offset * 60) % 86400
    "datetime.timezone(datetime.timedelta(" ++ (if offset < 0 then "days=-1, " else "") ++
      "seconds=" ++ toString seconds ++ "))"

/-- A timestamp as the call that constructs it, the form in which messages quote it. -/
def quoted (t : Timestamp) : String :=
  match t.time with
  | none =>
    "datetime.date(" ++ String.intercalate ", " ([t.year, t.month, t.day].map toString) ++ ")"
  | some time =>
    let parts := [t.year, t.month, t.day, time.hour, time.minute] ++
      (if time.microsecond ≠ 0 then [time.second, time.microsecond]
        else if time.second ≠ 0 then [time.second] else [])
    "datetime.datetime(" ++ String.intercalate ", " (parts.map toString) ++
      (time.offset.map fun offset => ", tzinfo=" ++ constructorOffset offset).getD "" ++ ")"

/-! ## Order -/

def isLeapYear (year : Nat) : Bool :=
  year % 4 == 0 && (year % 100 != 0 || year % 400 == 0)

def daysIn (year month : Nat) : Nat :=
  if month = 2 then (if isLeapYear year then 29 else 28)
  else if month = 4 ∨ month = 6 ∨ month = 9 ∨ month = 11 then 30
  else 31

/-- The number of the day in a calendar without beginning or end of years. -/
def dayNumber (t : Timestamp) : Nat :=
  t.year * 365 + (t.year - 1) / 4 - (t.year - 1) / 100 + (t.year - 1) / 400 +
    (List.range' 1 (t.month - 1)).foldl (fun days month => days + daysIn t.year month) 0 + t.day

/-- The microseconds up to a time of a day, in universal time if the offset is known. -/
def instant (t : Timestamp) (time : ClockTime) : Int :=
  ((((t.dayNumber * 24 + time.hour) * 60 + time.minute : Nat) - time.offset.getD 0) * 60 +
    time.second) * 1000000 + time.microsecond

/-- Where a timestamp stands among those that it can be compared with: dates, times without and
times with an offset. -/
def position (t : Timestamp) : Nat × Int :=
  match t.time with
  | none => (0, t.dayNumber)
  | some time => (if time.offset.isSome then 2 else 1, t.instant time)

def precedes? (a b : Timestamp) : Option Bool :=
  if a.position.1 = b.position.1 then some (decide (a.position.2 ≤ b.position.2)) else none

end Timestamp

end Stylesheet
