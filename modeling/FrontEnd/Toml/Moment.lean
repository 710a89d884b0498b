/-!
# Dates and times

A moment of a document is a date, a time of day, or both; the last may have an offset from universal
time. Moments are written in two ways: as a text, and as the expression that makes the moment.
-/

set_option autoImplicit false

namespace FrontEnd.Toml

/-- A day of the calendar. -/
structure Day where
  year : Nat
  month : Nat
  day : Nat
  deriving DecidableEq, Repr

/-- A time of day, down to the millionth of a second. -/
structure TimeOfDay where
  hour : Nat
  minute : Nat
  second : Nat
  millionth : Nat
  deriving DecidableEq, Repr

/-- A date or a time; the offset is counted in minutes. -/
inductive Moment where
  | date (day : Day)
  | time (time : TimeOfDay)
  | dateTime (day : Day) (time : TimeOfDay) (offset : Option Int)
  deriving DecidableEq, Repr

/-! ## The calendar -/

/-- The days of a month. -/
def monthLength (year month : Nat) : Nat :=
  if month = 2 then
    if year % 4 = 0 ∧ (year % 100 ≠ 0 ∨ year % 400 = 0) then 29 else 28
  else if month = 4 ∨ month = 6 ∨ month = 9 ∨ month = 11 then 30
  else 31

/-- Whether a day exists, its month and its day of the month being within their widest bounds. -/
def Day.isReal (day : Day) : Bool :=
  day.year != 0 && decide (day.day ≤ monthLength day.year day.month)

/-! ## Texts -/

/-- A number with at least a count of digits. -/
def padded (width n : Nat) : String :=
  let digits := Nat.toDigits 10 n
  String.ofList (List.replicate (width - digits.length) '0' ++ digits)

def Day.text (day : Day) : String :=
  padded 4 day.year ++ "-" ++ padded 2 day.month ++ "-" ++ padded 2 day.day

/-- The text of a time; millionths are left out where there are none. -/
def TimeOfDay.text (time : TimeOfDay) : String :=
  let whole := padded 2 time.hour ++ ":" ++ padded 2 time.minute ++ ":" ++ padded 2 time.second
  if time.millionth = 0 then whole else whole ++ "." ++ padded 6 time.millionth

/-- The text of an offset: its sign, hours and minutes. -/
def offsetText (offset : Int) : String :=
  let sign := if offset < 0 then "-" else "+"
  sign ++ padded 2 (offset.natAbs / 60) ++ ":" ++ padded 2 (offset.natAbs % 60)

/-- The text of a moment. -/
def Moment.text : Moment → String
  | .date day => day.text
  | .time clock => clock.text
  | .dateTime day clock offset =>
      day.text ++ " " ++ clock.text ++ (offset.map offsetText).getD ""

/-! ## Expressions -/

/-- The parts of a time; those at the end that are zero are left out, except hour and minute. -/
def TimeOfDay.parts (time : TimeOfDay) : List Nat :=
  if time.millionth != 0 then [time.hour, time.minute, time.second, time.millionth]
  else if time.second != 0 then [time.hour, time.minute, time.second]
  else [time.hour, time.minute]

/-- The expression of an offset. A negative one is a day back and some seconds forward. -/
def offsetExpression (offset : Int) : String :=
  if offset = 0 then "datetime.timezone.utc"
  else
    let delta :=
      if offset < 0 then "days=-1, seconds=" ++ toString (86400 + 60 * offset)
      else "seconds=" ++ toString (60 * offset)
    "datetime.timezone(datetime.timedelta(" ++ delta ++ "))"

/-- The name of a moment's type. -/
def Moment.typeName : Moment → String
  | .date _ => "datetime.date"
  | .time _ => "datetime.time"
  | .dateTime _ _ _ => "datetime.datetime"

/-- The arguments of the expression that makes a moment. -/
def Moment.arguments : Moment → List String
  | .date day => [day.year, day.month, day.day].map toString
  | .time clock => clock.parts.map toString
  | .dateTime day clock offset =>
      ([day.year, day.month, day.day] ++ clock.parts).map toString ++
        offset.toList.map fun minutes => "tzinfo=" ++ offsetExpression minutes

/-- The expression that makes a moment. -/
def Moment.expression (moment : Moment) : String :=
  moment.typeName ++ "(" ++ ", ".intercalate moment.arguments ++ ")"

end FrontEnd.Toml
