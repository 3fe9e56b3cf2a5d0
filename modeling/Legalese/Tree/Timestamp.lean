import Legalese.Number.Decimal

/-!
# Timestamps

A timestamp names a day of the calendar, or a moment of one, which may give its offset
from universal time.  Stored data may hold timestamps by their numbers; only those that
exist become timestamps, and `TimestampFault` says which number is at fault.
-/

namespace Legalese

structure Date where
  year : Nat
  month : Nat
  day : Nat
  deriving DecidableEq

structure TimeOfDay where
  hour : Nat
  minute : Nat
  second : Nat
  microsecond : Nat
  deriving DecidableEq

inductive Timestamp
  | day (date : Date)
  /-- The offset counts minutes ahead of universal time. -/
  | moment (date : Date) (time : TimeOfDay) (offset : Option Int)
  deriving DecidableEq

/-! ## Length of time -/

def minutesOfDay : Nat := 1440

/-- A number of minutes as messages show it: whole days, which may be negative, and the
seconds after them. -/
def shownMinutes (minutes : Int) : String :=
  let days := minutes / minutesOfDay
  let seconds := minutes % minutesOfDay * 60
  let parts := (if days = 0 then [] else ["days=" ++ toString days])
    ++ (if seconds = 0 then [] else ["seconds=" ++ toString seconds])
  "datetime.timedelta(" ++ (if parts = [] then "0" else ", ".intercalate parts) ++ ")"

/-! ## Validity -/

/-- Which number of a timestamp does not exist. -/
inductive TimestampFault
  | offset (minutes : Int)
  | year (n : Nat)
  | month
  | day
  | hour
  | minute
  | second
  deriving DecidableEq

def TimestampFault.message : TimestampFault → String
  | offset minutes =>
    "offset must be a timedelta strictly between -timedelta(hours=24) and timedelta(hours=24)"
      ++ ", not " ++ shownMinutes minutes ++ "."
  | year n => "year " ++ toString n ++ " is out of range"
  | month => "month must be in 1..12"
  | day => "day is out of range for month"
  | hour => "hour must be in 0..23"
  | minute => "minute must be in 0..59"
  | second => "second must be in 0..59"

def isLeapYear (year : Nat) : Bool := year % 4 = 0 && (year % 100 ≠ 0 || year % 400 = 0)

def daysOfMonth (year month : Nat) : Nat :=
  if month = 2 then (if isLeapYear year then 29 else 28)
  else if [4, 6, 9, 11].contains month then 30
  else 31

def Date.fault? (d : Date) : Option TimestampFault :=
  if d.year = 0 then some (.year d.year)
  else if d.month < 1 ∨ 12 < d.month then some .month
  else if d.day < 1 ∨ daysOfMonth d.year d.month < d.day then some .day
  else none

def TimeOfDay.fault? (t : TimeOfDay) : Option TimestampFault :=
  if 23 < t.hour then some .hour
  else if 59 < t.minute then some .minute
  else if 59 < t.second then some .second
  else none

/-- An offset is less than a day. -/
def offsetFault? (minutes : Int) : Option TimestampFault :=
  if minutesOfDay ≤ minutes.natAbs then some (.offset minutes) else none

namespace Timestamp

/-- What is wrong with a timestamp; its offset is looked at first. -/
def fault? : Timestamp → Option TimestampFault
  | day d => d.fault?
  | moment d t offset => ((offset.bind offsetFault?).or d.fault?).or t.fault?

/-! ## Text -/

def writeDate (d : Date) : String :=
  Decimal.padded 4 d.year ++ "-" ++ Decimal.padded 2 d.month ++ "-" ++ Decimal.padded 2 d.day

def writeTime (t : TimeOfDay) : String :=
  Decimal.padded 2 t.hour ++ ":" ++ Decimal.padded 2 t.minute ++ ":" ++ Decimal.padded 2 t.second
    ++ (if t.microsecond = 0 then "" else "." ++ Decimal.padded 6 t.microsecond)

def writeOffset (minutes : Int) : String :=
  (if minutes < 0 then "-" else "+") ++ Decimal.padded 2 (minutes.natAbs / 60) ++ ":"
    ++ Decimal.padded 2 (minutes.natAbs % 60)

/-- A timestamp on its own, from its greatest unit to its least. -/
def write : Timestamp → String
  | day d => writeDate d
  | moment d t offset =>
    writeDate d ++ " " ++ writeTime t ++ (match offset with
      | none => ""
      | some minutes => writeOffset minutes)

/-- The word for the type of a timestamp in messages. -/
def typeWord : Timestamp → String
  | day _ => "datetime.date"
  | moment _ _ _ => "datetime.datetime"

def shownZone (minutes : Int) : String :=
  if minutes = 0 then "datetime.timezone.utc"
  else "datetime.timezone(" ++ shownMinutes minutes ++ ")"

/-- The numbers of a time; seconds and what is below them only if they are not zero. -/
def shownTime (t : TimeOfDay) : List String :=
  [toString t.hour, toString t.minute]
    ++ (if t.second = 0 ∧ t.microsecond = 0 then [] else [toString t.second])
    ++ (if t.microsecond = 0 then [] else [toString t.microsecond])

/-- A timestamp inside another value, by its type and its numbers. -/
def shown (t : Timestamp) : String :=
  let date (d : Date) := [toString d.year, toString d.month, toString d.day]
  let parts := match t with
    | day d => date d
    | moment d t offset =>
      date d ++ shownTime t ++ (match offset with
        | none => []
        | some minutes => ["tzinfo=" ++ shownZone minutes])
  t.typeWord ++ "(" ++ ", ".intercalate parts ++ ")"

end Timestamp
end Legalese
