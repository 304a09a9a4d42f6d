import Scaffold.Value.Literal

/-!
# Moments

Days and times of day in the calendar that is in use, up to the last second of the year 9999,
and the stamps that names of files are made with.
-/

namespace Scaffold

/-- A day of the calendar. -/
structure Day where
  year : Nat
  month : Nat
  day : Nat
  deriving DecidableEq

/-- A second of a day. -/
structure Moment where
  date : Day
  hour : Nat
  minute : Nat
  second : Nat
  deriving DecidableEq

namespace Day

/-- Every fourth year is a leap year, of the full centuries every fourth one. -/
def isLeap (year : Nat) : Bool := year % 4 == 0 && (year % 100 != 0 || year % 400 == 0)

/-- The number of days of a month. -/
def length (year month : Nat) : Nat :=
  match month with
  | 2 => if isLeap year then 29 else 28
  | 4 | 6 | 9 | 11 => 30
  | _ => 31

/-- The day after. -/
def next (d : Day) : Day :=
  if d.day < length d.year d.month then { d with day := d.day + 1 }
  else if d.month < 12 then ⟨d.year, d.month + 1, 1⟩
  else ⟨d.year + 1, 1, 1⟩

/-- The day `n` days later. -/
def after : Nat → Day → Day
  | 0, d => d
  | n + 1, d => after n d.next

end Day

namespace Moment

/-- The seconds since midnight. -/
def secondOfDay (m : Moment) : Nat := (m.hour * 60 + m.minute) * 60 + m.second

/-- The moment `n` seconds later, unless the calendar has ended by then. -/
def plus? (m : Moment) (n : Nat) : Option Moment :=
  let total := m.secondOfDay + n
  let date := m.date.after (total / 86400)
  let second := total % 86400
  if 9999 < date.year then none
  else some ⟨date, second / 3600, second / 60 % 60, second % 60⟩

open Value in
/-- The stamp of a migration, such as `2024_05_01_123000`. -/
def migrationStamp (m : Moment) : String :=
  s!"{m.date.year}_{twoDigits m.date.month}_{twoDigits m.date.day}_" ++
    s!"{twoDigits m.hour}{twoDigits m.minute}{twoDigits m.second}"

open Value in
/-- The stamp of a backup, such as `2024-05-01_12-30-00`. -/
def backupStamp (m : Moment) : String :=
  s!"{m.date.year}-{twoDigits m.date.month}-{twoDigits m.date.day}_" ++
    s!"{twoDigits m.hour}-{twoDigits m.minute}-{twoDigits m.second}"

open Value in
/-- The time of day, such as `12:30:00`. -/
def timeOfDay (m : Moment) : String :=
  s!"{twoDigits m.hour}:{twoDigits m.minute}:{twoDigits m.second}"

end Moment

end Scaffold
