import Scaffold.Calendar
import Scaffold.Value.Basic
import Scaffold.Yaml.Scalar.Number

/-!
# Days and times in YAML texts

A day is a year of four digits, a month and a day; a time of day, with millionths and a distance
from universal time, may follow it. `moment?` recognises the form, `checkMoment` asks whether
there is such a day and time.
-/

namespace Scaffold.Yaml

/-- The number that all characters of a list write in digits, if there are between `least` and
`most` of them. -/
def figures? (least most : Nat) (s : List Char) : Option Nat :=
  if least ≤ s.length && s.length ≤ most && s.all Char.isDigit then some (digitsIn 10 s) else none

/-- Reads the distance from universal time at the end of a time, in minutes. -/
def ahead? (s : List Char) : Option (Option Int) :=
  match s.dropWhile isGap with
  | [] => if s.isEmpty then some none else none
  | ['Z'] => some (some 0)
  | sign :: rest =>
    if sign != '-' && sign != '+' then none
    else
      let turn (n : Nat) : Int := if sign == '-' then -(n : Int) else n
      match rest.splitOn ':' with
      | [hours] => (figures? 1 2 hours).map fun h ↦ some (turn (h * 60))
      | [hours, minutes] => do
        return some (turn ((← figures? 1 2 hours) * 60 + (← figures? 2 2 minutes)))
      | _ => none

/-- The time of day after a day. -/
def clock? (year month day : Nat) (s : List Char) : Option Stamp :=
  match s.splitOn ':' with
  | hour :: minute :: rest :: more => do
    let rest := [':'].intercalate (rest :: more)
    let second := rest.takeWhile Char.isDigit
    let (places, zone) :=
      match rest.drop second.length with
      | '.' :: more => (more.takeWhile Char.isDigit, more.dropWhile Char.isDigit)
      | more => ([], more)
    let micro := digitsIn 10 ((places ++ List.replicate 6 '0').take 6)
    return .time year month day (← figures? 1 2 hour) (← figures? 2 2 minute) (← figures? 2 2 second)
      micro (← ahead? zone)
  | _ => none

/-- Reads a day, or a day with a time. A month and a day on its own have at least `least`
digits. -/
def moment? (least : Nat) (s : List Char) : Option Stamp := do
  let year ← figures? 4 4 (s.take 4)
  match (s.drop 4).splitOn '-' with
  | [] :: month :: rest :: more =>
    let rest := ['-'].intercalate (rest :: more)
    let day := rest.takeWhile Char.isDigit
    match rest.drop day.length with
    | [] => return .day year (← figures? least 2 month) (← figures? least 2 day)
    | c :: clock =>
      let m ← figures? 1 2 month
      let d ← figures? 1 2 day
      if c == 'T' || c == 't' then clock? year m d clock
      else if isGap c then clock? year m d (clock.dropWhile isGap)
      else none
  | _ => none

/-- Checks that a day is in the calendar. -/
def checkDay (year month day : Nat) : Except ScalarFault Unit :=
  if year == 0 then .error (.year year)
  else if month < 1 || 12 < month then .error .month
  else if day < 1 || Day.length year month < day then .error .day
  else .ok ()

/-- Checks that there is such a day and time. -/
def checkMoment (t : Stamp) : Except ScalarFault Stamp := do
  match t with
  | .day year month day => checkDay year month day
  | .time year month day hour minute second _ ahead =>
    if let some minutes := ahead then
      if 24 * 60 ≤ minutes.natAbs then throw (.offset (minutes * 60))
    checkDay year month day
    if 23 < hour then throw .hour
    if 59 < minute then throw .minute
    if 59 < second then throw .second
  return t

end Scaffold.Yaml
