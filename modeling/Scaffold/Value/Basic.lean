import Scaffold.Binary64.Decimal
import Scaffold.Text.Printable
import Scaffold.Text.Pieces

/-!
# Raw values

The values that a schema file holds before anything is known about them: scalars, lists, and
mappings whose keys are scalars and whose order is kept. A mapping is a list of entries with
pairwise different keys (`sameKey`); `ofEntries` builds one from any list of entries.
-/

namespace Scaffold

/-- A calendar day, or a day with a time, as a file may spell them. -/
inductive Stamp where
  | day (year month day : Nat)
  /-- A time may say how many minutes it is ahead of universal time. -/
  | time (year month day hour minute second micro : Nat) (ahead : Option Int)
  deriving DecidableEq

namespace Stamp

/-- The number of days before a day, counted from the first of March of the year 0. -/
def dayNumber (year month day : Nat) : Int :=
  let y : Int := if month ≤ 2 then (year : Int) - 1 else year
  let m : Int := (month + 9) % 12
  365 * y + y / 4 - y / 100 + y / 400 + (153 * m + 2) / 5 + day - 1

/-- The millionths of a second before a time in universal time, if the time says where it is. -/
def instant? : Stamp → Option Int
  | .time y m d hour minute second micro (some ahead) =>
    let minutes := (dayNumber y m d * 24 + hour) * 60 + minute - ahead
    some ((minutes * 60 + second) * 1000000 + micro)
  | _ => none

/-- Are two stamps the same? Times that say where they are agree by instant. -/
def same (s t : Stamp) : Bool :=
  match s.instant?, t.instant? with
  | some i, some j => i == j
  | _, _ => s == t

end Stamp

/-- A raw value. -/
inductive Value where
  | null
  | bool (b : Bool)
  | int (i : Int)
  | float (x : Binary64)
  | text (s : String)
  | stamp (t : Stamp)
  | list (items : List Value)
  | map (entries : List (Value × Value))

namespace Value

/-- The name of a value's type, as messages spell it. -/
def typeName : Value → String
  | .null => "NoneType"
  | .bool _ => "bool"
  | .int _ => "int"
  | .float _ => "float"
  | .text _ => "str"
  | .stamp (.day ..) => "date"
  | .stamp (.time ..) => "datetime"
  | .list _ => "list"
  | .map _ => "dict"

/-- Null, false, zero and the empty text, list and mapping are falsy. -/
def isFalsy : Value → Bool
  | .null => true
  | .bool b => !b
  | .int i => i == 0
  | .float (.finite _ m _) => m == 0
  | .float _ => false
  | .text s => s == ""
  | .stamp _ => false
  | .list items => items.isEmpty
  | .map entries => entries.isEmpty

/-- The number that a scalar counts as when keys are compared: true is one, false is zero. -/
def asInt? : Value → Option Int
  | .bool b => some (if b then 1 else 0)
  | .int i => some i
  | .float x => x.toInt?
  | _ => none

/-- Do two scalars stand for the same key? Numbers and booleans agree by value. -/
def sameKey (a b : Value) : Bool :=
  match a, b with
  | .null, .null => true
  | .text s, .text t => s == t
  | .stamp s, .stamp t => s.same t
  | .float x, .float y =>
    match x.toInt?, y.toInt? with
    | some i, some j => i == j
    | _, _ => x == y && x != .nan
  | a, b =>
    match a.asInt?, b.asInt? with
    | some i, some j => i == j
    | _, _ => false

/-- Sets the value of a key: an old key keeps its place, a new one comes last. -/
def putEntry (entries : List (Value × Value)) (key value : Value) : List (Value × Value) :=
  match entries with
  | [] => [(key, value)]
  | (k, v) :: rest =>
    if sameKey k key then (k, value) :: rest else (k, v) :: putEntry rest key value

/-- The mapping of a list of entries: a repeated key keeps its first place and its last value. -/
def ofEntries (entries : List (Value × Value)) : List (Value × Value) :=
  entries.foldl (fun acc e ↦ putEntry acc e.1 e.2) []

/-- The value of a text key. -/
def lookup? (entries : List (Value × Value)) (key : String) : Option Value :=
  (entries.find? fun e ↦ sameKey e.1 (.text key)).map (·.2)

end Value

end Scaffold
