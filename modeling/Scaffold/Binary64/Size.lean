import Scaffold.Binary64.Decimal

/-!
# Sizes

A byte count in the largest unit that keeps it at least one, with one decimal place. The
count is a double precision number, and the place is rounded half to even on its exact value.
-/

namespace Scaffold.Binary64

/-- The units below the largest one. -/
def smallUnits : List String := ["B", "KB", "MB"]

/-- The unit of a magnitude and the power of 1024 that it divides by. -/
def unitOf (num den : Nat) : List String → Nat → String × Nat
  | [], power => ("GB", power)
  | unit :: rest, power =>
    if num < Nat.pow 1024 (power + 1) * den then (unit, power) else unitOf num den rest (power + 1)

/-- The size `n` in a unit, such as `1.5 KB`; none if `n` exceeds the range of the format. -/
def sizeLabel? (n : Int) : Option String :=
  match ofInt n with
  | .finite negative mantissa exponent =>
    let (num, den) := ratio mantissa exponent
    let (unit, power) := if negative then ("B", 0) else unitOf num den smallUnits 0
    let tenths := roundDiv (10 * num) (Nat.pow 1024 power * den)
    let sign := if negative then "-" else ""
    let whole := tenths / 10
    let place := tenths % 10
    some s!"{sign}{whole}.{place} {unit}"
  | _ => none

/-- The label of a count of bytes. -/
def sizeLabel (n : Nat) : String := (sizeLabel? n).getD ""

end Scaffold.Binary64
