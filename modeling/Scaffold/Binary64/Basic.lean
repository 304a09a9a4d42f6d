/-!
# Binary floating-point numbers

Double precision numbers as exact dyadic rationals `mantissa · 2 ^ exponent`, in the form in
which equal numbers are equal values (the two zeros apart). Rounding is exact integer
arithmetic, to nearest and at a tie to the even mantissa.
-/

namespace Scaffold

/-- A double precision number. Rounding produces mantissas below `2 ^ 53` and exponents
from -1074 to 971, with the exponent as small as possible. -/
inductive Binary64 where
  | nan
  | infinite (negative : Bool)
  | finite (negative : Bool) (mantissa : Nat) (exponent : Int)
  deriving DecidableEq

namespace Binary64

/-- The quotient rounded to nearest, a half to the even neighbour. -/
def roundDiv (num den : Nat) : Nat :=
  let q := num / den
  let twice := 2 * (num % den)
  if twice < den then q else if den < twice then q + 1 else if q % 2 == 0 then q else q + 1

theorem roundDiv_mul (q : Nat) {den : Nat} (h : 0 < den) : roundDiv (q * den) den = q := by
  simp [roundDiv, Nat.mul_div_cancel q h, h]

/-- `num / den` in units of `2 ^ exponent`, as a fraction. -/
def inUnits (num den : Nat) (exponent : Int) : Nat × Nat :=
  if exponent < 0 then (num * Nat.pow 2 (-exponent).toNat, den)
  else (num, den * Nat.pow 2 exponent.toNat)

/-- The number nearest to `num / den`. -/
def ofRatio (negative : Bool) (num den : Nat) : Binary64 :=
  if num == 0 then .finite negative 0 (-1074)
  else
    let guess : Int := (Nat.log2 num : Int) - Nat.log2 den - 52
    let (n, d) := inUnits num den guess
    let unit := max (if n < Nat.pow 2 52 * d then guess - 1 else guess) (-1074)
    let (n, d) := inUnits num den unit
    let m := roundDiv n d
    let (m, unit) := if m == Nat.pow 2 53 then (Nat.pow 2 52, unit + 1) else (m, unit)
    if 971 < unit then .infinite negative else .finite negative m unit

/-- The number nearest to `digits · 10 ^ exponent`. Exponents beyond the range of the format
are cut off first: a number with more than 310 integer places is infinite, one that starts
after 400 zeros is zero. -/
def ofDecimal (negative : Bool) (digits : Nat) (exponent : Int) : Binary64 :=
  let places : Int := (Nat.toDigits 10 digits).length
  if digits == 0 || places + exponent < -400 then .finite negative 0 (-1074)
  else if 310 < places + exponent then .infinite negative
  else if exponent < 0 then ofRatio negative digits (Nat.pow 10 (-exponent).toNat)
  else ofRatio negative (digits * Nat.pow 10 exponent.toNat) 1

def ofInt (i : Int) : Binary64 := ofRatio (i < 0) i.natAbs 1

/-- The magnitude of a finite number as a fraction. -/
def ratio (mantissa : Nat) (exponent : Int) : Nat × Nat :=
  if exponent < 0 then (mantissa, Nat.pow 2 (-exponent).toNat)
  else (mantissa * Nat.pow 2 exponent.toNat, 1)

/-- The sum of two numbers that are not negative, rounded. -/
def add (x y : Binary64) : Binary64 :=
  match x, y with
  | .finite _ m e, .finite _ n f =>
    let (p, d) := ratio m e
    let (q, c) := ratio n f
    ofRatio false (p * c + q * d) (d * c)
  | .nan, _ | _, .nan => .nan
  | _, _ => .infinite false

/-- The product of a number that is not negative with a positive one, rounded. -/
def scale (x : Binary64) (n : Nat) : Binary64 :=
  match x with
  | .finite _ m e =>
    let (p, d) := ratio m e
    ofRatio false (p * n) d
  | x => x

/-- The integer that the number is, if it is one. -/
def toInt? : Binary64 → Option Int
  | .nan => none
  | .infinite _ => none
  | .finite negative mantissa exponent =>
    let (num, den) := ratio mantissa exponent
    if num % den == 0 then
      let n : Int := (num / den : Nat)
      some (if negative then -n else n)
    else none

def isFinite : Binary64 → Bool
  | .finite .. => true
  | _ => false

end Binary64

end Scaffold
