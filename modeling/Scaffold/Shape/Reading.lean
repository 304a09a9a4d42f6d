import Scaffold.Shape.Problem
import Scaffold.Text.Digit

/-!
# Readings of raw values

How texts, truth values, integers, lists and mappings are read from raw values. Every reading
goes on after a problem, so that all of them are found.
-/

namespace Scaffold.Shape

open Text

def text : Value → Reading String
  | .text s => .ok s
  | _ => miss .notText

/-- Spellings of false and of true. -/
def falseTexts : List String := ["0", "off", "f", "false", "n", "no"]

def trueTexts : List String := ["1", "on", "t", "true", "y", "yes"]

/-- The numbers that machine words of 64 bits hold. Larger ones are not looked at as truth
values, and fractions that large are not taken for integers. -/
def fitsWord (i : Int) : Bool := -(Int.pow 2 63) ≤ i && i < Int.pow 2 63

/-- The integer that a number without fraction stands for, if it lies between the bounds. -/
def wordOf? (x : Binary64) : Option Int := x.toInt?.filter fun i ↦ -(Int.pow 2 63) < i && i < Int.pow 2 63

/-- The truth values 0 and 1. -/
def boolOfInt (i : Int) : Reading Bool :=
  if i == 0 then .ok false else if i == 1 then .ok true else miss .unreadableBool

/-- Truth values, the numbers 0 and 1, and their usual spellings in any letter case. -/
def bool : Value → Reading Bool
  | .bool b => .ok b
  | .int i => if fitsWord i then boolOfInt i else miss .notBool
  | .float x =>
    match wordOf? x with
    | some i => boolOfInt i
    | none => miss .notBool
  | .text s =>
    if falseTexts.contains (lower s) then .ok false
    else if trueTexts.contains (lower s) then .ok true
    else miss .unreadableBool
  | _ => miss .notBool

/-- A text without a final point and zeros. -/
def withoutZeroFraction (s : List Char) : List Char :=
  match s.dropWhile (· != '.') with
  | _ :: zero :: zeros =>
    if (zero :: zeros).all (· == '0') then s.takeWhile (· != '.') else s
  | _ => s

/-- Reads an integer without sign and with an optional fraction of zeros. -/
def naturalText (s : List Char) : Reading Nat :=
  let digits := withoutZeroFraction s
  match digitRun? plainDigit? digits 0 with
  | none => miss .unreadableInt
  | some n =>
    let length := ((digits.filter (· != '_')).dropWhile (· == '0')).length
    if maxDigits < length then miss .oversizeInt else .ok n

/-- Reads an integer with an optional sign. -/
def intText (s : String) : Reading Int :=
  match trim isSpacing s.toList with
  | '-' :: rest => (naturalText rest).map fun n ↦ -(n : Int)
  | '+' :: rest => (naturalText rest).map Int.ofNat
  | rest => (naturalText rest).map Int.ofNat

def int : Value → Reading Int
  | .bool b => .ok (if b then 1 else 0)
  | .int i => .ok i
  | .float x =>
    match wordOf? x with
    | some i => .ok i
    | none =>
      if !x.isFinite then miss .notFinite
      else if x.toInt?.isSome then miss .oversizeInt
      else miss .fractionalInt
  | .text s => intText s
  | _ => miss .notInt

/-- Reads items that start at position `i` of a list. -/
def itemsFrom {α : Type} (item : Value → Reading α) : Nat → List Value → Reading (List α)
  | _, [] => .ok []
  | i, v :: rest => both List.cons (within (toString i) (item v)) (itemsFrom item (i + 1) rest)

def listOf {α : Type} (item : Value → Reading α) : Value → Reading (List α)
  | .list vs => itemsFrom item 0 vs
  | _ => miss .notList

/-- A key as part of a location. -/
def keyPart : Value → String
  | .text s => s
  | .bool b => if b then "1" else "0"
  | v => v.literal

/-- Reads the entries of a mapping with text keys. -/
def entriesOf {α : Type} (item : Value → Reading α) :
    List (Value × Value) → Reading (List (String × α))
  | [] => .ok []
  | (k, v) :: rest =>
    let key := within (keyPart k) (within "[key]" (text k))
    let value := within (keyPart k) (item v)
    both List.cons (both Prod.mk key value) (entriesOf item rest)

def mapOf {α : Type} (item : Value → Reading α) : Value → Reading (List (String × α))
  | .map entries => entriesOf item entries
  | _ => miss .notMapping

/-- A text or a list of texts. -/
def textOrTexts {α : Type} (one : String → α) (many : List String → α) : Value → Reading α
  | .text s => .ok (one s)
  | v =>
    match listOf text v with
    | .ok ts => .ok (many ts)
    | .error ps => .error (⟨["str"], .notText⟩ :: ps.map (·.within "list[str]"))

/-- The entries under keys that are not expected. -/
def unexpected (known : List String) (entries : List (Value × Value)) : List Problem :=
  entries.filterMap fun (k, _) ↦
    match k with
    | .text s => if known.contains s then none else some ⟨[s], .unexpected⟩
    | k => some ⟨[keyPart k], .keyNotText⟩

/-- Joins a reading with further problems. -/
def also {α : Type} (ps : List Problem) (r : Reading α) : Reading α :=
  if ps.isEmpty then r else .error (problems r ++ ps)

end Scaffold.Shape
