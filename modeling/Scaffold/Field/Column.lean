import Scaffold.Field.Basic
import Scaffold.Text.Digit
import Scaffold.Text.Lines

/-!
# Migration columns

The statement of a migration that creates the column of a field. Modifiers become clauses in
the order written.
-/

namespace Scaffold.Field

open Text

/-- Attachments are stored as strings, every other type under its own name. -/
def columnType (baseType : String) : String :=
  if baseType == "image" || baseType == "file" then "string" else baseType

/-- Is this nothing, or an exponent such as `e-5`? -/
def isExponent : List Char → Bool
  | [] => true
  | c :: rest =>
    let digits :=
      match rest with
      | s :: more => if s == '+' || s == '-' then more else rest
      | [] => []
    (c == 'e' || c == 'E') && !digits.isEmpty && digits.all isDecimalDigit

/-- Is this a decimal number with an optional sign, point and exponent? -/
def isNumeral (s : List Char) : Bool :=
  let unsigned :=
    match s with
    | c :: rest => if c == '+' || c == '-' then rest else s
    | [] => []
  let whole := unsigned.takeWhile isDecimalDigit
  let rest := unsigned.dropWhile isDecimalDigit
  match rest with
  | '.' :: more =>
    let fraction := more.takeWhile isDecimalDigit
    !(whole.isEmpty && fraction.isEmpty) && isExponent (more.dropWhile isDecimalDigit)
  | _ => !whole.isEmpty && isExponent rest

/-- The clause of a folded default: the seven characters `default` go, the rest is written bare
if it is `null`, a truth value or a number, and in single quotes otherwise. -/
def defaultClause (modifier : String) : String :=
  let kept := trim isBlank (modifier.toList.drop 7)
  let value := trim isBlank (trim (· == ':') kept)
  let written := String.ofList value
  let small := lower written
  if small == "null" then "->default(null)"
  else if small == "true" || small == "false" then s!"->default({written})"
  else if isNumeral value then s!"->default({written})"
  else
    let bare := String.ofList (trim (fun c ↦ c == '\'' || c == '\"') value)
    s!"->default('{bare}')"

/-- The clause of a modifier; an unknown modifier has none. -/
def modifierClause (modifier : String) : String :=
  if startsWith modifier "default(" then "->" ++ modifier
  else if startsWith modifier "default" then defaultClause modifier
  else if modifier == "nullable" || modifier == "unique" then s!"->{modifier}()"
  else ""

/-- The statement that creates the column. -/
def column (f : Field) : String :=
  let clauses := String.join (f.modifiers.map modifierClause)
  let statement :=
    if f.isForeignId then
      let constrained :=
        match f.references with
        | some table => if table == "" then "->constrained()" else s!"->constrained('{table}')"
        | none => "->constrained()"
      s!"$table->foreignId('{f.name}'){clauses}{constrained}->cascadeOnDelete()"
    else
      let type := columnType f.baseType
      s!"$table->{type}('{f.name}'){clauses}"
  spaces 12 ++ statement ++ ";\n"

end Scaffold.Field
