import Scaffold.Name.Case
import Scaffold.Text.Pieces

/-!
# Plural and singular

English plurals by rule, with a table of irregular nouns. Only the last word of a compound
name changes: `OrderItem` becomes `OrderItems`.
-/

namespace Scaffold.Name

open Text

/-- Nouns whose plural follows no rule below, each with its plural. -/
def irregularNouns : List (String × String) :=
  [("person", "people"), ("child", "children"), ("man", "men"), ("woman", "women"),
    ("mouse", "mice"), ("tooth", "teeth"), ("foot", "feet"), ("datum", "data"),
    ("index", "indices"), ("matrix", "matrices"), ("vertex", "vertices"), ("axis", "axes"),
    ("crisis", "crises"), ("analysis", "analyses"), ("status", "statuses"),
    ("address", "addresses"), ("knife", "knives"), ("wife", "wives"), ("life", "lives"),
    ("leaf", "leaves"), ("half", "halves"), ("shelf", "shelves"), ("wolf", "wolves"),
    ("thief", "thieves")]

def irregularPlural? (word : String) : Option String := irregularNouns.lookup word

def irregularSingular? (word : String) : Option String :=
  (irregularNouns.map Prod.swap).lookup word

/-- The last word of a name and the text before it. The word is a run of small letters and
digits with at most one capital before it, or a run of capitals; it ends the name or stands
before a final line feed. A name with no such end is one word. -/
def lastWord (name : String) : String × String :=
  let back := name.toList.reverse
  let back := if back.head? == some '\n' then back.drop 1 else back
  let small := back.takeWhile fun c ↦ c.isLower || c.isDigit
  let rest := back.drop small.length
  let word :=
    if small.isEmpty then rest.takeWhile Char.isUpper
    else small ++ (rest.take 1).filter Char.isUpper
  if word.isEmpty then ("", name)
  else (String.ofList (back.drop word.length).reverse, String.ofList word.reverse)

/-- `word` with a capital if `model` starts with one. -/
def matchCase (model word : String) : String :=
  match model.toList with
  | c :: _ => if c.isUpper then capitalize word else word
  | [] => word

def isVowel (c : Char) : Bool := c ∈ ['a', 'e', 'i', 'o', 'u']

/-- Is the `k`-th character from the end (counted from 0) there and no vowel? -/
def consonantFromEnd (k : Nat) (word : String) : Bool :=
  match word.toList.reverse[k]? with
  | some c => !isVowel c
  | none => false

def plural (name : String) : String :=
  if name == "" then ""
  else
    let (before, word) := lastWord name
    let small := lower word
    match irregularPlural? small with
    | some many => before ++ matchCase word many
    | none =>
      if (irregularSingular? small).isSome then name
      else if ["sh", "ch", "x", "z", "ss", "us"].any (endsWith small) then name ++ "es"
      else if endsWith small "s" then name
      else if endsWith small "y" && consonantFromEnd 1 small then dropLastChars 1 name ++ "ies"
      else if endsWith small "fe" then dropLastChars 2 name ++ "ves"
      else if endsWith small "f" && !endsWith small "ff" then dropLastChars 1 name ++ "ves"
      else name ++ "s"

def singular (name : String) : String :=
  if name == "" then ""
  else
    let (before, word) := lastWord name
    let small := lower word
    match irregularSingular? small with
    | some one => before ++ matchCase word one
    | none =>
      if (irregularPlural? small).isSome then name
      else if endsWith small "ies" && 3 < word.length then dropLastChars 3 name ++ "y"
      else if ["ches", "shes", "xes", "zes", "sses"].any (endsWith small) then
        dropLastChars 2 name
      else if endsWith small "uses" && consonantFromEnd 4 small then dropLastChars 2 name
      else if endsWith small "s" && !endsWith small "ss" then dropLastChars 1 name
      else name

/-- The database table of an entity: `OrderItem` has the table `order_items`. -/
def table (name : String) : String := snake (plural (studly name))

end Scaffold.Name
