import Scaffold.Name.Words

/-!
# Studly, camel and snake case

The three spellings of a name: `OrderItem`, `orderItem` and `order_item`.
-/

namespace Scaffold.Name

/-- The first letter as a capital. -/
def capitalizeChars : List Char → List Char
  | [] => []
  | c :: rest => c.toUpper :: rest

/-- The first letter as a small letter. -/
def uncapitalizeChars : List Char → List Char
  | [] => []
  | c :: rest => c.toLower :: rest

def capitalize (word : String) : String := String.ofList (capitalizeChars word.toList)

def uncapitalize (word : String) : String := String.ofList (uncapitalizeChars word.toList)

/-- `order_item` becomes `OrderItem`. -/
def studly (name : String) : String := String.join ((words name).map capitalize)

/-- `order_item` becomes `orderItem`. -/
def camel (name : String) : String := uncapitalize (studly name)

/-- `OrderItem` becomes `order_item`. -/
def snake (name : String) : String :=
  "_".intercalate <|
    (runs sameChunk name.toList).map fun run ↦ String.ofList (run.map Char.toLower)

end Scaffold.Name
