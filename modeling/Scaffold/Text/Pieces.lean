import Scaffold.Text.Blank

/-!
# Cutting and joining

A text is cut at every occurrence of one character (`cut`), at the first one (`cutFirst`),
or searched for a fragment (`contains`). Cutting and joining are inverse to each other.
-/

namespace Scaffold.Text

/-- Puts `c` in front of the first piece. -/
def attach (c : Char) : List (List Char) → List (List Char)
  | [] => [[c]]
  | piece :: rest => (c :: piece) :: rest

/-- The texts between the occurrences of `sep`, one more than there are occurrences. -/
def cut (sep : Char) (s : String) : List String :=
  (s.toList.splitOn sep).map String.ofList

/-- The text before the first `sep`, and the text after it. -/
def cutFirst (sep : Char) (s : String) : String × String :=
  (String.ofList (s.toList.takeWhile (· != sep)),
    String.ofList ((s.toList.dropWhile (· != sep)).drop 1))

/-- The non-blank items of a comma list, each without its outer blanks. -/
def items (s : String) : List String :=
  ((cut ',' s).map strip).filter (· != "")

/-- Does the list `part` occur in the list as a run of neighbours? -/
def occursIn (part : List Char) : List Char → Bool
  | [] => part.isEmpty
  | c :: rest => part.isPrefixOf (c :: rest) || occursIn part rest

/-- Does the text contain the fragment `part`? -/
def contains (s part : String) : Bool := occursIn part.toList s.toList

def startsWith (s start : String) : Bool := start.toList.isPrefixOf s.toList

def endsWith (s ending : String) : Bool := ending.toList.reverse.isPrefixOf s.toList.reverse

/-- The text without its first `n` characters. -/
def dropChars (n : Nat) (s : String) : String := String.ofList (s.toList.drop n)

/-- The text without its last `n` characters. -/
def dropLastChars (n : Nat) (s : String) : String :=
  String.ofList (s.toList.take (s.length - n))

/-- The text with every ASCII capital in lower case. -/
def lower (s : String) : String := String.ofList (s.toList.map Char.toLower)

/-- `n` spaces. -/
def spaces (n : Nat) : String := String.ofList (List.replicate n ' ')

def joinLines (lines : List String) : String := "\n".intercalate lines

end Scaffold.Text
