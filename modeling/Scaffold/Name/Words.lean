import Scaffold.Text.Pieces

/-!
# The words of a name

A name is read as a sequence of words, whatever its spelling: `order_item`, `OrderItem` and
`order-item` all have the words `order` and `item`. Only ASCII letters and digits belong to
words; every other character separates them.

Where a name is cut is decided by a window of three characters, so `runs` recurses on the
name itself and is shared by the two ways of cutting: `sameWord` separates digits from
letters, `sameChunk` (used by snake case) does not.
-/

namespace Scaffold.Name

open Text

/-- Cuts a text into runs of letters and digits; `joins c rest` tells whether `c` stays in one
run with the first character of `rest`. -/
def runs (joins : Char → List Char → Bool) : List Char → List (List Char)
  | [] => []
  | c :: rest =>
    if !c.isAlphanum then runs joins rest
    else if joins c rest then attach c (runs joins rest)
    else [c] :: runs joins rest

def startsLower : List Char → Bool
  | [] => false
  | c :: _ => c.isLower

/-- Words: small letters with at most one capital before them, digits, or capitals. The last
of several capitals belongs to the small letters after it. -/
def sameWord (a : Char) : List Char → Bool
  | [] => false
  | b :: rest =>
    (b.isLower && (a.isLower || a.isUpper)) || (b.isDigit && a.isDigit) ||
      (b.isUpper && a.isUpper && !startsLower rest)

/-- Chunks: a capital starts a new one after a small letter or a digit, and where a small
letter follows it. -/
def sameChunk (a : Char) : List Char → Bool
  | [] => false
  | b :: rest => b.isAlphanum && !(b.isUpper && (!a.isUpper || startsLower rest))

/-- The words of a name, in small letters. -/
def words (name : String) : List String :=
  (runs sameWord name.toList).map fun run ↦ String.ofList (run.map Char.toLower)

end Scaffold.Name
