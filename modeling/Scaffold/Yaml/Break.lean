/-!
# Line ends and markers

Where lines and words of a YAML text end, and the markers between documents. A carriage return
never occurs: line ends are unified before a text is looked at.
-/

namespace Scaffold.Yaml

/-- The characters that end a line. -/
def isBreak (c : Char) : Bool :=
  c == '\n' || c == '\u0085' || c == '\u2028' || c == '\u2029'

/-- What a line end counts as in a value. -/
def breakValue (c : Char) : Char := if c == '\u2028' || c == '\u2029' then c else '\n'

/-- Spaces and tabs. -/
def isGap (c : Char) : Bool := c == ' ' || c == '\t'

/-- Is the line or a word at its end? A tab counts only if `tabs` is set. -/
def atWordEnd (tabs : Bool) : List Char → Bool
  | [] => true
  | c :: _ => c == ' ' || (tabs && c == '\t') || isBreak c

/-- The line end at the start of a text, as it counts in a value, and what follows it. -/
def lineBreak? : List Char → Option (Char × List Char)
  | c :: rest => if isBreak c then some (breakValue c, rest) else none
  | [] => none

def skipSpaces (s : List Char) : List Char := s.dropWhile (· == ' ')

/-- Drops a comment up to the end of its line. -/
def skipComment (s : List Char) : List Char :=
  match s with
  | '#' :: rest => rest.dropWhile (!isBreak ·)
  | s => s

/-- Does a document marker start here? The place has to be the start of a line. -/
def atMarker (marker : String) (s : List Char) : Bool :=
  marker.toList.isPrefixOf s && atWordEnd true (s.drop 3)

def atAnyMarker (s : List Char) : Bool := atMarker "---" s || atMarker "..." s

/-- The characters that a text may hold. -/
def isAllowed (c : Char) : Bool :=
  let n := c.toNat
  n == 9 || n == 10 || n == 13 || (0x20 ≤ n && n ≤ 0x7E) || n == 0x85 ||
    (0xA0 ≤ n && n ≤ 0xFFFD) || 0x10000 ≤ n

end Scaffold.Yaml
