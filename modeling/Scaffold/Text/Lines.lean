import Scaffold.Text.Pieces

/-!
# Lines

Indentation, counting and layout of lines.
-/

namespace Scaffold.Text

/-- Indents every line that is not blank by `width` spaces. -/
def indentBy (width : Nat) (lines : List String) : List String :=
  lines.map fun line ↦ if isBlankText line then line else spaces width ++ line

/-- Indents by `level` steps of four spaces. -/
def indent (lines : List String) (level : Nat) : List String := indentBy (level * 4) lines

/-- The number of lines: a last line counts whether or not a line feed ends it. -/
def countLines (s : String) : Nat :=
  let feeds := s.toList.count '\n'
  match s.toList.getLast? with
  | none => 0
  | some c => if c == '\n' then feeds else feeds + 1

/-! ## Layout -/

/-- A text filled up to a width with spaces at its end. -/
def padEnd (width : Nat) (s : String) : String := s ++ spaces (width - s.length)

/-- A text filled up to a width with spaces in front. -/
def padStart (width : Nat) (s : String) : String := spaces (width - s.length) ++ s

/-- A line of one character. -/
def ruler (c : Char) (width : Nat) : String := String.ofList (List.replicate width c)

end Scaffold.Text
