import Scaffold.Text.Pieces

/-!
# Single-quoted literals

The single-quoted string literals of PHP, in which only the quote and the backslash are
escaped, and the list literals made of them.
-/

namespace Scaffold.Text

/-- Writes a backslash before every quote and every backslash. -/
def escapeQuoted : List Char → List Char
  | [] => []
  | c :: rest =>
    if c == '\\' || c == '\'' then '\\' :: c :: escapeQuoted rest else c :: escapeQuoted rest

/-- The single-quoted literal of a text. -/
def quoted (s : String) : String := String.ofList ('\'' :: escapeQuoted s.toList ++ ['\''])

/-- The list literal of single-quoted texts. -/
def quotedList (texts : List String) : String :=
  "[" ++ ", ".intercalate (texts.map quoted) ++ "]"

end Scaffold.Text
