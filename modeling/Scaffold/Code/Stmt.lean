import Scaffold.Text.Lines

/-!
# Generated statements

The statements of generated PHP code as trees, and the lines that they print. A block prints
its head, its body one step further in, and its end; blank lines stay blank. Printing is the
only place where indentation is decided.
-/

namespace Scaffold

/-- A statement of generated code. -/
inductive Stmt where
  | line (text : String)
  /-- A blank line. -/
  | gap
  | block (head : String) (body : List Stmt) (close : String)
  /-- A block with an alternative. -/
  | choice (head : String) (yes no : List Stmt)

namespace Stmt

mutual

/-- The lines of a statement. -/
def lines : Stmt → List String
  | line text => [text]
  | gap => [""]
  | block head body close => head :: Text.indentBy 4 (allLines body) ++ [close]
  | choice head yes no =>
    head :: Text.indentBy 4 (allLines yes) ++ ["\x7d else \x7b"] ++
      Text.indentBy 4 (allLines no) ++ ["\x7d"]

/-- The lines of statements one after the other. -/
def allLines : List Stmt → List String
  | [] => []
  | s :: rest => lines s ++ allLines rest

end

/-- A block in curly brackets; `head` comes without its bracket. -/
def braces (head : String) (body : List Stmt) : Stmt := block (head ++ " \x7b") body "\x7d"

/-- Joins groups of statements by blank lines; empty groups do not count. -/
def spaced (groups : List (List Stmt)) : List Stmt :=
  List.intercalate [gap] (groups.filter (!·.isEmpty))

theorem allLines_append (a b : List Stmt) : allLines (a ++ b) = allLines a ++ allLines b := by
  induction a with
  | nil => simp [allLines]
  | cons s rest ih => simp [allLines, ih]

/-- The text of statements whose lines start `level` steps in. -/
def text (level : Nat) (code : List Stmt) : String :=
  Text.joinLines (Text.indent (allLines code) level)

end Stmt

end Scaffold
