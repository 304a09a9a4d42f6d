import Scaffold.Text.Pieces

/-!
# Tokens of a field definition

A field definition such as `decimal:nullable:default('a:b')` is cut at its colons, except
those inside parentheses. A closing parenthesis without an opening one counts for nothing; an
opening one that is never closed protects all that follows.
-/

namespace Scaffold.Field

open Text

/-- The parenthesis depth after one more character. -/
def depthAfter (depth : Nat) (c : Char) : Nat :=
  if c == '(' then depth + 1 else if c == ')' then depth - 1 else depth

/-- The segments between the colons at depth 0. -/
def segments (depth : Nat) : List Char → List (List Char)
  | [] => [[]]
  | c :: rest =>
    if c == ':' && depth == 0 then [] :: segments 0 rest
    else attach c (segments (depthAfter depth c) rest)

/-- The tokens of a definition, each without its outer blanks. -/
def tokens (text : String) : List String :=
  (segments 0 text.toList).map fun segment ↦ String.ofList (trim isBlank segment)

/-- Joins a bare `default` token with the token after it. -/
def foldDefaults : List String → List String
  | [] => []
  | [token] => [token]
  | token :: next :: rest =>
    if token == "default" then ("default:" ++ next) :: foldDefaults rest
    else token :: foldDefaults (next :: rest)

end Scaffold.Field
