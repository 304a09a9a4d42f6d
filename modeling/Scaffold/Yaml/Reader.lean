import Scaffold.Text.Utf8
import Scaffold.Yaml.Node.Reader
import Scaffold.Yaml.Token.Lexer

/-!
# Reading YAML

`Value.ofYaml` reads the one document of a YAML text: its characters are cut into tokens, the
tokens describe a tree of nodes, and the tree is read.
-/

namespace Scaffold

open Yaml

/-- Finds a character that no text may hold. -/
def Yaml.controlLine? : Nat → List Char → Option Nat
  | _, [] => none
  | line, c :: rest =>
    if !isAllowed c then some line else controlLine? (if isBreak c then line + 1 else line) rest

/-- The value that a YAML text describes. -/
def Value.ofYaml (text : String) : Except YamlError Value :=
  let s := Text.unifyFeeds text.toList
  match controlLine? 1 s with
  | some line => .error ⟨.control, line⟩
  | none => do
    let n ← Node.ofLexemes (Lexeme.ofText s)
    (n.read 0).mapError (·.error)

end Scaffold
