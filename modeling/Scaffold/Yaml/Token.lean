import Scaffold.Yaml.Fault

/-!
# YAML tokens

A YAML text as a list of tokens. Blocks, which the text shows by indentation only, are opened and
closed by tokens of their own, and every key is announced. The list ends with `streamEnd` or with
the fault that kept it from going on.
-/

namespace Scaffold.Yaml

/-- A line that says something about the document after it. -/
inductive Directive where
  | version (major : Nat)
  | handle (handle uri : String)
  | other
  deriving DecidableEq

/-- A token. -/
inductive Token where
  | directive (d : Directive)
  | documentStart
  | documentEnd
  | streamEnd
  | blockSequence
  | blockMapping
  | blockEnd
  | flowSequence
  | flowSequenceEnd
  | flowMapping
  | flowMappingEnd
  /-- The hyphen of a block sequence. -/
  | item
  | comma
  | key
  | value
  | anchor (name : String)
  /-- An alias, which stands for the node with an anchor. -/
  | mention (name : String)
  | tag (handle : Option String) (suffix : String)
  /-- A scalar; a plain one has no quotes and is no block. -/
  | scalar (text : String) (plain : Bool)
  | fault (fault : YamlFault)
  deriving DecidableEq

/-- A token and its line. -/
structure Lexeme where
  token : Token
  line : Nat
  deriving DecidableEq

end Scaffold.Yaml
