import Scaffold.Yaml.Scalar.Moment

/-!
# YAML tags

Every node has a tag that says how it is read. `Tag.ofPlain` gives a text without quotes the tag
that its form asks for: null, truth values, numbers and days are recognised, everything else is a
text. `Tag.read` reads a text by its tag.
-/

namespace Scaffold.Yaml

/-- How a node is read. -/
inductive Tag where
  | null
  | bool
  | int
  | float
  | stamp
  | text
  /-- A key whose value is a mapping with further entries. -/
  | merge
  /-- The equals sign, which is a text as a key and nothing else. -/
  | equals
  | list
  | map
  | unknown
  deriving DecidableEq

def nullWords : List String := ["", "~", "null", "Null", "NULL"]

def trueWords : List String :=
  ["yes", "Yes", "YES", "true", "True", "TRUE", "on", "On", "ON"]

def falseWords : List String :=
  ["no", "No", "NO", "false", "False", "FALSE", "off", "Off", "OFF"]

namespace Tag

/-- The tag of a text without quotes. -/
def ofPlain (text : String) : Tag :=
  let s := text.toList
  if nullWords.contains text then null
  else if trueWords.contains text || falseWords.contains text then bool
  else if text == "<<" then merge
  else if text == "=" then equals
  else if isFraction s then float
  else if isInteger s then int
  else if (moment? 2 s).isSome then stamp
  else .text

/-- The names of the tags. -/
def names : List (String × Tag) :=
  [("null", null), ("bool", bool), ("int", int), ("float", float), ("timestamp", stamp),
    ("str", .text), ("merge", merge), ("value", equals), ("seq", list), ("map", map)]

/-- The tag with a full name. -/
def ofName (name : String) : Tag :=
  ((names.find? fun t ↦ "tag:yaml.org,2002:" ++ t.1 == name).map (·.2)).getD unknown

/-- Reads one of the words for truth values, in any case. -/
def readBool (text : String) : Except ScalarFault Value :=
  let word := String.ofList (text.toList.map Char.toLower)
  if trueWords.contains word then .ok (.bool true)
  else if falseWords.contains word then .ok (.bool false)
  else .error (.notBool word)

/-- Reads a day or a time. -/
def readMoment (text : String) : Except ScalarFault Value :=
  match moment? 1 text.toList with
  | some t => (checkMoment t).map .stamp
  | none => .error (.notStamp text)

/-- Reads a text by a tag. -/
def read (tag : Tag) (text : String) : Except YamlFault Value :=
  match tag with
  | null => .ok .null
  | .text => .ok (.text text)
  | bool => (readBool text).mapError .scalar
  | int => ((integer text.toList).map Value.int).mapError .scalar
  | float => ((fraction text.toList).map Value.float).mapError .scalar
  | stamp => (readMoment text).mapError .scalar
  | merge | equals | list | map | unknown => .error .noMeaning

end Tag

end Scaffold.Yaml
