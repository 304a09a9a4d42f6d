import Scaffold.Value.Literal

/-!
# Faults of YAML texts

A YAML text can be spelled wrongly, which `YamlFault` describes, and a scalar in a text that is
spelled well can stand for a number, day or character that there is not, which `ScalarFault`
describes.
-/

namespace Scaffold

/-- What can be wrong with the meaning of a scalar. -/
inductive ScalarFault where
  /-- A text is no integer in a base. -/
  | notInteger (base : Nat) (text : String)
  | notNumber (text : String)
  | notBool (text : String)
  | notStamp (text : String)
  /-- A number has no text at all. -/
  | missing
  /-- An integer has too many digits. -/
  | oversize (digits : Nat)
  /-- A character number is too large. -/
  | character
  /-- A character number does not even fit a machine word. -/
  | characterWord
  | year (year : Nat)
  | month
  | day
  | hour
  | minute
  | second
  /-- The distance from universal time, in seconds, is a day or more. -/
  | offset (seconds : Int)
  deriving DecidableEq

def ScalarFault.message : ScalarFault → String
  | .notInteger base text =>
    s!"invalid literal for int() with base {base}: {Value.textLiteral text}"
  | .notNumber text => s!"could not convert string to float: {Value.textLiteral text}"
  | .notBool text => s!"{Value.textLiteral text} is no truth value"
  | .notStamp text => s!"{Value.textLiteral text} is no day"
  | .missing => "the number is missing"
  | .oversize digits => Text.oversizeInteger (some digits)
  | .character => "chr() arg not in range(0x110000)"
  | .characterWord => "signed integer is greater than maximum"
  | .year n => s!"year {n} is out of range"
  | .month => "month must be in 1..12"
  | .day => "day is out of range for month"
  | .hour => "hour must be in 0..23"
  | .minute => "minute must be in 0..59"
  | .second => "second must be in 0..59"
  | .offset seconds =>
    "offset must be a timedelta strictly between -timedelta(hours=24) and " ++
      s!"timedelta(hours=24), not {Stamp.durationLiteral seconds}."

/-- What can be wrong with a YAML text. -/
inductive YamlFault where
  /-- A character that no text may hold. -/
  | control
  /-- A character that starts nothing. -/
  | noStart
  /-- A key without its colon. -/
  | noColon
  /-- An item, a key or a value where none can start. -/
  | notAllowed
  /-- A document marker inside a quoted text. -/
  | marker
  | openQuote
  | badEscape
  | badDirective
  | badName
  | badTag
  | badHeader
  /-- A token that does not fit where it stands. -/
  | misplaced
  | noContent
  | unknownHandle
  | unknownAlias
  | repeatedAnchor
  | secondDocument
  | noMeaning
  | badMerge
  | collectionKey
  /-- Too many collections are open. -/
  | tooDeep
  | scalar (fault : ScalarFault)
  deriving DecidableEq

def YamlFault.message : YamlFault → String
  | .control => "special characters are not allowed"
  | .noStart => "found character that cannot start any token"
  | .noColon => "could not find expected ':'"
  | .notAllowed => "mapping values are not allowed here"
  | .marker => "found unexpected document separator"
  | .openQuote => "found unexpected end of stream"
  | .badEscape => "found unknown escape character"
  | .badDirective => "found a directive that cannot be read"
  | .badName => "expected alphabetic or numeric character"
  | .badTag => "found a tag that cannot be read"
  | .badHeader => "expected chomping or indentation indicators"
  | .misplaced => "found unexpected token"
  | .noContent => "expected the node content"
  | .unknownHandle => "found undefined tag handle"
  | .unknownAlias => "found undefined alias"
  | .repeatedAnchor => "found duplicate anchor"
  | .secondDocument => "expected a single document in the stream"
  | .noMeaning => "could not determine a constructor for the tag"
  | .badMerge => "expected a mapping or list of mappings for merging"
  | .collectionKey => "found unhashable key"
  | .tooDeep => "maximum recursion depth exceeded"
  | .scalar fault => fault.message

/-- A fault and the line it was met in, counted from one. -/
structure YamlError where
  fault : YamlFault
  line : Nat
  deriving DecidableEq

def YamlError.message (e : YamlError) : String := s!"line {e.line}: {e.fault.message}"

end Scaffold
