import Scaffold.Text.Pieces

/-!
# Templates

The text of a stub and its slots. A slot is a name in doubled curly brackets, with any blanks
around the name. `pieces` takes a template apart into characters that stand for themselves and
slots; it looks at the template alone, so what is put into a slot is never read again.
-/

namespace Scaffold.Stub

open Text

/-- The text of a slot. -/
def slot (name : String) : String := "\x7b\x7b " ++ name ++ " \x7d\x7d"

/-- A part of a template. -/
inductive Piece where
  | plain (c : Char)
  /-- A slot with its name and all that it is written with. -/
  | slot (name written : List Char)
  deriving DecidableEq

def Piece.written : Piece → List Char
  | .plain c => [c]
  | .slot _ written => written

/-- A letter or an underscore. -/
def isSlotStart (c : Char) : Bool := c.isAlpha || c == '_'

def isSlotChar (c : Char) : Bool := c.isAlphanum || c == '_'

/-- The slot at the start of a text, if there is one. -/
def slotAt? (s : List Char) : Option Piece :=
  match s with
  | '\x7b' :: '\x7b' :: rest =>
    let before := rest.takeWhile isBlank
    let rest := rest.dropWhile isBlank
    let name := rest.takeWhile isSlotChar
    let rest := rest.dropWhile isSlotChar
    let after := rest.takeWhile isBlank
    match name, rest.dropWhile isBlank with
    | c :: _, '\x7d' :: '\x7d' :: _ =>
      if isSlotStart c then
        some (.slot name
          ('\x7b' :: '\x7b' :: before ++ name ++ after ++ ['\x7d', '\x7d']))
      else none
    | _, _ => none
  | _ => none

/-- The pieces of a text whose first `skip` characters belong to the piece before. -/
def piecesAfter : Nat → List Char → List Piece
  | _, [] => []
  | skip + 1, _ :: rest => piecesAfter skip rest
  | 0, c :: rest =>
    match slotAt? (c :: rest) with
    | some p => p :: piecesAfter (p.written.length - 1) rest
    | none => .plain c :: piecesAfter 0 rest

/-- The pieces of a template. -/
def pieces (template : String) : List Piece := piecesAfter 0 template.toList

/-- The name that a key stands for: the key itself, or the name inside its brackets. -/
def slotName (key : String) : String :=
  let s := trim isBlank key.toList
  match slotAt? s with
  | some (.slot name written) => if written.length == s.length then String.ofList name else key
  | _ => key

/-- The value given for a name; of several the last one. -/
def valueOf? (values : List (String × String)) (name : String) : Option String :=
  (values.reverse.find? fun v ↦ slotName v.1 == name).map (·.2)

/-- A piece with its slot filled; a slot without a value stays. -/
def fill (values : List (String × String)) : Piece → List Char
  | .plain c => [c]
  | .slot name written =>
    match valueOf? values (String.ofList name) with
    | some value => value.toList
    | none => written

/-- Fills the slots of a template in one pass. -/
def render (template : String) (values : List (String × String)) : String :=
  String.ofList ((pieces template).flatMap (fill values))

/-- The names of the slots, each once, in order of appearance. -/
def slotNames (template : String) : List String :=
  ((pieces template).filterMap fun p ↦
    match p with
    | .plain _ => none
    | .slot name _ => some (String.ofList name)).eraseDups

end Scaffold.Stub
