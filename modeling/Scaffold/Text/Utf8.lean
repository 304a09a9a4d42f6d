import Scaffold.Text.Pieces

/-!
# Texts as bytes

Reading and writing texts in UTF-8. What cannot be read is refused with the place and the
reason. A text read from a file has every line end as a line feed.
-/

namespace Scaffold.Text

/-- Why bytes are no text: which bytes are bad, the first of them, and what is wrong. -/
structure DecodeError where
  position : Nat
  /-- How many bytes are bad. -/
  length : Nat
  byte : UInt8
  reason : String
  deriving DecidableEq

def DecodeError.message (e : DecodeError) : String :=
  let digits := Nat.toDigits 16 e.byte.toNat
  let byte := String.ofList (if digits.length < 2 then '0' :: digits else digits)
  let last := e.position + e.length - 1
  let place :=
    if e.length == 1 then s!"byte 0x{byte} in position {e.position}"
    else s!"bytes in position {e.position}-{last}"
  s!"'utf-8' codec can't decode {place}: {e.reason}"

/-- How many bytes follow a first byte, and the bounds of the second one; none for a byte that
starts nothing. -/
def following? (b : UInt8) : Option (Nat × UInt8 × UInt8) :=
  if b < 0x80 then some (0, 0, 0)
  else if b < 0xC2 then none
  else if b < 0xE0 then some (1, 0x80, 0xBF)
  else if b == 0xE0 then some (2, 0xA0, 0xBF)
  else if b == 0xED then some (2, 0x80, 0x9F)
  else if b < 0xF0 then some (2, 0x80, 0xBF)
  else if b == 0xF0 then some (3, 0x90, 0xBF)
  else if b < 0xF4 then some (3, 0x80, 0xBF)
  else if b == 0xF4 then some (3, 0x80, 0x8F)
  else none

/-- The first fault of a byte sequence. `due` is the number of bytes that the character started
by `first` at `start` still needs, the next of them between `low` and `high`. -/
def faultFrom (position due start : Nat) (first low high : UInt8) :
    List UInt8 → Option DecodeError
  | [] =>
    if due == 0 then none else some ⟨start, position - start, first, "unexpected end of data"⟩
  | b :: rest =>
    if due == 0 then
      match following? b with
      | none => some ⟨position, 1, b, "invalid start byte"⟩
      | some (n, low, high) => faultFrom (position + 1) n position b low high rest
    else if low ≤ b && b ≤ high then
      faultFrom (position + 1) (due - 1) start first 0x80 0xBF rest
    else some ⟨start, position - start, first, "invalid continuation byte"⟩

/-- Reads bytes as a text. -/
def decode (bytes : ByteArray) : Except DecodeError String :=
  match String.fromUTF8? bytes with
  | some s => .ok s
  | none =>
    .error ((faultFrom 0 0 0 0 0 0 bytes.toList).getD ⟨0, 1, 0, "invalid start byte"⟩)

/-- Turns carriage returns, with or without a line feed after them, into line feeds. -/
def unifyFeeds : List Char → List Char
  | [] => []
  | '\r' :: '\n' :: rest => '\n' :: unifyFeeds rest
  | c :: rest => (if c == '\r' then '\n' else c) :: unifyFeeds rest

/-- Reads bytes as a text with unified line ends. -/
def decodeLines (bytes : ByteArray) : Except DecodeError String :=
  (decode bytes).map fun s ↦ String.ofList (unifyFeeds s.toList)

def encode (s : String) : ByteArray := s.toUTF8

end Scaffold.Text
