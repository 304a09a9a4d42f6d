/-!
# Blanks and trimming

The blank characters of running text and the removal of a class of characters from the
ends of a text. `trim` only ever cuts at the ends: what lies between two kept characters
is kept.
-/

namespace Scaffold.Text

/-- White space in the Unicode sense, with the four information separators U+001C to U+001F. -/
def isBlank (c : Char) : Bool :=
  let n := c.toNat
  (9 ≤ n && n ≤ 13) || (28 ≤ n && n ≤ 32) || n == 0x85 || n == 0xA0 || n == 0x1680 ||
    (0x2000 ≤ n && n ≤ 0x200A) || n == 0x2028 || n == 0x2029 || n == 0x202F || n == 0x205F ||
    n == 0x3000

theorem isBlank_of_isWhitespace {c : Char} (h : c.isWhitespace = true) : isBlank c = true := by
  simp only [Char.isWhitespace, Bool.or_eq_true, decide_eq_true_eq] at h
  rcases h with ((rfl | rfl) | rfl) | rfl <;> decide

/-- The blanks that may stand around a number: all but the information separators. -/
def isSpacing (c : Char) : Bool := isBlank c && !(28 ≤ c.toNat && c.toNat ≤ 31)

/-- Drops the leading characters of the class `p`. -/
def trimStart (p : Char → Bool) (s : List Char) : List Char := s.dropWhile p

/-- Drops the trailing characters of the class `p`. -/
def trimEnd (p : Char → Bool) (s : List Char) : List Char := (s.reverse.dropWhile p).reverse

/-- Drops the characters of the class `p` at both ends. -/
def trim (p : Char → Bool) (s : List Char) : List Char := trimEnd p (trimStart p s)

@[simp] theorem trim_nil (p : Char → Bool) : trim p [] = [] := rfl

/-- The text without the blanks at its two ends. -/
def strip (s : String) : String := String.ofList (trim isBlank s.toList)

/-- The text without the blanks at its end. -/
def stripEnd (s : String) : String := String.ofList (trimEnd isBlank s.toList)

/-- Does the text consist of blanks only? -/
def isBlankText (s : String) : Bool := s.toList.all isBlank

end Scaffold.Text
