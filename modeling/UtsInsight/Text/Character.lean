import UtsInsight.Text.WordRanges
import UtsInsight.Text.AlphanumericRanges

/-!
# Character classes

Five classes of characters decide where a word, a name or a blank begins and ends. Two of them are
close and still different: an *identifier* character is what the cursor selects as one word and
what separates two occurrences of a name, while a *word* character is what a declaration header or
a call accepts inside a name. The first counts fractions and other numerals and leaves out
combining marks, the second does the reverse.
-/

namespace UtsInsight.Text

/-- Membership of a code point in a list of ranges with both ends included. -/
def inRanges (ranges : List (Nat × Nat)) (code : Nat) : Bool :=
  ranges.any fun r => r.1 ≤ code && code ≤ r.2

/-- ASCII letters. -/
def isAsciiLetter (c : Char) : Bool :=
  ('a' ≤ c && c ≤ 'z') || ('A' ≤ c && c ≤ 'Z')

/-- ASCII digits. -/
def isAsciiDigit (c : Char) : Bool :=
  '0' ≤ c && c ≤ '9'

/-- White space: the tabulators and line ends of ASCII, the blank, and the spaces and separators
of other scripts. -/
def isBlank (c : Char) : Bool :=
  inRanges
    [ (0x9, 0xD), (0x20, 0x20), (0x85, 0x85), (0xA0, 0xA0), (0x1680, 0x1680), (0x2000, 0x200A),
      (0x2028, 0x2029), (0x202F, 0x202F), (0x205F, 0x205F), (0x3000, 0x3000) ]
    c.toNat

/-- Decimal digits of any script. -/
def isDecimal (c : Char) : Bool :=
  if c.toNat < 128 then isAsciiDigit c else inRanges decimalRanges c.toNat

/-- Alphabetic characters and numerals of any kind. -/
def isAlphanumeric (c : Char) : Bool :=
  if c.toNat < 128 then isAsciiLetter c || isAsciiDigit c else inRanges alphanumericRanges c.toNat

/-- Characters of a word: alphabetic, marks, decimal digits, connectors such as the underscore. -/
def isWord (c : Char) : Bool :=
  if c.toNat < 128 then isAsciiLetter c || isAsciiDigit c || c == '_'
  else inRanges wordRanges c.toNat

/-- Characters of the identifier that a cursor selects. -/
def isIdentifier (c : Char) : Bool :=
  isAlphanumeric c || c == '_' || c == '$'

/-- First character of a declared name. -/
def isNameStart (c : Char) : Bool :=
  isAsciiLetter c || c == '_' || c == '$'

/-- Later characters of a declared name. -/
def isNamePart (c : Char) : Bool :=
  isWord c || c == '$'

end UtsInsight.Text
