import UtsInsight.Text.Basic

/-!
# Editor positions

An editor addresses a text by line and column, both counted from zero, where a column counts
UTF-16 units. The position of a byte offset is what remains after walking over the characters
before it, and the offset of a position is found by walking over whole lines first. Offsets and
positions outside the text are clamped and never refused.
-/

namespace UtsInsight

/-- A line and a column, both counted from zero. -/
structure Position where
  line : Nat
  column : Nat
  deriving DecidableEq, Repr, Inhabited

/-- Two positions of one text, the second excluded. -/
structure Span where
  start : Position
  stop : Position
  deriving DecidableEq, Repr, Inhabited

/-- Two byte offsets of one text, the second excluded. -/
structure ByteSpan where
  start : Nat
  stop : Nat
  deriving DecidableEq, Repr, Inhabited

def ByteSpan.length (s : ByteSpan) : Nat :=
  s.stop - s.start

namespace Position

/-- The order in which positions occur in a text. -/
def before (p q : Position) : Prop :=
  p.line < q.line ∨ (p.line = q.line ∧ p.column < q.column)

/-- The position after one more character. -/
def advance (p : Position) (c : Char) : Position :=
  if c = '\n' then ⟨p.line + 1, 0⟩ else ⟨p.line, p.column + Text.unitSize c⟩

end Position

namespace Text

/-- The position of the last character boundary at or below a byte offset. -/
def positionOf (text : List Char) (offset : Nat) : Position :=
  (bytePrefix offset text).foldl Position.advance ⟨0, 0⟩

/-- The positions of two byte offsets. -/
def spanOf (text : List Char) (bytes : ByteSpan) : Span :=
  ⟨positionOf text bytes.start, positionOf text bytes.stop⟩

/-- The byte offset of a column in a line, clamped to the line. A column inside a surrogate pair
goes to the end of the pair. -/
def byteOfColumn (line : List Char) (column : Nat) : Nat :=
  byteLength (takeUnits column line)

/-- The column of a byte offset in a line. -/
def columnOfByte (line : List Char) (byte : Nat) : Nat :=
  unitLength (bytePrefix byte line)

/-- The byte offset of a line and a column in a list of lines: the line is clamped to the last one
and the column to its line. -/
def offsetInLines : List (List Char) → Nat → Nat → Nat
  | [], _, _ => 0
  | [l], _, column => byteOfColumn l column
  | l :: _ :: _, 0, column => byteOfColumn l column
  | l :: m :: ls, n + 1, column => byteLength l + 1 + offsetInLines (m :: ls) n column

/-- The byte offset of a position. -/
def offsetOf (text : List Char) (p : Position) : Nat :=
  offsetInLines (lines text) p.line p.column

end Text

end UtsInsight
