import UtsInsight.Text.Position

/-!
# Open documents and their edits

An open document is a text with a version. Edits address it by line and column and replace what lies
between two positions; positions are clamped to the document before anything is replaced.

Lines are those of an editor: besides the line feed, a carriage return, a pair of both, a vertical
tab, a form feed and three separators of other scripts end a line. Only a line feed and a pair
ending in one are kept out of reach of a column. The analyses of this library end a line at the line
feed alone, so the two views of a text agree only where no other terminator occurs.
-/

namespace UtsInsight

namespace Document

open UtsInsight.Text

/-- A single character that ends a line of an editor. -/
def isLineEnd (c : Char) : Bool :=
  inRanges [(0xA, 0xD), (0x85, 0x85), (0x2028, 0x2029)] c.toNat

/-- The lines of an editor, each with the terminator that ends it. -/
def editorLines : List Char → List (List Char)
  | [] => [[]]
  | '\r' :: '\n' :: cs => ['\r', '\n'] :: editorLines cs
  | c :: cs =>
    if isLineEnd c then [c] :: editorLines cs
    else match editorLines cs with
      | [] => [[c]]
      | l :: ls => (c :: l) :: ls

/-- The part of an editor line that columns can address. -/
def addressable (line : List Char) : List Char :=
  if line.getLast? = some '\n' then dropReturn line.dropLast else line

/-- Number of characters of an editor line before a column. -/
def indexInLine (line : List Char) (column : Nat) : Nat :=
  (takeUnits column (addressable line)).length

/-- Number of characters before a line and a column, both clamped. -/
def indexInLines : List (List Char) → Nat → Nat → Nat
  | [], _, _ => 0
  | [l], _, column => indexInLine l column
  | l :: _ :: _, 0, column => indexInLine l column
  | l :: m :: ls, n + 1, column => l.length + indexInLines (m :: ls) n column

/-- Number of characters of a text before a position. -/
def indexOf (text : List Char) (p : Position) : Nat :=
  indexInLines (editorLines text) p.line p.column

/-- Replaces the characters from index `start` to index `stop`. -/
def splice (text : List Char) (start stop : Nat) (inserted : List Char) : List Char :=
  text.take start ++ inserted ++ text.drop stop

end Document

/-- A change of a document: the new text of a range, or of the whole document. -/
structure Edit where
  range : Option Span
  text : List Char
  deriving DecidableEq, Repr

namespace Edit

/-- The text after a change. A range whose end lies before its start is empty at its start. -/
def apply (text : List Char) (edit : Edit) : List Char :=
  match edit.range with
  | none => edit.text
  | some range =>
    let start := Document.indexOf text range.start
    Document.splice text start (max start (Document.indexOf text range.stop)) edit.text

end Edit

/-- Text and version of an open document. -/
structure Document where
  text : List Char
  version : Int
  deriving DecidableEq, Repr

/-- A change that came for a version the document already has or has passed. -/
structure StaleVersion where
  offered : Int
  current : Int
  deriving DecidableEq, Repr

def StaleVersion.message (e : StaleVersion) : String :=
  "Version " ++ toString e.offered ++ " not newer than " ++ toString e.current

namespace Document

/-- Applies changes one after another. A version that is not newer is refused. -/
def update (document : Document) (edits : List Edit) (version : Int) :
    Except StaleVersion Document :=
  if version ≤ document.version then .error ⟨version, document.version⟩
  else .ok ⟨edits.foldl Edit.apply document.text, version⟩

end Document

end UtsInsight
