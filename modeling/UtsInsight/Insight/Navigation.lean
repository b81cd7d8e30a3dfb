import UtsInsight.Insight.Protocol
import UtsInsight.Text.Word

/-!
# Definitions, references and the outline

Navigation works on the text alone. A definition is the first line that declares the word as a
function, class, interface or variable; references are all whole-word occurrences, those in strings
and comments included; the outline is the scan of the document.
-/

namespace UtsInsight.Insight

open UtsInsight.Text

/-- The kinds of declarations that a definition leads to. -/
def definitionKinds : List SymbolKind :=
  [ .genericFunction, .function, .classType, .interface, .variable, .constant ]

/-- The definition of a word: the empty range before its introducing keyword. -/
def definitionOf (uri : Uri) (text : List Char) (word : String) : Option Location :=
  (Outline.find? text word definitionKinds).map fun entry =>
    let start : Position := ⟨entry.line, entry.keywordColumn⟩
    ⟨uri, ⟨start, start⟩⟩

/-- The word at a position of a text. -/
def wordAtPosition (text : List Char) (position : Position) : Option CursorWord :=
  wordAt (lineAt text position.line) position.column

/-- The definition of the word at a position. -/
def definitionAt (uri : Uri) (text : List Char) (position : Position) : Option Location :=
  (wordAtPosition text position).bind fun word => definitionOf uri text word.text

/-- The occurrences of a word, in document order. -/
def referencesTo (uri : Uri) (text : List Char) (word : String) : List Location :=
  (occurrences text word.toList).map fun bytes => ⟨uri, spanOf text bytes⟩

/-- The occurrences of the word at a position. -/
def referencesAt (uri : Uri) (text : List Char) (position : Position) : List Location :=
  match wordAtPosition text position with
  | some word => referencesTo uri text word.text
  | none => []

/-- The outline of a document, one symbol per entry of the scan. -/
def outlineSymbols (uri : Uri) (text : List Char) : List OutlineSymbol :=
  (Outline.scan text).map fun entry => ⟨entry.name, entry.kind, ⟨uri, entry.range⟩⟩

end UtsInsight.Insight
