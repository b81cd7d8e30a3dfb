import UtsInsight.Insight.Protocol
import UtsInsight.Vocabulary.Words

/-!
# Advisory annotations

Besides the findings of the analysis a document gets informational notes, line by line and from the
text alone: the platform types it mentions, its decorators, its generic parameter lists, and the
first use of each declaration keyword of a line. Strings and comments are not told apart from code.
-/

namespace UtsInsight.Insight

open UtsInsight.Text

/-- The name under which all diagnostics of this service appear. -/
def diagnosticSource : String :=
  "UTS Language Server"

/-- A stretch of a line: the text before it, its own text, and the detail of the note. -/
structure Mention where
  before : List Char
  text : List Char
  detail : List Char
  deriving DecidableEq, Repr

/-- The note for a stretch of a line. -/
def Mention.note (m : Mention) (lineNumber : Nat) (label : String) : Diagnostic :=
  let start := unitLength m.before
  { range := ⟨⟨lineNumber, start⟩, ⟨lineNumber, start + unitLength m.text⟩⟩
    severity := .information
    message := label ++ ": " ++ String.ofList m.detail
    source := some diagnosticSource }

/-- Collects what `read` finds at each place of a line from left to right; `passed` holds the
characters before the place, backwards. -/
def mentionsFrom (read : List Char → List Char → Option Mention) (passed : List Char) :
    List Char → List Mention
  | [] => []
  | c :: cs => (read passed (c :: cs)).toList ++ mentionsFrom read (c :: passed) cs

/-- A word that no word character continues on either side. -/
def wholeWord? (word passed rest : List Char) : Option Mention :=
  if passed.head?.any isWord then none
  else match dropPrefix? word rest with
    | some after => if after.head?.any isWord then none else some ⟨passed.reverse, word, word⟩
    | none => none

/-- An at sign and the word behind it. -/
def decorator? (passed rest : List Char) : Option Mention :=
  match rest with
  | '@' :: after =>
    let name := after.takeWhile isWord
    if name.isEmpty then none else some ⟨passed.reverse, '@' :: name, name⟩
  | _ => none

/-- The generic parameter lists of the rest of a line: an opening angle bracket and the text up to
the next closing one, which must not be empty. The first argument counts the characters that the
list before still covers. -/
def genericListsFrom : Nat → List Char → List Char → List Mention
  | _, _, [] => []
  | covered + 1, passed, c :: cs => genericListsFrom covered (c :: passed) cs
  | 0, passed, c :: cs =>
    let inner := cs.takeWhile (· != '>')
    if c = '<' ∧ inner ≠ [] ∧ inner.length < cs.length then
      ⟨passed.reverse, '<' :: inner ++ ['>'], inner⟩ ::
        genericListsFrom (inner.length + 1) (c :: passed) cs
    else genericListsFrom 0 (c :: passed) cs

/-- A declaration keyword at a word boundary, a gap and a word. The stretch is the keyword. -/
def keywordUse? (keyword : String) (passed rest : List Char) : Option Mention :=
  if passed.head?.any isWord then none
  else match dropPrefix? keyword.toList rest with
    | some after =>
      let name := (trimStart after).takeWhile isWord
      if after.head?.any isBlank && !name.isEmpty then
        some ⟨passed.reverse, keyword.toList, name⟩
      else none
    | none => none

/-- Declaration keywords with the label of their notes. -/
def notedKeywords : List (String × String) :=
  [ ("class", "UTS class definition"),
    ("function", "UTS function definition"),
    ("interface", "UTS interface definition"),
    ("type", "UTS type alias"),
    ("enum", "UTS enum definition"),
    ("namespace", "UTS namespace"),
    ("module", "UTS module") ]

/-- The notes for one line. -/
def advisoryLine (lineNumber : Nat) (line : List Char) : List Diagnostic :=
  (Vocabulary.customTypes.flatMap fun type =>
      (mentionsFrom (wholeWord? type.toList) [] line).map fun m => m.note lineNumber "UTS type")
    ++ (mentionsFrom decorator? [] line).map (fun m => m.note lineNumber "Decorator")
    ++ (genericListsFrom 0 [] line).map (fun m => m.note lineNumber "Generic parameters")
    ++ notedKeywords.filterMap fun (keyword, label) =>
      (mentionsFrom (keywordUse? keyword) [] line).head?.map fun m => m.note lineNumber label

/-- The notes for consecutive lines, the first of which has the given number. -/
def advisoryLines : Nat → List (List Char) → List Diagnostic
  | _, [] => []
  | n, line :: rest => advisoryLine n line ++ advisoryLines (n + 1) rest

/-- The notes for a document. -/
def advisoryDiagnostics (text : List Char) : List Diagnostic :=
  advisoryLines 0 (contentLines text)

end UtsInsight.Insight
