import UtsInsight.Insight.Source

/-!
# Tooltips

A tooltip describes the word under the cursor by the first source that can. It is a row of sections:
a title, the signature as code, the documentation, and the line of the declaration.
-/

namespace UtsInsight.Insight

open UtsInsight.Text

/-- A section of a tooltip. -/
inductive HoverSection where
  | title (name kind : String)
  | code (text : String)
  | note (text : String)
  deriving DecidableEq, Repr

/-- A section in Markdown. -/
def HoverSection.markdown : HoverSection → String
  | .title name kind => "**" ++ name ++ "** - " ++ kind
  | .code text => "\x60\x60\x60uts\n" ++ text ++ "\n\x60\x60\x60"
  | .note text => text

/-- Sections in Markdown, with an empty line between them. -/
def renderSections (sections : List HoverSection) : String :=
  "\n\n".intercalate (sections.map (·.markdown))

/-- The note about the line of a declaration. Lines are counted from one for the reader. -/
def declaredOn (line : Nat) : HoverSection :=
  .note ("Declared on line " ++ toString (line + 1) ++ ".")

/-- The sections that describe a topic. -/
def Topic.sections (t : Topic) : List HoverSection :=
  .title t.name t.kind.label
    :: (t.signature.map HoverSection.code).toList
    ++ (t.documentation.map HoverSection.note).toList
    ++ (t.line.map declaredOn).toList

/-- The tooltip for the word at a position. -/
def hover (text : List Char) (position : Position) (model : Model) : Option Hover := do
  let query := Query.at text position model
  let word ← wordAt query.line position.column
  let topic ← firstDescription? query word descriptionSources
  return ⟨renderSections topic.sections,
    ⟨⟨position.line, word.start⟩, ⟨position.line, word.stop⟩⟩⟩

end UtsInsight.Insight
