import UtsInsight.Insight.Call
import UtsInsight.Insight.Source
import UtsInsight.Vocabulary.Snippets

/-!
# Completion

What is offered depends on the context of the cursor. Behind the dot of a known receiver its members
are offered, in a type position the built-in types, and at the opening parenthesis of a built-in
function its signature, which inserts nothing. In every other case the default list is offered: the
vocabulary of the language and the templates in their fixed order, then the names visible in the
document if they are wanted. No two items of a list share label and kind.
-/

namespace UtsInsight.Insight

open UtsInsight.Text

/-- A word of the vocabulary. -/
def vocabularyItem (kind : CompletionKind) (detail label : String) : CompletionItem :=
  { label, kind, detail := some detail }

def typeItems : List CompletionItem :=
  Vocabulary.types.map fun entry =>
    { vocabularyItem .typeParameter "UTS type" entry.name with
      documentation := some entry.description }

/-- A template. -/
def snippetItem (snippet : Vocabulary.Snippet) : CompletionItem :=
  { vocabularyItem .snippet snippet.detail snippet.label with
    insertText := some snippet.template
    isTemplate := true }

/-- The items that every default list begins with. -/
def vocabularyItems : List CompletionItem :=
  Vocabulary.keywords.map (vocabularyItem .keyword "UTS keyword")
    ++ typeItems
    ++ Vocabulary.controlKeywords.map (vocabularyItem .keyword "UTS control keyword")
    ++ Vocabulary.builtinFunctions.map (vocabularyItem .function "UTS built-in function")
    ++ Vocabulary.snippets.map snippetItem

/-- A name visible in the document. -/
def symbolItem (symbol : VisibleSymbol) : CompletionItem :=
  { label := symbol.name, kind := symbol.kind.completionKind, detail := some symbol.type }

/-- The default list at a position, before repeated items are dropped. -/
def defaultItems (position : Position) (model : Model) (localSymbols : Bool) :
    List CompletionItem :=
  vocabularyItems
    ++ if localSymbols then (model.symbolsInScope position []).map symbolItem else []

/-- A member behind a receiver. -/
def memberItem (t : Topic) : CompletionItem :=
  { label := t.name, kind := t.kind.completionKind, detail := t.signature
    documentation := t.documentation }

/-- The signature of a built-in function, shown at its opening parenthesis. -/
def signatureItem (s : Vocabulary.Signature) : CompletionItem :=
  { label := s.label, kind := .function, detail := some (s.name ++ " signature")
    documentation := some s.description, insertText := some "" }

/-- The built-in signature for a callee, looked up with its receiver first. -/
def calleeSignature? (receiver : Option String) (callee : String) :
    Option Vocabulary.Signature :=
  (Vocabulary.signature? (qualified receiver callee)).or (Vocabulary.signature? callee)

/-- The items for a context, before repeated ones are dropped. -/
def itemsFor (query : Query) (localSymbols : Bool) (context : Context) : List CompletionItem :=
  let fallback := defaultItems query.position query.model localSymbols
  match context with
  | .member receiver =>
    let members := firstMembers query receiver memberSources
    if members.isEmpty then fallback else members.map memberItem
  | .type => typeItems
  | .call callee receiver =>
    match calleeSignature? receiver callee with
    | some s => [signatureItem s]
    | none => fallback
  | .default => fallback

/-- Drops the items whose label and kind occur earlier or among those already seen. -/
def dropRepeated (seen : List (String × CompletionKind)) :
    List CompletionItem → List CompletionItem
  | [] => []
  | item :: rest =>
    let key := (item.label, item.kind)
    if seen.contains key then dropRepeated seen rest else item :: dropRepeated (key :: seen) rest

/-- The completion list at a position. -/
def complete (text : List Char) (position : Position) (model : Model) (localSymbols : Bool) :
    List CompletionItem :=
  let query := Query.at text position model
  dropRepeated [] (itemsFor query localSymbols (classify query.line position.column))

end UtsInsight.Insight
