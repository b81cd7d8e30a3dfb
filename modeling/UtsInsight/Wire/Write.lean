import UtsInsight.Session.Step

/-!
# Answers as JSON

The JSON in which an editor's protocol writes what the service says. A field without a value is left
out, enumerations are written as their numbers, and an answer that is not there is null.
-/

namespace UtsInsight.Wire

def number (n : Nat) : Json :=
  .integer n

def strings (texts : List String) : Json :=
  .array (texts.map .string)

/-- An array with one item per value. -/
def array {α : Type} (write : α → Json) (values : List α) : Json :=
  .array (values.map write)

/-- A value, or null. -/
def orNull {α : Type} (write : α → Json) : Option α → Json
  | some a => write a
  | none => .null

/-- A field that is left out if it has no value. -/
def fieldIfAny {α : Type} (name : String) (write : α → Json) : Option α → List (String × Json)
  | some a => [(name, write a)]
  | none => []

def position (p : Position) : Json :=
  .object [("line", number p.line), ("character", number p.column)]

def span (s : Span) : Json :=
  .object [("start", position s.start), ("end", position s.stop)]

def location (l : Location) : Json :=
  .object [("uri", .string l.uri), ("range", span l.range)]

def diagnostic (d : Diagnostic) : Json :=
  .object
    ([ ("range", span d.range), ("severity", number d.severity.code),
       ("message", .string d.message) ]
      ++ fieldIfAny "source" .string d.source)

/-- The number of the notation in which a template is written. -/
def templateFormat : Nat :=
  2

def completionItem (item : CompletionItem) : Json :=
  .object
    ([ ("label", .string item.label), ("kind", number item.kind.code) ]
      ++ fieldIfAny "detail" .string item.detail
      ++ fieldIfAny "documentation" .string item.documentation
      ++ fieldIfAny "insertText" .string item.insertText
      ++ if item.isTemplate then [("insertTextFormat", number templateFormat)] else [])

def hover (h : Hover) : Json :=
  .object
    [ ("contents", .object [("kind", .string "markdown"), ("value", .string h.markdown)]),
      ("range", span h.range) ]

def outlineSymbol (s : OutlineSymbol) : Json :=
  .object
    [ ("name", .string s.name), ("kind", number s.kind.outlineCode),
      ("location", location s.location) ]

def signatureHelp (h : SignatureHelp) : Json :=
  let signature : Json := .object
    ([ ("label", .string h.label),
       ("parameters", array (fun p => .object [("label", .string p)]) h.parameters) ]
      ++ fieldIfAny "documentation" .string h.documentation)
  .object
    [ ("signatures", .array [signature]), ("activeSignature", number 0),
      ("activeParameter", number h.activeParameter) ]

/-- The number of a way to send changes: edits of ranges, or whole texts. -/
def changesCode (takesEdits : Bool) : Nat :=
  if takesEdits then 2 else 1

def capabilities (c : Session.Capabilities) : Json :=
  .object
    [ ("serverInfo", .object [("name", .string c.name), ("version", .string c.version)]),
      ("capabilities", .object
        [ ("textDocumentSync", number (changesCode c.takesEdits)),
          ("completionProvider",
            .object [("triggerCharacters", strings c.completionTriggers)]),
          ("signatureHelpProvider",
            .object [("triggerCharacters", strings c.signatureTriggers)]),
          ("hoverProvider", .bool c.answersHover),
          ("definitionProvider", .bool c.answersDefinition),
          ("referencesProvider", .bool c.answersReferences),
          ("documentSymbolProvider", .bool c.answersOutline) ]) ]

def answer : Session.Answer → Json
  | .capabilities c => capabilities c
  | .done => .null
  | .completion items => orNull (array completionItem) items
  | .hover h => orNull hover h
  | .definition l => orNull location l
  | .references locations => orNull (array location) locations
  | .outline symbols => orNull (array outlineSymbol) symbols
  | .signatureHelp help => orNull signatureHelp help

/-- The field of a response that holds the reply. No response is sent if there is none. -/
def reply : Session.Reply → Option (String × Json)
  | .answer a => some ("result", answer a)
  | .refusal r =>
    some ("error", .object [("code", .integer r.code), ("message", .string r.message)])
  | .silence | .gone => none

def publication (p : Session.Publication) : Json :=
  .object
    ([ ("uri", .string p.uri), ("diagnostics", array diagnostic p.diagnostics) ]
      ++ fieldIfAny "version" .integer p.version)

end UtsInsight.Wire
