import UtsInsight.Outline.Entry
import UtsInsight.Registry

/-!
# What an editor receives

The answers of the language service as an editor's protocol shapes them. Enumerations are types of
their own and have the number that stands for them on the wire.
-/

namespace UtsInsight

/-- Kinds of completion items. -/
inductive CompletionKind where
  | method
  | function
  | variable
  | classType
  | interface
  | module
  | property
  | enum
  | keyword
  | snippet
  | constant
  | typeParameter
  deriving DecidableEq, Repr

def CompletionKind.code : CompletionKind → Nat
  | .method => 2
  | .function => 3
  | .variable => 6
  | .classType => 7
  | .interface => 8
  | .module => 9
  | .property => 10
  | .enum => 13
  | .keyword => 14
  | .snippet => 15
  | .constant => 21
  | .typeParameter => 25

/-- The kind under which a declared symbol is completed. -/
def SymbolKind.completionKind : SymbolKind → CompletionKind
  | .function | .genericFunction => .function
  | .classType => .classType
  | .interface => .interface
  | .typeAlias => .typeParameter
  | .enum => .enum
  | .namespace | .module => .module
  | .variable => .variable
  | .constant => .constant

/-- The number under which a declared symbol appears in an outline. -/
def SymbolKind.outlineCode : SymbolKind → Nat
  | .function | .genericFunction => 12
  | .classType => 5
  | .interface => 11
  | .typeAlias => 26
  | .enum => 10
  | .namespace => 3
  | .module => 2
  | .variable => 13
  | .constant => 14

/-- An item of a completion list. -/
structure CompletionItem where
  label : String
  kind : CompletionKind
  detail : Option String := none
  documentation : Option String := none
  /-- Text that accepting the item inserts, where it is not the label. -/
  insertText : Option String := none
  /-- Whether the inserted text has tab stops. -/
  isTemplate : Bool := false
  deriving DecidableEq, Repr

/-- How serious a diagnostic is to the user. -/
inductive Severity where
  | error
  | warning
  | information
  deriving DecidableEq, Repr

def Severity.code : Severity → Nat
  | .error => 1
  | .warning => 2
  | .information => 3

/-- A message about a range of a document. -/
structure Diagnostic where
  range : Span
  severity : Severity
  message : String
  source : Option String := none
  deriving DecidableEq, Repr

/-- A tooltip in Markdown for a range of a document. -/
structure Hover where
  markdown : String
  range : Span
  deriving DecidableEq, Repr

/-- A range of a document. -/
structure Location where
  uri : Uri
  range : Span
  deriving DecidableEq, Repr

/-- A line of the outline. -/
structure OutlineSymbol where
  name : String
  kind : SymbolKind
  location : Location
  deriving DecidableEq, Repr

/-- The signature of the call around the cursor. -/
structure SignatureHelp where
  label : String
  parameters : List String
  documentation : Option String
  activeParameter : Nat
  deriving DecidableEq, Repr

end UtsInsight
