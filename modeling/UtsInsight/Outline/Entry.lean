import UtsInsight.Outline.Header
import UtsInsight.Text.Position

/-!
# The outline of a document

The outline lists the declarations that a look at each line alone can find. It never needs the
document to be well formed, so it serves while the user is in the middle of typing. Every kind of
declaration has one rule; the rules are tried on each line in a fixed order and each contributes at
most one entry. Comment lines contribute nothing, and a declaration whose keyword and name stand on
different lines is not listed.
-/

namespace UtsInsight

/-- The kinds of declared symbols. -/
inductive SymbolKind where
  | function
  | genericFunction
  | classType
  | interface
  | typeAlias
  | enum
  | namespace
  | module
  | variable
  | constant
  deriving DecidableEq, Repr

namespace SymbolKind

def all : List SymbolKind :=
  [ .function, .genericFunction, .classType, .interface, .typeAlias, .enum, .namespace, .module,
    .variable, .constant ]

def isFunction : SymbolKind → Bool
  | .function | .genericFunction => true
  | _ => false

def isVariable : SymbolKind → Bool
  | .variable | .constant => true
  | _ => false

/-- The kind as a reader sees it. -/
def label : SymbolKind → String
  | .function => "function"
  | .genericFunction => "generic function"
  | .classType => "class"
  | .interface => "interface"
  | .typeAlias => "type alias"
  | .enum => "enum"
  | .namespace => "namespace"
  | .module => "module"
  | .variable => "variable"
  | .constant => "constant"

end SymbolKind

namespace Outline

open UtsInsight.Text

/-- One declaration of the outline. -/
structure Entry where
  name : String
  kind : SymbolKind
  /-- The declaring line without the blanks around it. -/
  range : Span
  /-- The name alone. -/
  selection : Span
  /-- Column of the introducing keyword. -/
  keywordColumn : Nat
  /-- Annotation, return type or aliased type as written. -/
  declaredType : Option String
  /-- Right-hand side of a variable. -/
  initializer : Option String
  /-- Header text from the keyword through the type. -/
  signature : String
  deriving DecidableEq, Repr

/-- Line of the declaration. -/
def Entry.line (e : Entry) : Nat :=
  e.range.start.line

/-- One way to recognise a declaration on a line. -/
structure Rule where
  kind : SymbolKind
  read : List Char → Option Header

/-- The rules in the order in which they are tried on a line. -/
def rules : List Rule :=
  [ ⟨.genericFunction, genericFunctionHeader?⟩,
    ⟨.function, functionHeader?⟩,
    ⟨.classType, typeHeader? "class"⟩,
    ⟨.interface, typeHeader? "interface"⟩,
    ⟨.typeAlias, aliasHeader?⟩,
    ⟨.enum, plainHeader? "enum"⟩,
    ⟨.namespace, namespaceHeader?⟩,
    ⟨.module, plainHeader? "module"⟩,
    ⟨.variable, variableHeader?⟩ ]

/-- Whether a line opens, continues or is a comment. -/
def isCommentLine (line : List Char) : Bool :=
  let text := trimStart line
  "//".toList.isPrefixOf text || "/*".toList.isPrefixOf text || "*".toList.isPrefixOf text

/-- The entry for a header found on a line behind the text `before`. -/
def entryOf (kind : SymbolKind) (lineNumber : Nat) (line before : List Char) (h : Header) : Entry :=
  let keywordColumn := unitLength before
  let nameColumn := keywordColumn + unitLength h.keyword + unitLength h.gap
  { name := String.ofList h.name
    kind := if kind = .variable ∧ h.keyword = "const".toList then .constant else kind
    range :=
      ⟨⟨lineNumber, unitLength (line.takeWhile isBlank)⟩, ⟨lineNumber, unitLength (trimEnd line)⟩⟩
    selection := ⟨⟨lineNumber, nameColumn⟩, ⟨lineNumber, nameColumn + unitLength h.name⟩⟩
    keywordColumn
    declaredType := h.declaredType.map String.ofList
    initializer := h.initializer.map String.ofList
    signature := String.ofList (trim h.text) }

/-- What one rule finds on a line. -/
def Rule.entry? (rule : Rule) (lineNumber : Nat) (line : List Char) : Option Entry :=
  (search rule.read line).map fun (before, h) => entryOf rule.kind lineNumber line before h

/-- The entries of one line in rule order. -/
def scanLine (lineNumber : Nat) (line : List Char) : List Entry :=
  if isCommentLine line then [] else rules.filterMap fun rule => rule.entry? lineNumber line

/-- The entries of consecutive lines, the first of which has the given number. -/
def scanLines : Nat → List (List Char) → List Entry
  | _, [] => []
  | n, line :: rest => scanLine n line ++ scanLines (n + 1) rest

/-- The outline of a document, by line and then by rule. -/
def scan (text : List Char) : List Entry :=
  scanLines 0 (contentLines text)

/-- The first entry of the given name and one of the given kinds among consecutive lines. Lines that
do not contain the name are passed over without being read. -/
def findInLines (name : String) (kinds : List SymbolKind) : Nat → List (List Char) → Option Entry
  | _, [] => none
  | n, line :: rest =>
    let here :=
      if contains name.toList line then
        (scanLine n line).find? fun e => e.name == name && kinds.contains e.kind
      else none
    match here with
    | some e => some e
    | none => findInLines name kinds (n + 1) rest

/-- The first declaration of a name with one of the given kinds, from top to bottom. -/
def find? (text : List Char) (name : String) (kinds : List SymbolKind) : Option Entry :=
  findInLines name kinds 0 (contentLines text)

end Outline

end UtsInsight
