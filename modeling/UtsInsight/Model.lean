import UtsInsight.Finding.Check
import UtsInsight.Scope.Binder
import UtsInsight.Typing.Resolution

/-!
# The semantic model of a document

The model of a document holds its tree, its scopes and declarations with their types, and its
findings. It answers what a name is, which members a type has and which names are visible. A
document whose tree is nested too deeply has a model that knows nothing and answers every question
so; the features that look at the text alone still serve it.
-/

namespace UtsInsight

open Text

/-- The deepest tree that is analysed. -/
def maxModelDepth : Nat :=
  256

/-- One version of a document and what is known about it. -/
structure Model where
  text : List Char
  /-- Absent if the document could not be analysed. -/
  tree : Option Node
  bindings : Bindings
  findings : List Finding

/-- What is known about the name at a position. -/
structure NameInfo where
  name : String
  /-- The kind as a reader sees it. -/
  kind : String
  type : String
  /-- Where the name is declared. -/
  declaredAt : Span
  deriving DecidableEq, Repr

/-- A name that is visible at a position. -/
structure VisibleSymbol where
  name : String
  kind : SymbolKind
  type : String
  deriving DecidableEq, Repr

namespace Model

/-- The model of a text with the given tree. -/
def build (text : List Char) (root : Node) : Model :=
  match root.ensureDepth maxModelDepth with
  | .error _ => ⟨text, none, .empty, []⟩
  | .ok root =>
    let bindings := (Binder.bind root text).resolveTypes root text
    ⟨text, some root, bindings, check root text bindings⟩

def isAvailable (m : Model) : Bool :=
  m.tree.isSome

/-- Kinds of nodes that are names. -/
def nameKinds : List String :=
  [ "identifier", "shorthand_property_identifier", "shorthand_property_identifier_pattern",
    "type_identifier", "property_identifier" ]

/-- The place of the name that covers a byte. -/
def nameAt? (root : Node) (offset : Nat) : Option Place :=
  let p := root.placeAt offset offset []
  if nameKinds.contains p.node.kind && p.node.start ≤ offset && offset < p.node.stop then some p
  else none

/-- The place of the name that touches an offset: the one behind it, or else the one before it. -/
def nameTouching? (root : Node) (offset : Nat) : Option Place :=
  match nameAt? root offset with
  | some p => some p
  | none => if offset = 0 then none else nameAt? root (offset - 1)

/-- What is known about a declaration, with the kind and the type that its name stands for. -/
def info (m : Model) (d : Declaration) (kind type : String) : NameInfo :=
  ⟨d.name, kind, type, spanOf m.text d.nameRange⟩

/-- A name that declares or refers to a value. -/
def describeValue? (m : Model) (n : Node) : Option NameInfo := do
  let id ← (m.bindings.declarationNamedAt n.range).or
    (m.bindings.resolve (n.text m.text) n.start .value)
  let d ← m.bindings.declaration? id
  return m.info d d.kind.label d.type

/-- A name that declares or refers to a type. A reference to a class, interface or enum stands for
the type of that name. -/
def describeType? (m : Model) (n : Node) : Option NameInfo :=
  match m.bindings.declarationNamedAt n.range with
  | some id => do
    let d ← m.bindings.declaration? id
    return m.info d d.kind.label d.type
  | none => do
    let id ← m.bindings.resolve (n.text m.text) n.start .type
    let d ← m.bindings.declaration? id
    let type := if d.kind = .typeAlias ∨ d.kind = .imported then d.type else d.name
    return m.info d d.kind.label type

/-- The class or interface that a type names as seen from an offset. The type of a class itself is
looked up as a value. -/
def typeDeclaration? (m : Model) (type : String) (offset : Nat) : Option DeclId := do
  let id ← match dropPrefix? "typeof ".toList type.toList with
    | some name => m.bindings.resolve (String.ofList name) offset .value
    | none => m.bindings.resolve type offset .type
  let d ← m.bindings.declaration? id
  if d.kind = .classType ∨ d.kind = .interface then some id else none

/-- Declarations that have members. -/
def ownerKinds : List String :=
  ["class_declaration", "abstract_class_declaration", "interface_declaration"]

/-- The nearest class or interface around a place. -/
def enclosingOwner? (m : Model) (p : Place) : Option DeclId := do
  let owner ← p.ancestorOfKind? ownerKinds
  let name ← owner.child? "name"
  m.bindings.declarationNamedAt name.range

/-- The class or interface whose member a place names: that of the receiver of a member access, and
the one around the place otherwise. -/
def memberOwner? (m : Model) (p : Place) : Option DeclId := do
  let parent ← p.parent?
  if parent.node.kind = "member_expression" then
    let object ← parent.node.child? "object"
    if object.kind = "this" then m.enclosingOwner? p
    else m.typeDeclaration? (TypingContext.typeOf ⟨m.text, m.bindings⟩ object) object.start
  else m.enclosingOwner? p

/-- A name of a member. -/
def describeMember? (m : Model) (p : Place) : Option NameInfo := do
  let id ← m.memberOwner? p
  let owner ← m.bindings.declaration? id
  let member ← owner.members.find? (·.name == p.node.text m.text)
  let kind := match member.kind with
    | .method => "method"
    | .property => "property"
  return ⟨member.name, kind, member.type, spanOf m.text owner.nameRange⟩

/-- What is known about the name that touches a position. -/
def describeAt? (m : Model) (position : Position) : Option NameInfo := do
  let root ← m.tree
  let p ← nameTouching? root (offsetOf m.text position)
  if p.node.kind = "type_identifier" then m.describeType? p.node
  else if p.node.kind = "property_identifier" then m.describeMember? p
  else m.describeValue? p.node

/-- The type of the name that touches a position. -/
def typeAt? (m : Model) (position : Position) : Option String :=
  (m.describeAt? position).map (·.type)

/-- The members of the class or interface that a type names as seen from a position. -/
def membersOf (m : Model) (type : String) (position : Position) : List Member :=
  match m.typeDeclaration? type (offsetOf m.text position) with
  | some id => ((m.bindings.declaration? id).map (·.members)).getD []
  | none => []

/-- The symbols among declarations that are of one of the kinds and whose names were not met before.
A name counts as met even if its kind is not asked for. -/
def collectSymbols (kinds : List SymbolKind) (met : List String) :
    List Declaration → List VisibleSymbol
  | [] => []
  | d :: rest =>
    match d.symbolKind? with
    | none => collectSymbols kinds met rest
    | some kind =>
      if met.contains d.name then collectSymbols kinds met rest
      else if kinds.isEmpty || kinds.contains kind then
        ⟨d.name, kind, d.type⟩ :: collectSymbols kinds (d.name :: met) rest
      else collectSymbols kinds (d.name :: met) rest

/-- The declarations of the scopes around an offset, from the inside out. -/
def declarationsAround (m : Model) (offset : Nat) : List Declaration :=
  (m.bindings.scopeChain offset).flatMap fun id =>
    match m.bindings.scope? id with
    | some scope => scope.declarations.filterMap m.bindings.declaration?
    | none => []

/-- The symbols visible at a position, from the innermost scope outwards. A name that is hidden by
an inner declaration is listed once, and an empty list of kinds admits all. -/
def symbolsInScope (m : Model) (position : Position) (kinds : List SymbolKind) :
    List VisibleSymbol :=
  if m.isAvailable then
    collectSymbols kinds [] (m.declarationsAround (offsetOf m.text position))
  else []

/-- The findings for the lines and columns of the text. -/
def diagnostics (m : Model) : List Diagnostic :=
  m.findings.map (·.diagnostic m.text)

end Model

end UtsInsight
