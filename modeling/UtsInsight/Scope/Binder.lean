import UtsInsight.Scope.Bindings
import UtsInsight.Scope.Pattern

/-!
# From a tree to its bindings

One walk over the tree opens the scopes and declares the names. What a node does is decided by
`enter` alone: it changes the bindings and says in which scope the constructs below it are walked,
if at all. The walk itself only passes the bindings on, from the top down and from left to right.

A function shares one scope between its parameters and its body, and so do the parameter and the
body of a catch clause. A `var` belongs to the nearest scope that is not a block; every other name
belongs to the scope in which it stands. Types are not computed here.
-/

namespace UtsInsight.Binder

/-- What a node means for scopes and declarations. -/
inductive Form where
  | variables
  | function (kind : DeclarationKind)
  | anonymousFunction
  | classDeclaration
  | classExpression
  | interface
  | typeAlias
  | enum
  | namespace (kind : DeclarationKind)
  | imports
  | block
  /-- A construct whose header and body form a block. -/
  | header
  | forIn
  | catch
  | other
  deriving DecidableEq, Repr

def form (kind : String) : Form :=
  if kind = "lexical_declaration" ∨ kind = "variable_declaration" then .variables
  else if kind = "function_declaration" ∨ kind = "generator_function_declaration" then
    .function .function
  else if kind = "function_signature" then .function .functionSignature
  else if isFunctionKind kind then .anonymousFunction
  else if kind = "class_declaration" ∨ kind = "abstract_class_declaration" then .classDeclaration
  else if kind = "class" then .classExpression
  else if kind = "interface_declaration" then .interface
  else if kind = "type_alias_declaration" then .typeAlias
  else if kind = "enum_declaration" then .enum
  else if kind = "internal_module" then .namespace .namespace
  else if kind = "module" then .namespace .module
  else if kind = "import_statement" then .imports
  else if kind = "statement_block" then .block
  else if kind = "for_statement" ∨ kind = "switch_body" then .header
  else if kind = "for_in_statement" then .forIn
  else if kind = "catch_clause" then .catch
  else .other

/-! ## Names and types of declarations -/

/-- The declaration of a name, with a body and without members or type parameters. -/
def declarationOf (source : List Char) (scope : ScopeId) (name : Node) (kind : DeclarationKind)
    (type : TypeSource) : Declaration :=
  { name := name.text source, kind, scope, nameRange := name.range, hasBody := true,
    isGeneric := false, type := "", members := [], source := type }

/-- Declares names one after another with one kind and one type. -/
def declareAll (source : List Char) (scope : ScopeId) (kind : DeclarationKind) (type : TypeSource)
    (b : Bindings) (names : List Place) : Bindings :=
  names.foldl (fun b p => b.declare (declarationOf source scope p.node kind type)) b

/-- The type of something with an optional annotation and an optional value. -/
def statedType (source : List Char) (node : Node) : TypeSource :=
  match node.child? "type", node.child? "value" with
  | some stated, _ => .fixed (stated.annotationText source)
  | none, some value => .expression (NodeRef.of value)
  | none, none => .fixed "any"

/-- Declares the names of a pattern. A single name gets the stated type, and the parts of a value
that is taken apart get the unknown type. -/
def declarePattern (source : List Char) (scope : ScopeId) (kind : DeclarationKind)
    (type : TypeSource) (b : Bindings) (pattern : Node) : Bindings :=
  declareAll source scope kind (if pattern.kind = "identifier" then type else .fixed "any") b
    (pattern.boundNames [])

/-- The member that an item of a class or interface body stands for. Constructors are not members.
-/
def memberOf? (source : List Char) (item : Node) : Option Member :=
  match item.child? "name" with
  | none => none
  | some name =>
    let text := name.text source
    let isMethod :=
      ["method_definition", "method_signature", "abstract_method_signature"].contains item.kind
    let isProperty := ["public_field_definition", "property_signature"].contains item.kind
    if text = "constructor" then none
    else if isMethod then some ⟨text, .method, "", .callable (NodeRef.of item)⟩
    else if isProperty then some ⟨text, .property, "", statedType source item⟩
    else none

/-- The members of a class or interface. -/
def membersOf (source : List Char) (node : Node) : List Member :=
  match node.child? "body" with
  | some body => body.namedChildren.filterMap (memberOf? source)
  | none => []

mutual

/-- The first identifier of a dotted name. -/
def firstIdentifier? : Node → Option Node
  | ⟨info, children⟩ =>
    if info.kind = "identifier" then some ⟨info, children⟩ else firstIdentifierBelow? children

/-- The first identifier of the first construct of a list. -/
def firstIdentifierBelow? : List Node → Option Node
  | [] => none
  | c :: cs => if c.isNamed then firstIdentifier? c else firstIdentifierBelow? cs

end

mutual

/-- The local names that an import introduces, in source order. -/
def importedNames (steps : List Step) : Node → List Place
  | ⟨info, children⟩ =>
    let node : Node := ⟨info, children⟩
    if info.kind = "import_specifier" then
      match (node.child? "alias").or (node.child? "name") with
      | some name => if name.kind = "identifier" then [⟨name, steps⟩] else []
      | none => []
    else if info.kind = "identifier" then [⟨node, steps⟩]
    else if info.kind = "string" then []
    else importedNamesBelow steps node 0 children

def importedNamesBelow (steps : List Step) (parent : Node) (index : Nat) : List Node → List Place
  | [] => []
  | c :: cs =>
    (if c.isNamed then importedNames (⟨parent, index⟩ :: steps) c else [])
      ++ importedNamesBelow steps parent (index + 1) cs

end

/-! ## Declaring -/

/-- Declares the type parameters of a construct. -/
def declareTypeParameters (source : List Char) (scope : ScopeId) (b : Bindings) (node : Node) :
    Bindings :=
  match node.child? "type_parameters" with
  | none => b
  | some parameters =>
    (parameters.namedChildren.filterMap (·.child? "name")).foldl
      (fun b name =>
        b.declare (declarationOf source scope name .typeParameter (.fixed (name.text source))))
      b

/-- Declares what a parameter binds. -/
def declareParameter (source : List Char) (scope : ScopeId) (b : Bindings) (parameter : Node) :
    Bindings :=
  if isParameterKind parameter.kind then
    match parameter.child? "pattern" with
    | some pattern =>
      declarePattern source scope .parameter (statedType source parameter) b pattern
    | none => b
  else b

/-- The keyword that a variable statement begins with. -/
def variableKind (keyword : Option Node) : DeclarationKind :=
  match keyword with
  | some k => if k.kind = "const" then .const else if k.kind = "var" then .var else .let
  | none => .let

/-- The scope that variables of a kind belong to when they are declared in a scope. -/
def variableScope (b : Bindings) (kind : DeclarationKind) (scope : ScopeId) : ScopeId :=
  if kind = .var then b.functionScope scope else scope

/-- Declares the variables of a statement. -/
def declareVariables (source : List Char) (scope : ScopeId) (b : Bindings) (node : Node) :
    Bindings :=
  let kind :=
    if node.kind = "variable_declaration" then .var
    else match node.child? "kind" with
      | some k => if k.kind = "const" then .const else .let
      | none => .let
  let target := variableScope b kind scope
  (node.namedChildren.filter (·.kind == "variable_declarator")).foldl
    (fun b declarator =>
      match declarator.child? "name" with
      | some name => declarePattern source target kind (statedType source declarator) b name
      | none => b)
    b

/-- Declares the variables of a loop over a collection, if the loop has a keyword of its own. Keys
are strings, and the type of elements is not known. -/
def declareLoopVariables (source : List Char) (scope : ScopeId) (b : Bindings) (node : Node) :
    Bindings :=
  match node.child? "kind", node.child? "left" with
  | some keyword, some left =>
    let kind := variableKind (some keyword)
    let isKeyLoop := (node.child? "operator").any (·.kind == "in")
    declareAll source (variableScope b kind scope) kind
      (.fixed (if isKeyLoop then "string" else "any")) b (left.boundNames [])
  | _, _ => b

/-- Declares the parameter of a catch clause. -/
def declareCaught (source : List Char) (scope : ScopeId) (b : Bindings) (node : Node) : Bindings :=
  match node.child? "parameter" with
  | some parameter =>
    let type := match node.child? "type" with
      | some stated => stated.annotationText source
      | none => "unknown"
    declareAll source scope .catchParameter (.fixed type) b (parameter.boundNames [])
  | none => b

/-- Declares the name of a construct that has one. -/
def declareNamed (b : Bindings) (node : Node) (declaration : Node → Declaration) : Bindings :=
  match node.child? "name" with
  | some name => b.declare (declaration name)
  | none => b

/-- Declares what the scope of a function holds before its body is walked: the name of a function
expression, type parameters and parameters. -/
def declareHead (source : List Char) (scope : ScopeId) (b : Bindings) (node : Node) : Bindings :=
  let b :=
    if ["function_expression", "function", "generator_function"].contains node.kind then
      declareNamed b node fun name =>
        declarationOf source scope name .function (.callable (NodeRef.of node))
    else b
  let b := declareTypeParameters source scope b node
  let b := match node.child? "parameter" with
    | some parameter => b.declare (declarationOf source scope parameter .parameter (.fixed "any"))
    | none => b
  match node.child? "parameters" with
  | some parameters => parameters.namedChildren.foldl (declareParameter source scope) b
  | none => b

/-- Declares a class under its name, with its members. -/
def declareClass (source : List Char) (scope : ScopeId) (b : Bindings) (node : Node) : Bindings :=
  declareNamed b node fun name =>
    { declarationOf source scope name .classType (.fixed ("typeof " ++ name.text source)) with
      members := membersOf source node }

/-! ## The walk -/

/-- The bindings after a node was entered, and the scope in which the constructs below it are
walked, if they are. The name of a function is passed over. -/
structure Descent where
  bindings : Bindings
  scope : Option ScopeId
  skipsName : Bool

/-- Opens a scope of a kind for a node inside another scope; the result's scope is the new one. -/
def openFor (b : Bindings) (kind : ScopeKind) (around : ScopeId) (node : Node) : Bindings :=
  b.openScope kind (some around) node.range

/-- Opens the scope of a function and declares what it holds. -/
def enterFunction (source : List Char) (scope : ScopeId) (b : Bindings) (node : Node) : Descent :=
  let inner := b.scopes.length
  ⟨declareHead source inner (openFor b .function scope node) node, some inner, true⟩

/-- What entering a place in a scope does. -/
def enter (source : List Char) (place : Place) (scope : ScopeId) (b : Bindings) : Descent :=
  let node := place.node
  match form node.kind with
  | .variables => ⟨declareVariables source scope b node, some scope, false⟩
  | .function kind =>
    let b := declareNamed b node fun name =>
      { declarationOf source scope name kind (.callable (NodeRef.of node)) with
        hasBody := (node.child? "body").isSome
        isGeneric := (node.child? "type_parameters").isSome }
    enterFunction source scope b node
  | .anonymousFunction => enterFunction source scope b node
  | .classDeclaration =>
    let b := declareClass source scope b node
    let inner := b.scopes.length
    ⟨declareTypeParameters source inner (openFor b .block scope node) node, some inner, false⟩
  | .classExpression =>
    let inner := b.scopes.length
    let b := declareClass source inner (openFor b .block scope node) node
    ⟨declareTypeParameters source inner b node, some inner, false⟩
  | .interface =>
    let b := declareNamed b node fun name =>
      { declarationOf source scope name .interface (.fixed (name.text source)) with
        members := membersOf source node }
    let inner := b.scopes.length
    ⟨declareTypeParameters source inner (openFor b .block scope node) node, none, false⟩
  | .typeAlias =>
    let aliased := match node.child? "value" with
      | some value => value.plainText source
      | none => "any"
    let b := declareNamed b node fun name =>
      declarationOf source scope name .typeAlias (.fixed aliased)
    let inner := b.scopes.length
    ⟨declareTypeParameters source inner (openFor b .block scope node) node, none, false⟩
  | .enum =>
    let b := declareNamed b node fun name =>
      declarationOf source scope name .enum (.fixed ("typeof " ++ name.text source))
    ⟨b, none, false⟩
  | .namespace kind =>
    let name := (node.child? "name").bind fun name =>
      if name.kind = "identifier" ∨ name.kind = "nested_identifier" then firstIdentifier? name
      else none
    let b := match name with
      | some name =>
        b.declare (declarationOf source scope name kind (.fixed ("typeof " ++ name.text source)))
      | none => b
    ⟨b, some scope, false⟩
  | .imports =>
    ⟨declareAll source scope .imported (.fixed "any") b (importedNames [] node), none, false⟩
  | .block =>
    let sharesScope :=
      place.ancestors.head?.any fun p => isFunctionKind p.kind || p.kind == "catch_clause"
    if sharesScope then ⟨b, some scope, false⟩
    else ⟨openFor b .block scope node, some b.scopes.length, false⟩
  | .header => ⟨openFor b .block scope node, some b.scopes.length, false⟩
  | .forIn =>
    let inner := b.scopes.length
    ⟨declareLoopVariables source inner (openFor b .block scope node) node, some inner, false⟩
  | .catch =>
    let inner := b.scopes.length
    ⟨declareCaught source inner (openFor b .block scope node) node, some inner, false⟩
  | .other => ⟨b, some scope, false⟩

mutual

/-- Walks over a node in a scope. -/
def walk (source : List Char) (steps : List Step) (scope : ScopeId) (b : Bindings) :
    Node → Bindings
  | ⟨info, children⟩ =>
    let node : Node := ⟨info, children⟩
    let entered := enter source ⟨node, steps⟩ scope b
    match entered.scope with
    | some inner => walkBelow source steps node 0 inner entered.skipsName entered.bindings children
    | none => entered.bindings

/-- Walks over the constructs among the children of `parent` from the given index on. With
`skipsName`, the first child in the role of the name is passed over. -/
def walkBelow (source : List Char) (steps : List Step) (parent : Node) (index : Nat)
    (scope : ScopeId) (skipsName : Bool) (b : Bindings) : List Node → Bindings
  | [] => b
  | c :: cs =>
    let isName := skipsName && c.field == some "name"
    let b := if c.isNamed && !isName then walk source (⟨parent, index⟩ :: steps) scope b c else b
    walkBelow source steps parent (index + 1) scope (skipsName && !isName) b cs

end

/-- The bindings of the document with the given tree. The constructs of the document are walked in
the scope of the whole program. -/
def bind (root : Node) (source : List Char) : Bindings :=
  walkBelow source [] root 0 0 false (Bindings.empty.openScope .program none root.range)
    root.children

end UtsInsight.Binder
