import UtsInsight.Outline.Entry
import UtsInsight.Syntax.Place

/-!
# Declarations

A declaration gives a name to a value, a type or both. It records where its name stands, in which
scope it is visible, and how its type can be computed once all declarations of the document are
known.
-/

namespace UtsInsight

abbrev ScopeId := Nat

abbrev DeclId := Nat

/-- The ways to declare a name. -/
inductive DeclarationKind where
  | let
  | const
  | var
  | parameter
  | catchParameter
  | function
  /-- An overload without a body. -/
  | functionSignature
  | classType
  | interface
  | typeAlias
  | enum
  | namespace
  | module
  | imported
  | typeParameter
  deriving DecidableEq, Repr

namespace DeclarationKind

/-- Whether expressions can refer to the name. -/
def inValueSpace : DeclarationKind → Bool
  | .interface | .typeAlias | .typeParameter => false
  | _ => true

/-- Whether types can refer to the name. -/
def inTypeSpace : DeclarationKind → Bool
  | .classType | .interface | .typeAlias | .enum | .typeParameter | .imported | .namespace => true
  | _ => false

def isBlockScoped : DeclarationKind → Bool
  | .let | .const => true
  | _ => false

/-- The kind as a reader sees it. -/
def label : DeclarationKind → String
  | .let | .var => "variable"
  | .const => "constant"
  | .parameter | .catchParameter => "parameter"
  | .function | .functionSignature => "function"
  | .classType => "class"
  | .interface => "interface"
  | .typeAlias => "type alias"
  | .enum => "enum"
  | .namespace => "namespace"
  | .module => "module"
  | .imported => "import"
  | .typeParameter => "type parameter"

end DeclarationKind

/-- How the type of a declaration is computed. -/
inductive TypeSource where
  /-- It is known, from an annotation or from the declaration itself. -/
  | fixed (type : String)
  /-- It is the type of an initializer. -/
  | expression (node : NodeRef)
  /-- It is the signature of a function. -/
  | callable (node : NodeRef)
  deriving DecidableEq, Repr

inductive MemberKind where
  | property
  | method
  deriving DecidableEq, Repr

/-- A property or method of a class or interface. -/
structure Member where
  name : String
  kind : MemberKind
  /-- The type, empty as long as it has not been computed. -/
  type : String
  source : TypeSource
  deriving DecidableEq, Repr

structure Declaration where
  name : String
  kind : DeclarationKind
  scope : ScopeId
  nameRange : ByteSpan
  /-- False for overloads. -/
  hasBody : Bool
  /-- Whether the declaration has type parameters. -/
  isGeneric : Bool
  /-- The type, empty as long as it has not been computed. -/
  type : String
  members : List Member
  source : TypeSource
  deriving DecidableEq, Repr

/-- The kind of symbol that editors list the declaration as; type parameters are not listed. -/
def Declaration.symbolKind? (d : Declaration) : Option SymbolKind :=
  match d.kind with
  | .function | .functionSignature => some (if d.isGeneric then .genericFunction else .function)
  | .classType => some .classType
  | .interface => some .interface
  | .typeAlias => some .typeAlias
  | .enum => some .enum
  | .namespace => some .namespace
  | .module => some .module
  | .const => some .constant
  | .let | .var | .parameter | .catchParameter | .imported => some .variable
  | .typeParameter => none

end UtsInsight
