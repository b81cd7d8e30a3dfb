import UtsInsight.Finding.Basic
import UtsInsight.Syntax.Kinds
import UtsInsight.Syntax.Place

/-!
# Statements that cannot be right

Two checks on statements. A literal given to a variable or returned from a function must fit the
annotation, if the annotation is one of the primitive types. Statements behind one that leaves the
block cannot be reached, except for functions, which are declared before the block runs.
-/

namespace UtsInsight

/-- The types whose literals are checked. -/
def primitiveTypes : List String :=
  ["string", "number", "boolean"]

/-- The widened type of a literal. -/
def Node.literalType? (n : Node) (source : List Char) : Option String :=
  if n.kind = "string" ∨ n.kind = "template_string" then some "string"
  else if n.kind = "number" then some "number"
  else if n.kind = "true" ∨ n.kind = "false" then some "boolean"
  else if n.kind = "null" then some "null"
  else if n.kind = "undefined" then some "undefined"
  else if n.kind = "identifier" ∧ n.text source = "undefined" then some "undefined"
  else none

/-- What is wrong with a literal where a type is expected. -/
def mismatch? (expected : String) (value : Node) (source : List Char) : Option Problem :=
  if primitiveTypes.contains expected then
    match value.literalType? source with
    | some actual => if actual = expected then none else some (.notAssignable actual expected)
    | none => none
  else none

/-- The finding for an annotated variable and its initializer, at the variable. -/
def initializerMismatch? (declarator : Node) (source : List Char) : Option Finding := do
  let name ← declarator.child? "name"
  let stated ← declarator.child? "type"
  let value ← declarator.child? "value"
  let problem ← mismatch? (stated.annotationText source) value source
  return ⟨name.range, problem⟩

/-- The finding for a returned value and the annotated return type of the function around it, at the
value. -/
def returnMismatch? (statement : Place) (source : List Char) : Option Finding := do
  let value ← statement.node.namedChildren.head?
  let function ← statement.ancestorOfKind? functionKinds
  let stated ← function.child? "return_type"
  let problem ← mismatch? (stated.annotationText source) value source
  return ⟨value.range, problem⟩

/-- Statements that leave the block they stand in. -/
def leavesBlock (kind : String) : Bool :=
  ["return_statement", "throw_statement", "break_statement", "continue_statement"].contains kind

/-- The statements of a block that are behind one that leaves it and are not functions. -/
def unreachableStatements (block : Node) : List Node :=
  let statements :=
    block.namedChildren.filter fun n => n.kind != "comment" && n.kind != "empty_statement"
  let behind := (statements.dropWhile fun n => !leavesBlock n.kind).drop 1
  behind.filter fun n => n.kind != "function_declaration"

/-- The finding for the statements of a block that cannot be reached: one range from the first to
the last of them. -/
def unreachable? (block : Node) : Option Finding :=
  match (unreachableStatements block).head?, (unreachableStatements block).getLast? with
  | some first, some last => some ⟨⟨first.start, last.stop⟩, .unreachable⟩
  | _, _ => none

end UtsInsight
