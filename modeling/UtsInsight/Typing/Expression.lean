import UtsInsight.Scope.Bindings
import UtsInsight.Syntax.Kinds
import UtsInsight.Typing.TypeText
import UtsInsight.Vocabulary.Signatures

/-!
# Types of expressions

The type of an expression follows from its form. Literals have their widened type, a name the type
of its declaration, a call the return type of its callee, and a function a signature made of its
annotations, with a return type inferred from the first `return` with a value that is its own.

The types of declarations are asked for by a look-up that may have effects, because a declaration
may not have its type yet. The recursion is on the tree alone; what the look-up does is its own
concern. Expressions nested deeper than a fixed limit have the unknown type.
-/

namespace UtsInsight

/-- The forms of expressions that are told apart. -/
inductive ExpressionForm where
  /-- A form whose type does not depend on what is in it. -/
  | literal (type : String)
  | array
  | identifier
  | construction
  | call
  | function
  /-- An expression that has the type of its last construct. -/
  | group
  | cast
  | await
  | assignment
  | unary
  | ternary
  | binary
  | other
  deriving DecidableEq, Repr

def expressionForm (kind : String) : ExpressionForm :=
  if kind = "string" ∨ kind = "template_string" then .literal "string"
  else if kind = "number" then .literal "number"
  else if kind = "true" ∨ kind = "false" then .literal "boolean"
  else if kind = "null" then .literal "null"
  else if kind = "undefined" then .literal "undefined"
  else if kind = "regex" then .literal "RegExp"
  else if kind = "object" then .literal objectType
  else if kind = "array" then .array
  else if kind = "identifier" then .identifier
  else if kind = "new_expression" then .construction
  else if kind = "call_expression" then .call
  else if isFunctionKind kind then .function
  else if kind = "parenthesized_expression" ∨ kind = "non_null_expression"
      ∨ kind = "sequence_expression" then .group
  else if kind = "as_expression" ∨ kind = "satisfies_expression" then .cast
  else if kind = "await_expression" then .await
  else if kind = "assignment_expression" then .assignment
  else if kind = "unary_expression" then .unary
  else if kind = "update_expression" then .literal "number"
  else if kind = "ternary_expression" then .ternary
  else if kind = "binary_expression" then .binary
  else .other

/-- The type of a unary expression. -/
def unaryType (operator : Option String) : String :=
  match operator with
  | some "!" | some "delete" => "boolean"
  | some "typeof" => "string"
  | some "void" => "undefined"
  | some "-" | some "+" | some "~" => "number"
  | _ => unknownType

/-- What the type of a binary expression depends on. -/
inductive BinaryForm where
  /-- A type of its own. -/
  | fixed (type : String)
  /-- The sum of both sides, or their concatenation. -/
  | sum
  /-- Either side. -/
  | choice
  deriving DecidableEq, Repr

def binaryForm (operator : String) : BinaryForm :=
  if ["==", "===", "!=", "!==", "<", ">", "<=", ">=", "instanceof", "in"].contains operator then
    .fixed "boolean"
  else if ["-", "*", "/", "%", "**", "&", "|", "^", "<<", ">>", ">>>"].contains operator then
    .fixed "number"
  else if operator = "+" then .sum
  else if ["&&", "||", "??"].contains operator then .choice
  else .fixed unknownType

/-- The type of a sum. -/
def sumType (left right : String) : String :=
  if left = "string" ∨ right = "string" then "string"
  else if left = "number" ∧ right = "number" then "number"
  else unknownType

/-- A function type from its parts. -/
def functionType (typeParameters : String) (parameters : List String) (returnType : String) :
    String :=
  typeParameters ++ "(" ++ ", ".intercalate parameters ++ ") => " ++ returnType

/-- The document that expressions belong to. -/
structure TypingContext where
  source : List Char
  bindings : Bindings

/-- The greatest nesting of expressions that are looked into. -/
def maxExpressionDepth : Nat :=
  32

namespace TypingContext

/-- The kind of the child in a role. -/
def kindOfChild (node : Node) (role : String) : Option String :=
  (node.child? role).map (·.kind)

/-- The return type of a method of the class or interface that a receiver's type names, as far as
the method has a type. -/
def methodReturnType (context : TypingContext) (receiver property : String) (offset : Nat) :
    String :=
  let found := do
    let id ← context.bindings.resolve (instanceName receiver) offset .type
    let owner ← context.bindings.declaration? id
    let member ← owner.members.find? (·.name == property)
    if member.kind = .method ∧ member.type ≠ "" then returnTypeOf member.type.toList else none
  match found with
  | some type => String.ofList type
  | none => unknownType

end TypingContext

section

variable {m : Type → Type} [Monad m] (context : TypingContext) (lookup : DeclId → m String)

/-- The signature of a function, given how to compute its written parameters and the return type
inferred from its body. The body is looked into only if the return type is not annotated. -/
def signatureFrom (node : Node) (parameters : m (List String)) (inferred : m String) :
    m String := do
  let typeParameters := ((node.child? "type_parameters").map (·.plainText context.source)).getD ""
  let written ←
    if (node.child? "parameters").isSome then parameters
    else match node.child? "parameter" with
      | some parameter => pure [parameter.text context.source ++ ": any"]
      | none => pure []
  match node.child? "return_type" with
  | some stated =>
    return functionType typeParameters written (stated.annotationText context.source)
  | none =>
    let type ← inferred
    let isAsync := node.children.any (·.kind == "async")
    return functionType typeParameters written
      (if isAsync then "Promise<" ++ type ++ ">" else type)

mutual

/-- The type of an expression. `depth` is its nesting so far. -/
def typeOfExpression (depth : Nat) : Node → m String
  | ⟨info, children⟩ =>
    let node : Node := ⟨info, children⟩
    if maxExpressionDepth < depth then pure unknownType
    else match expressionForm info.kind with
      | .literal type => pure type
      | .array => do return arrayOf (← typesOfElements (depth + 1) children)
      | .identifier =>
        let name := node.text context.source
        match context.bindings.resolve name info.start .value with
        | some id => lookup id
        | none => pure (if name = "undefined" then "undefined" else unknownType)
      | .construction =>
        match node.child? "constructor" with
        | some constructor => pure (constructor.plainText context.source)
        | none => pure unknownType
      | .call => typeOfCall depth children
      | .function =>
        signatureFrom context node (parametersOfCallable (depth + 1) children)
          (typeOfBody (depth + 1) children)
      | .group => typeOfLast (depth + 1) children
      | .cast =>
        match node.namedChildren with
        | [_, target] => pure (target.plainText context.source)
        | [_] => do return (← typeOfFirst? (depth + 1) children).getD unknownType
        | _ => pure unknownType
      | .await => do
        return awaitedType ((← typeOfFirst? (depth + 1) children).getD unknownType)
      | .assignment => do return (← typeOfChild? "right" (depth + 1) children).getD unknownType
      | .unary => pure (unaryType (TypingContext.kindOfChild node "operator"))
      | .ternary => do
        let consequence ← typeOfChild? "consequence" (depth + 1) children
        let alternative ← typeOfChild? "alternative" (depth + 1) children
        match consequence, alternative with
        | some a, some b => return unionType [a, b]
        | _, _ => return unknownType
      | .binary =>
        match binaryForm ((TypingContext.kindOfChild node "operator").getD "") with
        | .fixed type => pure type
        | .sum => do
          let left := (← typeOfChild? "left" (depth + 1) children).getD unknownType
          let right := (← typeOfChild? "right" (depth + 1) children).getD unknownType
          return sumType left right
        | .choice => do
          let left := (← typeOfChild? "left" (depth + 1) children).getD unknownType
          let right := (← typeOfChild? "right" (depth + 1) children).getD unknownType
          return unionType [left, right]
      | .other => pure unknownType

/-- The types of the elements of an array. Comments are no elements, and the elements that a spread
contributes are not known. -/
def typesOfElements (depth : Nat) : List Node → m (List String)
  | [] => pure []
  | c :: cs =>
    if !c.isNamed || c.kind == "comment" then typesOfElements depth cs
    else do
      let type ← if c.kind == "spread_element" then pure unknownType else typeOfExpression depth c
      return type :: (← typesOfElements depth cs)

/-- The type of the first child in a role. -/
def typeOfChild? (role : String) (depth : Nat) : List Node → m (Option String)
  | [] => pure none
  | c :: cs =>
    if c.field == some role then do return some (← typeOfExpression depth c)
    else typeOfChild? role depth cs

/-- The type of the first construct. -/
def typeOfFirst? (depth : Nat) : List Node → m (Option String)
  | [] => pure none
  | c :: cs =>
    if c.isNamed then do return some (← typeOfExpression depth c) else typeOfFirst? depth cs

/-- The type of the last construct. -/
def typeOfLast (depth : Nat) : List Node → m String
  | [] => pure unknownType
  | c :: cs =>
    if c.isNamed && !cs.any (·.isNamed) then typeOfExpression depth c else typeOfLast depth cs

/-- The type of a call with the given children. -/
def typeOfCall (depth : Nat) : List Node → m String
  | [] => pure unknownType
  | c :: cs =>
    if c.field == some "function" then typeOfCallee depth c else typeOfCall depth cs

/-- The type that calling an expression gives: the return type of the function that a name refers
to, of a built-in function, or of a method of a declared class. -/
def typeOfCallee (depth : Nat) : Node → m String
  | ⟨info, children⟩ =>
    let callee : Node := ⟨info, children⟩
    if info.kind = "identifier" then
      let name := callee.text context.source
      match context.bindings.resolve name info.start .value with
      | some id => do return returnTypeOrUnknown (← lookup id)
      | none =>
        match Vocabulary.signature? name with
        | some signature => pure signature.returnType
        | none => pure unknownType
    else if info.kind = "member_expression" then
      match Vocabulary.signature? (callee.plainText context.source) with
      | some signature => pure signature.returnType
      | none =>
        match callee.child? "property" with
        | some property => do
          match ← typeOfChild? "object" (depth + 1) children with
          | some receiver =>
            return context.methodReturnType receiver (property.text context.source) info.start
          | none => return unknownType
        | none => pure unknownType
    else pure unknownType

/-- The written parameters of a function with the given children. -/
def parametersOfCallable (depth : Nat) : List Node → m (List String)
  | [] => pure []
  | ⟨info, children⟩ :: cs =>
    if info.field == some "parameters" then writtenParameters depth children
    else parametersOfCallable depth cs

/-- The written parameters among the children of a parameter list. -/
def writtenParameters (depth : Nat) : List Node → m (List String)
  | [] => pure []
  | ⟨info, children⟩ :: cs =>
    if info.isNamed && isParameterKind info.kind then do
      let parameter : Node := ⟨info, children⟩
      let pattern := ((parameter.child? "pattern").map (·.plainText context.source)).getD ""
      let mark := if info.kind == "optional_parameter" then "?" else ""
      let type ← match parameter.child? "type" with
        | some stated => pure (stated.annotationText context.source)
        | none => do pure ((← typeOfChild? "value" (depth + 1) children).getD unknownType)
      return (pattern ++ mark ++ ": " ++ type) :: (← writtenParameters depth cs)
    else writtenParameters depth cs

/-- The return type inferred from the body of a function with the given children. -/
def typeOfBody (depth : Nat) : List Node → m String
  | [] => pure unknownType
  | ⟨info, children⟩ :: cs =>
    if info.field == some "body" then
      if info.kind = "statement_block" then
        match firstReturnBelow? depth children with
        | some type => type
        | none => pure "void"
      else typeOfExpression (depth + 1) ⟨info, children⟩
    else typeOfBody depth cs

/-- How to compute the type of the first returned value at or below a node. Nested functions and
classes return values of their own. -/
def firstReturn? (depth : Nat) : Node → Option (m String)
  | ⟨info, children⟩ =>
    if info.kind = "return_statement" then returned? depth children
    else if isFunctionKind info.kind || info.kind == "class_body" then none
    else firstReturnBelow? depth children

/-- The first returned value at or below the constructs of a list. -/
def firstReturnBelow? (depth : Nat) : List Node → Option (m String)
  | [] => none
  | c :: cs =>
    if c.isNamed then
      match firstReturn? depth c with
      | some type => some type
      | none => firstReturnBelow? depth cs
    else firstReturnBelow? depth cs

/-- The value of a `return` with the given children. -/
def returned? (depth : Nat) : List Node → Option (m String)
  | [] => none
  | c :: cs => if c.isNamed then some (typeOfExpression (depth + 1) c) else returned? depth cs

end

/-- The signature of a function. -/
def typeOfCallable (depth : Nat) (node : Node) : m String :=
  signatureFrom context node (parametersOfCallable context lookup depth node.children)
    (typeOfBody context lookup depth node.children)

end

end UtsInsight
