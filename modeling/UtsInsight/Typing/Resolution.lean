import UtsInsight.Typing.Expression

/-!
# Types of declarations

Declarations may depend on each other, so their types are computed on demand and each is kept once
it is known. A declaration whose type is asked for while it is being computed depends on itself and
answers the unknown type. Members are computed after all declarations, and until then they have no
type; so an initializer that calls a method of a class of the document does not learn what the
method returns.
-/

namespace UtsInsight

/-- How far the computation of a declaration's type has come. -/
inductive Progress where
  | waiting
  | running
  | done (type : String)
  deriving DecidableEq, Repr

/-- The progress of every declaration, by id. -/
abbrev ProgressTable := List Progress

section

variable (context : TypingContext) (root : Node)

/-- The type that a source gives, with a look-up for the types of declarations. -/
def typeOfSource {m : Type → Type} [Monad m] (lookup : DeclId → m String) :
    TypeSource → m String
  | .fixed type => pure type
  | .expression ref =>
    match ref.resolve? root with
    | some place => typeOfExpression context lookup 0 place.node
    | none => pure unknownType
  | .callable ref =>
    match ref.resolve? root with
    | some place => typeOfCallable context lookup 0 place.node
    | none => pure unknownType

/-- The type of a declaration, computed now if it is not known. The first argument bounds the number
of declarations whose types are computed inside each other; a bound of as many as are waiting is
never reached. -/
def declarationType : Nat → DeclId → StateM ProgressTable String
  | bound, id => do
    match (← get)[id]? with
    | some (.done type) => return type
    | some .waiting =>
      match bound, context.bindings.declaration? id with
      | bound + 1, some declaration =>
        modify fun table => table.set id .running
        let type ← typeOfSource context root (declarationType bound) declaration.source
        modify fun table => table.set id (.done type)
        return type
      | _, _ => return unknownType
    | _ => return unknownType

/-- The types of all declarations and of all their members, in order. -/
def declarationTypes : StateM ProgressTable (List String × List (List String)) := do
  let declarations := context.bindings.declarations
  let lookup := declarationType context root declarations.length
  let types ← (List.range declarations.length).mapM lookup
  let members ← declarations.mapM fun d =>
    d.members.mapM fun member => typeOfSource context root lookup member.source
  return (types, members)

end

/-- A member with its type. -/
def Member.withType (member : Member) (type : String) : Member :=
  { member with type }

/-- A declaration with its type and the types of its members. -/
def Declaration.withTypes (d : Declaration) (type : String) (members : List String) : Declaration :=
  { d with type, members := List.zipWith Member.withType d.members members }

/-- The bindings with the types of all declarations and members filled in. -/
def Bindings.resolveTypes (b : Bindings) (root : Node) (source : List Char) : Bindings :=
  let start := List.replicate b.declarations.length Progress.waiting
  let (types, members) := ((declarationTypes ⟨source, b⟩ root).run start).1
  { b with
    declarations :=
      List.zipWith (fun d t => Declaration.withTypes d t.1 t.2) b.declarations
        (List.zip types members) }

/-- The type of an expression over bindings that have their types. -/
def TypingContext.typeOf (context : TypingContext) (node : Node) : String :=
  let lookup (id : DeclId) : Id String :=
    pure (((context.bindings.declaration? id).map (·.type)).getD unknownType)
  Id.run (typeOfExpression context lookup 0 node)

end UtsInsight
