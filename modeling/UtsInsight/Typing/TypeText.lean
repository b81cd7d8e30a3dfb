import UtsInsight.Outline.Initializer

/-!
# Types as texts

Types are the texts that a reader of the language would write: `number`, an element type and square
brackets, parameters and an arrow. Function types are built in one place and taken apart here, by
counting brackets; unions and arrays are put together from the texts of their parts.
-/

namespace UtsInsight

open Text

/-- The text after the bracket that closes the first one, where `open?` is the number of brackets
open so far. No answer if a bracket closes that was never opened, or if the text ends first. -/
def afterClosing? (opening closing : Char) : Nat → List Char → Option (List Char)
  | _, [] => none
  | depth, c :: cs =>
    if c = opening then afterClosing? opening closing (depth + 1) cs
    else if c = closing then
      match depth with
      | 0 => none
      | 1 => some cs
      | d + 2 => afterClosing? opening closing (d + 1) cs
    else afterClosing? opening closing depth cs

/-- The return type of a function type: type parameters if any, parameters in parentheses, an arrow,
and the rest. -/
def returnTypeOf (functionType : List Char) : Option (List Char) := do
  let text := trim functionType
  let text ←
    if text.head? = some '<' then (afterClosing? '<' '>' 0 text).map trimStart else some text
  if text.head? = some '(' then
    let rest ← afterClosing? '(' ')' 0 text
    (dropPrefix? "=>".toList (trimStart rest)).map trim
  else none

/-- The return type of a function type, or the unknown type. -/
def returnTypeOrUnknown (functionType : String) : String :=
  match returnTypeOf functionType.toList with
  | some type => String.ofList type
  | none => unknownType

/-- The distinct texts of a list, each where it occurs first. -/
def distinct (types : List String) : List String :=
  types.foldl (fun seen t => if seen.contains t then seen else seen ++ [t]) []

/-- The union of types. The unknown type absorbs the others. -/
def unionType (types : List String) : String :=
  let parts := distinct types
  if parts.contains unknownType then unknownType else " | ".intercalate parts

/-- The type of an array with elements of the given types. An element type with a blank in it is put
in parentheses. -/
def arrayOf (elements : List String) : String :=
  if elements.isEmpty then unknownType ++ "[]"
  else
    let element := unionType elements
    if element.toList.contains ' ' then "(" ++ element ++ ")[]" else element ++ "[]"

/-- The type that awaiting a value of a type gives: what a promise promises. -/
def awaitedType (type : String) : String :=
  match dropPrefix? "Promise<".toList type.toList with
  | some rest => if rest.getLast? = some '>' then String.ofList rest.dropLast else type
  | none => type

/-- A type without the mark that makes it the type of a class itself. -/
def instanceName (type : String) : String :=
  match dropPrefix? "typeof ".toList type.toList with
  | some name => String.ofList name
  | none => type

end UtsInsight
