import UtsInsight.Outline.Entry

/-!
# Types guessed from initializers

A variable without annotation gets a type from the shape of the text on the right of its equals
sign. The rules are tried in order and the first that applies decides: a quote anywhere makes a
string, digits alone a number, the two truth values a boolean, square brackets an array, braces an
object, `new` the class behind it, and a call the return type that the document declares for the
callee. Everything else is of the unknown type.
-/

namespace UtsInsight

/-- The type of what is not known. -/
def unknownType : String :=
  "any"

/-- The type of an array with unknown elements. -/
def arrayType : String :=
  "any[]"

/-- The type of an object literal. -/
def objectType : String :=
  "UTSJSONObject"

namespace Outline

open UtsInsight.Text

/-- The name that `new` constructs at the beginning of a text. -/
def constructedName? (cs : List Char) : Option (List Char) := do
  let (_, cs) ← keyword? "new" cs
  let (_, cs) ← gap? cs
  let (name, _) ← name? cs
  return name

/-- The name that is called at the beginning of a text. -/
def calledName? (cs : List Char) : Option (List Char) := do
  let (name, cs) ← name? cs
  let _ ← char? '(' (blanks cs).2
  return name

/-- An initializer without the blanks around it and the semicolons behind it. -/
def strippedInitializer (cs : List Char) : List Char :=
  trimEnd ((trim cs).reverse.dropWhile (· == ';')).reverse

/-- The type guessed from an initializer, with the functions of `text` for the calls in it. -/
def guessType (initializer : String) (text : List Char) : String :=
  let value := strippedInitializer initializer.toList
  if value.any fun c => c == '"' || c == '\'' || c == '\x60' then "string"
  else if !value.isEmpty && value.all isDecimal then "number"
  else if value = "true".toList ∨ value = "false".toList then "boolean"
  else if value.contains '[' && value.contains ']' then arrayType
  else if value.contains '{' && value.contains '}' then objectType
  else match constructedName? value with
    | some name => String.ofList name
    | none =>
      match calledName? value with
      | some name =>
        ((find? text (String.ofList name) [.function, .genericFunction]).bind
          (·.declaredType)).getD unknownType
      | none => unknownType

end Outline

end UtsInsight
