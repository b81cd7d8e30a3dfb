import UtsInsight.Outline.Declaring
import UtsInsight.Vocabulary.Words

/-!
# Methods of a declared class

The methods of a class are read from the lines between its header line and the first later line that
holds a closing brace alone. Only a method with an explicit return type on the same line is seen.
The control keywords and the constructor look like methods and are left out.
-/

namespace UtsInsight.Outline

open UtsInsight.Text

/-- A method header on one line. -/
structure MethodLine where
  name : String
  /-- Text between the parentheses. -/
  parameters : String
  returnType : String
  deriving DecidableEq, Repr

/-- Parameters and return type in one line. -/
def MethodLine.signature (m : MethodLine) : String :=
  "(" ++ String.ofList (trim m.parameters.toList) ++ "): " ++ m.returnType

/-- Words that may stand before the name of a method. -/
def methodModifiers : List String :=
  [ "public", "private", "protected", "static", "async", "readonly", "override", "abstract" ]

/-- The text after a modifier and the gap behind it. -/
def afterModifier? (cs : List Char) : Option (List Char) :=
  methodModifiers.findSome? fun modifier => do
    let (_, rest) ← keyword? modifier cs
    let (_, rest) ← gap? rest
    return rest

theorem afterModifier?_length {cs rest : List Char} (h : afterModifier? cs = some rest) :
    rest.length < cs.length := by
  obtain ⟨m, _, hm⟩ := List.exists_of_findSome?_eq_some h
  simp only [keyword?, dropPrefix?] at hm
  split at hm
  · simp only [Option.map_some, Option.bind_eq_bind, Option.bind_some] at hm
    generalize htail : cs.drop m.toList.length = tail at hm
    have hle : tail.length ≤ cs.length := by rw [← htail]; simp
    cases tail with
    | nil => simp [gap?] at hm
    | cons c tail =>
      by_cases hc : isBlank c
      · simp only [gap?, blanks, hc, if_true, List.dropWhile_cons, Option.bind_some,
          Option.pure_def, Option.some.injEq] at hm
        subst hm
        have := (List.dropWhile_suffix (l := tail) isBlank).length_le
        simp only [List.length_cons] at hle
        omega
      · simp [gap?, hc] at hm
  · simp at hm

/-- Name, parameter list and return type, with no modifier before them. -/
def bareMethod? (cs : List Char) : Option MethodLine := do
  let (name, cs) ← name? cs
  let (_, cs) ← char? '(' (blanks cs).2
  let parameters := cs.takeWhile (· != ')')
  let (_, cs) ← char? ')' (cs.dropWhile (· != ')'))
  let (_, cs) ← char? ':' (blanks cs).2
  let type := plainRun (fun c => c == '{' || c == ';') (blanks cs).2
  if type.isEmpty then none
  else return ⟨String.ofList name, String.ofList parameters, String.ofList type⟩

/-- A method behind as many modifiers as possible. -/
def method? (cs : List Char) : Option MethodLine :=
  match _modified : afterModifier? cs with
  | some rest => method? rest <|> bareMethod? cs
  | none => bareMethod? cs
termination_by cs.length
decreasing_by exact afterModifier?_length (by assumption)

/-- The method that a line of a class body declares. -/
def methodOfLine? (line : List Char) : Option MethodLine :=
  match method? (trimStart line) with
  | some m =>
    if Vocabulary.isControlKeyword m.name || m.name == "constructor" then none else some m
  | none => none

/-- The lines of the body of the first class with the given name. -/
def classBody (text : List Char) (className : String) : List (List Char) :=
  let fromHeader :=
    (contentLines text).dropWhile fun line => !declares ["class"] className.toList line
  (fromHeader.drop 1).takeWhile fun line => trim line != ['}']

/-- The methods of the first class with the given name, in source order. -/
def classMethods (text : List Char) (className : String) : List MethodLine :=
  (classBody text className).filterMap methodOfLine?

end UtsInsight.Outline
