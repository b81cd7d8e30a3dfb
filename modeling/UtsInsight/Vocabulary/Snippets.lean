/-!
# Code templates

Structural templates that an editor inserts with tab stops. A template is a row of pieces, and its
written form is the snippet notation of editors: a tab stop is a dollar sign and, in braces, its
number and its placeholder.
-/

namespace UtsInsight.Vocabulary

/-- A piece of a template: literal text, or a numbered tab stop with its placeholder. -/
inductive TemplatePiece where
  | text (content : String)
  | stop (number : Nat) (placeholder : String)
  deriving DecidableEq, Repr

/-- The written form of a piece. -/
def TemplatePiece.written : TemplatePiece → String
  | .text content => content
  | .stop number placeholder => "$\x7b" ++ toString number ++ ":" ++ placeholder ++ "\x7d"

/-- A template under the label that completes to it. -/
structure Snippet where
  label : String
  detail : String
  pieces : List TemplatePiece
  deriving DecidableEq, Repr

/-- The template in snippet notation. -/
def Snippet.template (s : Snippet) : String :=
  String.join (s.pieces.map TemplatePiece.written)

def snippets : List Snippet :=
  [ ⟨"let", "Variable declaration",
      [ .text "let ", .stop 1 "variableName", .text ": ", .stop 2 "string", .text " = ",
        .stop 3 "\"value\"", .text ";" ]⟩,
    ⟨"const", "Constant declaration",
      [ .text "const ", .stop 1 "constantName", .text ": ", .stop 2 "string", .text " = ",
        .stop 3 "\"value\"", .text ";" ]⟩,
    ⟨"function", "Function declaration",
      [ .text "function ", .stop 1 "functionName", .text "(", .stop 2 "params", .text "): ",
        .stop 3 "void", .text " \x7b\n\t", .stop 4 "// function body", .text "\n\x7d" ]⟩,
    ⟨"class", "Class declaration",
      [ .text "class ", .stop 1 "ClassName", .text " \x7b\n\tconstructor(", .stop 2 "params",
        .text ") \x7b\n\t\t", .stop 3 "// constructor body", .text "\n\t\x7d\n\x7d" ]⟩,
    ⟨"interface", "Interface declaration",
      [ .text "interface ", .stop 1 "InterfaceName", .text " \x7b\n\t", .stop 2 "property",
        .text ": ", .stop 3 "string", .text ";\n\x7d" ]⟩,
    ⟨"if", "Conditional statement",
      [ .text "if (", .stop 1 "condition", .text ") \x7b\n\t", .stop 2 "// code", .text "\n\x7d" ]⟩,
    ⟨"for", "Counting loop",
      [ .text "for (let ", .stop 1 "i", .text " = 0; ", .stop 1 "i", .text " < ",
        .stop 2 "length", .text "; ", .stop 1 "i", .text "++) \x7b\n\t", .stop 3 "// loop body",
        .text "\n\x7d" ]⟩,
    ⟨"try", "Try/catch block",
      [ .text "try \x7b\n\t", .stop 1 "// code", .text "\n\x7d catch (", .stop 2 "error",
        .text ") \x7b\n\t", .stop 3 "// error handling", .text "\n\x7d" ]⟩,
    ⟨"async", "Async function declaration",
      [ .text "async function ", .stop 1 "functionName", .text "(", .stop 2 "params",
        .text "): Promise<", .stop 3 "void", .text "> \x7b\n\t", .stop 4 "// function body",
        .text "\n\x7d" ]⟩,
    ⟨"await", "Await expression",
      [ .text "const ", .stop 1 "result", .text " = await ", .stop 2 "promise", .text ";" ]⟩,
    ⟨"generic", "Generic function declaration",
      [ .text "function ", .stop 1 "functionName", .text "<", .stop 2 "T", .text ">(",
        .stop 3 "value", .text ": ", .stop 2 "T", .text "): ", .stop 2 "T", .text " \x7b\n\t",
        .stop 4 "return value;", .text "\n\x7d" ]⟩ ]

end UtsInsight.Vocabulary
