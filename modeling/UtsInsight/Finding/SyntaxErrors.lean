import UtsInsight.Finding.Basic
import UtsInsight.Syntax.Node

/-!
# Syntax errors

The parser marks text that fits nowhere and tokens that it had to make up. Each outermost marked
node is one finding; what is inside it is not looked at. A node that is neither marked nor known to
have an error below it is passed over with everything in it.
-/

namespace UtsInsight

/-- The first word of a text, cut to twenty characters. -/
def firstWord? (text : List Char) : Option String :=
  (Text.words text).head?.map fun word => String.ofList (word.take 20)

/-- What a missing node of a kind stands for. -/
def missingProblem (kind : String) : Problem :=
  if ["identifier", "type_identifier", "property_identifier"].contains kind then .identifierExpected
  else .tokenExpected kind

mutual

/-- The syntax errors at or below a node, from the top down and from left to right. -/
def Node.syntaxErrors (source : List Char) : Node → List Finding
  | ⟨info, children⟩ =>
    let node : Node := ⟨info, children⟩
    if info.isError then [⟨node.range, .unexpectedToken (firstWord? (node.chars source))⟩]
    else if info.isMissing then [⟨node.range, missingProblem info.kind⟩]
    else if info.hasError then syntaxErrorsBelow source children
    else []

def syntaxErrorsBelow (source : List Char) : List Node → List Finding
  | [] => []
  | c :: cs => c.syntaxErrors source ++ syntaxErrorsBelow source cs

end

end UtsInsight
