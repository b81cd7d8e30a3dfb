/-!
# Groups of node kinds

The kinds of the grammar that several parts of the analysis treat alike.
-/

namespace UtsInsight

/-- Constructs that open a scope for parameters and have a body of their own. -/
def functionKinds : List String :=
  [ "function_declaration", "generator_function_declaration", "function_expression", "function",
    "generator_function", "arrow_function", "method_definition" ]

def isFunctionKind (kind : String) : Bool :=
  functionKinds.contains kind

/-- Constructs that take a value apart. -/
def patternKinds : List String :=
  [ "object_pattern", "array_pattern", "pair_pattern", "assignment_pattern",
    "object_assignment_pattern", "rest_pattern" ]

def isPatternKind (kind : String) : Bool :=
  patternKinds.contains kind

/-- A parameter of a function or of a function type. -/
def isParameterKind (kind : String) : Bool :=
  kind == "required_parameter" || kind == "optional_parameter"

end UtsInsight
