import UtsInsight.Finding.Names
import UtsInsight.Finding.Redeclaration
import UtsInsight.Finding.Statements
import UtsInsight.Finding.SyntaxErrors

/-!
# All findings of a document

The findings are collected in a fixed order: syntax errors, conflicting declarations, what the walk
over the tree finds, and unused variables. They are then sorted by the range they are about, and
findings with one range keep their order. In a document with syntax errors no variable is reported
as unused, because the parts that could not be read may use it.
-/

namespace UtsInsight

/-- What is found at one place. -/
def Place.findings (p : Place) (b : Bindings) (source : List Char) : List Finding :=
  if p.node.kind = "identifier" ∨ p.node.kind = "shorthand_property_identifier" then
    (p.unknownName? b source).toList
  else if p.node.kind = "variable_declarator" then (initializerMismatch? p.node source).toList
  else if p.node.kind = "return_statement" then (returnMismatch? p source).toList
  else if ["statement_block", "program", "switch_case", "switch_default"].contains p.node.kind then
    (unreachable? p.node).toList
  else []

/-- The findings in the order in which they are collected. -/
def collectFindings (root : Node) (source : List Char) (b : Bindings) : List Finding :=
  let places := root.checkedPlaces []
  let unused :=
    if root.hasError then [] else b.unusedLocals (referenceTargets b source places)
  root.syntaxErrors source ++ b.conflicts ++ places.flatMap (·.findings b source) ++ unused

/-- The findings of a document, sorted by range. -/
def check (root : Node) (source : List Char) (b : Bindings) : List Finding :=
  (collectFindings root source b).mergeSort Finding.notAfter

end UtsInsight
