import UtsInsight.Syntax.Kinds
import UtsInsight.Syntax.Place

/-!
# Names bound by patterns

A pattern is a name or takes a value apart into smaller patterns. The names that it binds are found
from the top down; conversely a name knows from its ancestors whether a parameter binds it. The two
views leave the default values of a pattern aside, which are expressions.
-/

namespace UtsInsight

/-- How a node takes part in a pattern. -/
inductive PatternForm where
  /-- It is a bound name. -/
  | name
  /-- The pattern is its child in the given role. -/
  | role (role : String)
  /-- The patterns are its constructs. -/
  | parts
  /-- It binds nothing. -/
  | none
  deriving DecidableEq, Repr

def patternForm (kind : String) : PatternForm :=
  if kind = "identifier" ∨ kind = "shorthand_property_identifier_pattern" then .name
  else if kind = "pair_pattern" then .role "value"
  else if kind = "assignment_pattern" ∨ kind = "object_assignment_pattern" then .role "left"
  else if isPatternKind kind then .parts
  else .none

mutual

/-- The names that a pattern binds, in source order. -/
def Node.boundNames (steps : List Step) : Node → List Place
  | ⟨info, children⟩ =>
    match patternForm info.kind with
    | .name => [⟨⟨info, children⟩, steps⟩]
    | .role role => namesOfChild role steps ⟨info, children⟩ 0 children
    | .parts => namesOfParts steps ⟨info, children⟩ 0 children
    | .none => []

/-- The names bound by the first child in a role, among the children from the given index on. -/
def namesOfChild (role : String) (steps : List Step) (parent : Node) (index : Nat) :
    List Node → List Place
  | [] => []
  | c :: cs =>
    if c.field = some role then c.boundNames (⟨parent, index⟩ :: steps)
    else namesOfChild role steps parent (index + 1) cs

/-- The names bound by the constructs among the children from the given index on. -/
def namesOfParts (steps : List Step) (parent : Node) (index : Nat) : List Node → List Place
  | [] => []
  | c :: cs =>
    (if c.isNamed then c.boundNames (⟨parent, index⟩ :: steps) else [])
      ++ namesOfParts steps parent (index + 1) cs

end

/-- Whether steps upwards lead through patterns, and not out of a default value, to the pattern of a
parameter. -/
def leadsToParameter : List Step → Bool
  | [] => false
  | s :: steps =>
    if isPatternKind s.parent.kind then
      let isDefault :=
        (s.parent.kind == "assignment_pattern" || s.parent.kind == "object_assignment_pattern")
          && s.isChild "right"
      if isDefault then false else leadsToParameter steps
    else isParameterKind s.parent.kind && s.isChild "pattern"

/-- Whether a name is bound by a parameter, the parameters of function types included. -/
def Place.inParameterPattern (p : Place) : Bool :=
  leadsToParameter p.steps

end UtsInsight
