import UtsInsight.Syntax.Node

/-!
# Places in a tree

A place is a node together with the way that leads to it: its ancestors from the inside out, each
with the index of the child through which the way goes. Two places of one tree are the same exactly
when their indices are, which tells equal nodes apart.
-/

namespace UtsInsight

/-- An ancestor and the index of the child that the way to a place goes through. -/
structure Step where
  parent : Node
  index : Nat

/-- Whether the step leads to the first child of the parent in the given role. -/
def Step.isChild (s : Step) (role : String) : Bool :=
  s.parent.children.findIdx? (·.field == some role) == some s.index

/-- A node and the steps that lead to it, innermost first. -/
structure Place where
  node : Node
  steps : List Step

namespace Place

/-- The place of the root of a tree. -/
def ofRoot (root : Node) : Place :=
  ⟨root, []⟩

def parent? (p : Place) : Option Place :=
  match p.steps with
  | s :: rest => some ⟨s.parent, rest⟩
  | [] => none

/-- The child indices from the root to the place, innermost first. -/
def path (p : Place) : List Nat :=
  p.steps.map (·.index)

/-- The ancestors of a place from the inside out. -/
def ancestors (p : Place) : List Node :=
  p.steps.map (·.parent)

/-- The nearest ancestor of one of the given kinds. -/
def ancestorOfKind? (p : Place) (kinds : List String) : Option Node :=
  p.ancestors.find? fun n => kinds.contains n.kind

/-- Whether the place is the first child of its parent in the given role. -/
def isChild (p : Place) (role : String) : Bool :=
  match p.steps with
  | s :: _ => s.isChild role
  | [] => false

end Place

/-! ## The place at a byte range -/

mutual

/-- The innermost place at or below a node that reaches over a byte range. -/
def Node.placeAt (start stop : Nat) (steps : List Step) : Node → Place
  | ⟨info, children⟩ => placeAmong start stop steps ⟨info, children⟩ 0 children

/-- Goes through the children of `parent` from the given index on. A child is passed over if it ends
before the range does, or ends at the start of the range without being empty there; if the next
child begins behind the start of the range, the parent is the answer. -/
def placeAmong (start stop : Nat) (steps : List Step) (parent : Node) (index : Nat) :
    List Node → Place
  | [] => ⟨parent, steps⟩
  | c :: cs =>
    if c.stop < stop then placeAmong start stop steps parent (index + 1) cs
    else if (if c.start = c.stop then c.stop < start else c.stop ≤ start) then
      placeAmong start stop steps parent (index + 1) cs
    else if start < c.start then ⟨parent, steps⟩
    else c.placeAt start stop (⟨parent, index⟩ :: steps)

end

/-! ## References to nodes -/

/-- The range and the kind of a node, by which it can be found again in its tree. -/
structure NodeRef where
  start : Nat
  stop : Nat
  kind : String
  deriving DecidableEq, Repr

namespace NodeRef

def of (n : Node) : NodeRef :=
  ⟨n.start, n.stop, n.kind⟩

/-- Climbs from a node through ancestors of the same range to the first of the kind referred to. -/
def climb? (ref : NodeRef) (node : Node) : List Step → Option Place
  | [] =>
    if node.kind = ref.kind ∧ node.start = ref.start ∧ node.stop = ref.stop then some ⟨node, []⟩
    else none
  | s :: steps =>
    if node.kind = ref.kind ∧ node.start = ref.start ∧ node.stop = ref.stop then
      some ⟨node, s :: steps⟩
    else if s.parent.start = ref.start ∧ s.parent.stop = ref.stop then ref.climb? s.parent steps
    else none

/-- The place referred to: the innermost node of the range, or the nearest ancestor with the same
range, that is of the kind referred to. -/
def resolve? (ref : NodeRef) (root : Node) : Option Place :=
  let p := root.placeAt ref.start ref.stop []
  ref.climb? p.node p.steps

end NodeRef

end UtsInsight
