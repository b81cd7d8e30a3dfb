import UtsInsight.Syntax.Node

/-!
# Properties of all nodes of a tree

A property of nodes holds everywhere in a tree if it holds of the root and everywhere in the trees
of its children. Both halves follow the recursion of the functions on trees, one over a node and one
over a list of siblings, so that an induction along such a function finds its hypothesis in place.
-/
namespace UtsInsight

variable {P Q : Node → Prop}

mutual

/-- The property holds of the node and of all nodes below it. -/
def Node.Everywhere (P : Node → Prop) : Node → Prop
  | ⟨info, children⟩ => P ⟨info, children⟩ ∧ EverywhereBelow P children

/-- The property holds everywhere in the trees of a list. -/
def EverywhereBelow (P : Node → Prop) : List Node → Prop
  | [] => True
  | c :: cs => c.Everywhere P ∧ EverywhereBelow P cs

end

namespace Node

theorem Everywhere.self {n : Node} (h : n.Everywhere P) : P n := by
  cases n
  exact h.1

theorem Everywhere.below {n : Node} (h : n.Everywhere P) : EverywhereBelow P n.children := by
  cases n
  exact h.2

end Node

theorem EverywhereBelow.of_mem {ns : List Node} (h : EverywhereBelow P ns) {n : Node}
    (hn : n ∈ ns) : n.Everywhere P := by
  induction ns with
  | nil => exact absurd hn List.not_mem_nil
  | cons c cs ih =>
    rcases List.mem_cons.mp hn with rfl | hn
    · exact h.1
    · exact ih h.2 hn

namespace Node.Everywhere

variable {n c : Node}

theorem of_child (h : n.Everywhere P) {role : String} (hc : n.child? role = some c) :
    c.Everywhere P :=
  h.below.of_mem (List.mem_of_find?_eq_some hc)

theorem of_named (h : n.Everywhere P) (hc : c ∈ n.namedChildren) : c.Everywhere P :=
  h.below.of_mem (List.mem_filter.mp hc).1

end Node.Everywhere

mutual

/-- What follows for a node from a property everywhere in its tree holds everywhere. -/
theorem Node.Everywhere.imp (h : ∀ n : Node, n.Everywhere P → Q n) :
    ∀ {n : Node}, n.Everywhere P → n.Everywhere Q
  | ⟨_, _⟩, hn => ⟨h _ hn, EverywhereBelow.imp h hn.2⟩

theorem EverywhereBelow.imp (h : ∀ n : Node, n.Everywhere P → Q n) :
    ∀ {ns : List Node}, EverywhereBelow P ns → EverywhereBelow Q ns
  | [], _ => trivial
  | _ :: _, hns => ⟨hns.1.imp h, EverywhereBelow.imp h hns.2⟩

end

theorem Node.Everywhere.mono (h : ∀ n, P n → Q n) {n : Node} (hn : n.Everywhere P) :
    n.Everywhere Q :=
  hn.imp fun m hm => h m hm.self

mutual

theorem Node.Everywhere.and : ∀ {n : Node}, n.Everywhere P → n.Everywhere Q →
    n.Everywhere fun n => P n ∧ Q n
  | ⟨_, _⟩, h, h' => ⟨⟨h.1, h'.1⟩, EverywhereBelow.and h.2 h'.2⟩

theorem EverywhereBelow.and : ∀ {ns : List Node}, EverywhereBelow P ns → EverywhereBelow Q ns →
    EverywhereBelow (fun n => P n ∧ Q n) ns
  | [], _, _ => trivial
  | _ :: _, h, h' => ⟨h.1.and h'.1, EverywhereBelow.and h.2 h'.2⟩

end

mutual

/-- A property that holds of every node holds everywhere. -/
theorem Node.everywhere_of_forall (h : ∀ n, P n) : ∀ n : Node, n.Everywhere P
  | ⟨_, _⟩ => ⟨h _, everywhereBelow_of_forall h _⟩

theorem everywhereBelow_of_forall (h : ∀ n, P n) : ∀ ns : List Node, EverywhereBelow P ns
  | [] => trivial
  | c :: cs => ⟨Node.everywhere_of_forall h c, everywhereBelow_of_forall h cs⟩

end

mutual

/-- A property that can be decided of one node can be decided of a tree. -/
def Node.decidableEverywhere [DecidablePred P] : ∀ n : Node, Decidable (n.Everywhere P)
  | ⟨_, children⟩ =>
    have : Decidable (EverywhereBelow P children) := decidableEverywhereBelow children
    inferInstanceAs (Decidable (P _ ∧ _))

def decidableEverywhereBelow [DecidablePred P] :
    ∀ ns : List Node, Decidable (EverywhereBelow P ns)
  | [] => isTrue trivial
  | c :: cs =>
    have : Decidable (c.Everywhere P) := c.decidableEverywhere
    have : Decidable (EverywhereBelow P cs) := decidableEverywhereBelow cs
    inferInstanceAs (Decidable (_ ∧ _))

end

instance [DecidablePred P] (n : Node) : Decidable (n.Everywhere P) :=
  n.decidableEverywhere

end UtsInsight
