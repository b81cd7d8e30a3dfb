import Mathlib.Data.List.Basic
import UtsInsight.Syntax.Everywhere
import UtsInsight.Syntax.Place

/-!
# Well-formed trees

In the tree of a document the range of a child lies inside its parent's, and siblings come one after
another. The nodes of a tree are named by their paths here, the indices of children from the node
up to the root. An ancestor's path is then a suffix, its range contains the node's, and two nodes
neither of which is around the other do not overlap.
-/
namespace UtsInsight.Node

/-- The ranges of a node and its children fit together. -/
def Nested (n : Node) : Prop :=
  n.start ≤ n.stop ∧ (∀ c ∈ n.children, n.start ≤ c.start ∧ c.stop ≤ n.stop) ∧
    n.children.Pairwise fun c c' => c.stop ≤ c'.start

instance (n : Node) : Decidable n.Nested :=
  inferInstanceAs (Decidable (_ ∧ _ ∧ _))

/-- The ranges of all nodes of a tree fit together. -/
def WellFormed (root : Node) : Prop :=
  root.Everywhere Nested

instance (root : Node) : Decidable root.WellFormed :=
  inferInstanceAs (Decidable (root.Everywhere Nested))

/-- The node at the end of a path, whose first index is the innermost one. -/
def at? (root : Node) : List Nat → Option Node
  | [] => some root
  | i :: path => (root.at? path).bind (·.children[i]?)

variable {root n c : Node} {path inner : List Nat} {i : Nat}

theorem at?_cons_eq_some :
    root.at? (i :: path) = some c ↔ ∃ n, root.at? path = some n ∧ n.children[i]? = some c :=
  Option.bind_eq_some_iff

theorem at?_of_suffix (hpath : path <:+ inner) (h : root.at? inner = some c) :
    ∃ n, root.at? path = some n := by
  induction inner generalizing c with
  | nil => exact ⟨c, List.suffix_nil.mp hpath ▸ h⟩
  | cons i inner ih =>
    rcases List.suffix_cons_iff.mp hpath with rfl | hpath
    · exact ⟨c, h⟩
    · obtain ⟨n, hn, _⟩ := at?_cons_eq_some.mp h
      exact ih hpath hn

theorem Everywhere.at? {P : Node → Prop} (hroot : root.Everywhere P) (h : root.at? path = some n) :
    n.Everywhere P := by
  induction path generalizing n with
  | nil => exact Option.some.inj h ▸ hroot
  | cons i path ih =>
    obtain ⟨parent, hparent, hn⟩ := at?_cons_eq_some.mp h
    exact (ih hparent).below.of_mem (List.mem_of_getElem? hn)

theorem WellFormed.nested (hroot : root.WellFormed) (h : root.at? path = some n) : n.Nested :=
  (Everywhere.at? hroot h).self

/-- The range of an ancestor contains the node's. -/
theorem WellFormed.contains (hroot : root.WellFormed) (hpath : path <:+ inner)
    (hn : root.at? path = some n) (hc : root.at? inner = some c) :
    n.start ≤ c.start ∧ c.stop ≤ n.stop := by
  induction inner generalizing c with
  | nil =>
    obtain rfl := List.suffix_nil.mp hpath
    rw [Option.some.inj (hn.symm.trans hc)]
    exact ⟨Nat.le_refl _, Nat.le_refl _⟩
  | cons i inner ih =>
    rcases List.suffix_cons_iff.mp hpath with rfl | hpath
    · rw [Option.some.inj (hn.symm.trans hc)]
      exact ⟨Nat.le_refl _, Nat.le_refl _⟩
    · obtain ⟨parent, hparent, hchild⟩ := at?_cons_eq_some.mp hc
      have houter := ih hpath hparent
      have hinner := (hroot.nested hparent).2.1 c (List.mem_of_getElem? hchild)
      omega

/-! ### Nodes apart from each other -/

theorem exists_cons_suffix {path other : List Nat} (h : path <:+ other) (hne : path ≠ other) :
    ∃ i, (i :: path) <:+ other := by
  obtain ⟨before, rfl⟩ := h
  rcases List.eq_nil_or_concat before with rfl | ⟨before, i, rfl⟩
  · exact absurd (List.nil_append path).symm hne
  · refine ⟨i, before, ?_⟩
    simp only [List.concat_eq_append, List.append_assoc, List.singleton_append]

/-- Nothing is below a leaf. -/
theorem path_eq_of_leaf (hn : root.at? path = some n) (hleaf : n.children = [])
    (hc : root.at? inner = some c) (h : path <:+ inner) : path = inner := by
  by_contra hne
  obtain ⟨i, hi⟩ := exists_cons_suffix h hne
  obtain ⟨c, hc⟩ := at?_of_suffix hi hc
  obtain ⟨n', hn', hchild⟩ := at?_cons_eq_some.mp hc
  obtain rfl := Option.some.inj (hn.symm.trans hn')
  rw [hleaf] at hchild
  cases hchild

/-- Paths neither of which is around the other part at some node. -/
theorem exists_parting {path other : List Nat} (h : ¬ path <:+ other) (h' : ¬ other <:+ path) :
    ∃ (common : List Nat) (i j : Nat), i ≠ j ∧ (i :: common) <:+ path ∧
      (j :: common) <:+ other := by
  induction path with
  | nil => exact absurd List.nil_suffix h
  | cons i path ih =>
    by_cases hpath : path <:+ other
    · have hne : path ≠ other := by
        rintro rfl
        exact h' (List.suffix_cons i path)
      obtain ⟨j, hj⟩ := exists_cons_suffix hpath hne
      refine ⟨path, i, j, ?_, List.suffix_refl _, hj⟩
      rintro rfl
      exact h hj
    · obtain ⟨common, k, j, hne, hk, hj⟩ :=
        ih hpath fun hother => h' (hother.trans (List.suffix_cons i path))
      exact ⟨common, k, j, hne, hk.trans (List.suffix_cons i path), hj⟩

theorem WellFormed.ordered_children (hroot : root.WellFormed) {common : List Nat} {j : Nat}
    {c' : Node} (hij : i < j) (hc : root.at? (i :: common) = some c)
    (hc' : root.at? (j :: common) = some c') : c.stop ≤ c'.start := by
  obtain ⟨n, hn, hi⟩ := at?_cons_eq_some.mp hc
  obtain ⟨n', hn', hj⟩ := at?_cons_eq_some.mp hc'
  obtain rfl := Option.some.inj (hn.symm.trans hn')
  obtain ⟨hilt, rfl⟩ := List.getElem?_eq_some_iff.mp hi
  obtain ⟨hjlt, rfl⟩ := List.getElem?_eq_some_iff.mp hj
  exact List.pairwise_iff_getElem.mp (hroot.nested hn).2.2 i j hilt hjlt hij

/-- Of two nodes neither of which is around the other, one ends before the other begins. -/
theorem WellFormed.apart (hroot : root.WellFormed) {other : List Nat} {n' : Node}
    (hn : root.at? path = some n) (hn' : root.at? other = some n')
    (h : ¬ path <:+ other) (h' : ¬ other <:+ path) : n.stop ≤ n'.start ∨ n'.stop ≤ n.start := by
  obtain ⟨common, i, j, hne, hi, hj⟩ := exists_parting h h'
  obtain ⟨c, hc⟩ := at?_of_suffix hi hn
  obtain ⟨c', hc'⟩ := at?_of_suffix hj hn'
  have hin := hroot.contains hi hc hn
  have hin' := hroot.contains hj hc' hn'
  rcases Nat.lt_or_gt_of_ne hne with hij | hji
  · have := hroot.ordered_children hij hc hc'
    omega
  · have := hroot.ordered_children hji hc' hc
    omega

/-! ### Trees written out -/

/-- A construct of the language, free of errors. -/
def construct (kind : String) (start stop : Nat) (field : Option String) (children : List Node) :
    Node :=
  ⟨⟨kind, true, false, false, false, start, stop, field⟩, children⟩

/-- A keyword or a mark, which has its text as its kind. -/
def token (text : String) (start stop : Nat) (field : Option String) : Node :=
  ⟨⟨text, false, false, false, false, start, stop, field⟩, []⟩

end UtsInsight.Node

/-! ### Places below a place -/

namespace UtsInsight.Place

/-- The second place is the first one or below it in the tree. -/
inductive Below (p : Place) : Place → Prop
  | refl : Below p p
  | child {q : Place} {i : Nat} {c : Node} (h : Below p q) (hc : q.node.children[i]? = some c) :
    Below p ⟨c, ⟨q.node, i⟩ :: q.steps⟩

namespace Below

variable {p q r : Place}

theorem trans (h : Below p q) (h' : Below q r) : Below p r := by
  induction h' with
  | refl => exact h
  | child _ hc ih => exact ih.child hc

theorem suffix (h : Below p q) : p.path <:+ q.path := by
  induction h with
  | refl => exact List.suffix_refl _
  | @child q i c _ _ ih => exact ih.trans (List.suffix_cons i q.path)

theorem at? {root : Node} (h : Below p q) (hp : root.at? p.path = some p.node) :
    root.at? q.path = some q.node := by
  induction h with
  | refl => exact hp
  | child _ hc ih => exact Node.at?_cons_eq_some.mpr ⟨_, ih, hc⟩

/-- Going through the children of a node from some index on, one at a time. -/
theorem of_drop {n c : Node} {steps : List Step} {index : Nat} {cs : List Node}
    (h : n.children.drop index = c :: cs) :
    Below ⟨n, steps⟩ ⟨c, ⟨n, index⟩ :: steps⟩ ∧ n.children.drop (index + 1) = cs := by
  have hc : n.children[index]? = some c := by
    rw [← List.head?_drop, h, List.head?_cons]
  refine ⟨Below.refl.child hc, ?_⟩
  rw [← List.tail_drop, h, List.tail_cons]

end Below

end UtsInsight.Place
