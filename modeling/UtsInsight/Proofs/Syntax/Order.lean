import Mathlib.Data.List.Lex
import UtsInsight.Proofs.Syntax.Children

/-!
# The order of places

The address of a place is its path read from the root down. Of two places, the one whose address
comes first in the order of words is the one that a walk from the top down and from left to right
meets first. A walk that keeps the nodes ahead of it on a stack puts the children of a node there from
the last to the first.
-/
namespace UtsInsight

namespace Place

variable {p q r : Place}

/-! ### Ways down -/

/-- What is below a place is the place itself or below one of its children. -/
theorem Below.eq_or_child (h : Below p q) : p = q ∨ ∃ c ∈ p.children, Below c q := by
  induction h with
  | refl => exact .inl rfl
  | @child q i n h hn ih =>
    right
    rcases ih with rfl | ⟨c, hc, hcq⟩
    · have hchild := p.getElem?_children i
      rw [hn] at hchild
      exact ⟨_, List.mem_of_getElem? hchild, .refl⟩
    · exact ⟨c, hc, hcq.child hn⟩

theorem Below.mem_ancestors (h : Below p q) (hne : p ≠ q) : p.node ∈ q.ancestors := by
  induction h with
  | refl => exact absurd rfl hne
  | @child q i n h hn ih =>
    by_cases hpq : p = q
    · rw [hpq]
      exact List.mem_cons_self
    · exact List.mem_cons_of_mem _ (ih hpq)

/-- An ancestor of a place below another one is on the way between them, or above both. -/
theorem Below.exists_of_mem_ancestors (h : Below p q) {n : Node} (hn : n ∈ q.ancestors) :
    n ∈ p.ancestors ∨ ∃ r, Below p r ∧ Below r q ∧ r ≠ q ∧ r.node = n := by
  induction h with
  | refl => exact .inl hn
  | @child q i c h hc ih =>
    have hstep : Below q ⟨c, ⟨q.node, i⟩ :: q.steps⟩ := Below.refl.child hc
    rcases List.mem_cons.mp hn with rfl | hn
    · refine .inr ⟨q, h, hstep, fun heq => ?_, rfl⟩
      exact Below.refl.path_ne_cons i (congrArg path heq)
    · apply (ih hn).imp_right
      rintro ⟨r, hpr, hrq, -, hr⟩
      refine ⟨r, hpr, hrq.trans hstep, fun heq => ?_, hr⟩
      exact hrq.path_ne_cons i (congrArg path heq)

/-! ### Addresses -/

/-- The child indices from the root down to a place. -/
def address (p : Place) : List Nat :=
  p.path.reverse

theorem Below.address (h : Below p q) : p.address <+: q.address :=
  List.reverse_prefix.mpr h.suffix

theorem address_of_getElem?_children {i : Nat} (h : p.children[i]? = some q) :
    q.address = p.address ++ [i] := by
  rw [getElem?_children] at h
  obtain ⟨c, -, rfl⟩ := Option.map_eq_some_iff.mp h
  exact List.reverse_cons

/-- Children are in the order of their addresses, and so is all that is below them. -/
theorem children_ordered (p : Place) :
    p.children.Pairwise fun c d => ∀ x y, Below c x → Below d y → x.address < y.address := by
  rw [List.pairwise_iff_getElem]
  intro i j hi hj hij x y hx hy
  obtain ⟨s, hs⟩ := hx.address
  obtain ⟨t, ht⟩ := hy.address
  rw [address_of_getElem?_children (List.getElem?_eq_getElem hi), List.append_assoc] at hs
  rw [address_of_getElem?_children (List.getElem?_eq_getElem hj), List.append_assoc] at ht
  rw [← hs, ← ht]
  apply List.append_left_lt
  exact List.Lex.rel hij

end Place

/-! ### Stacks -/

/-- The stack after the children of a node were put on it from the last to the first. The topmost
node is the first of the list. -/
def Node.pushChildren (n : Node) (stack : List Node) : List Node :=
  n.children.reverse.foldl (fun stack c => c :: stack) stack

/-- On the stack the children lie in order. -/
theorem Node.pushChildren_eq (n : Node) (stack : List Node) :
    n.pushChildren stack = n.children ++ stack := by
  rw [pushChildren, List.foldl_reverse, List.foldr_cons_eq_append, List.map_id']

/-- Below a node there is less than at it, so putting its children in its place comes to an end. -/
theorem Node.sizeOf_pushChildren_lt (n : Node) (stack : List Node) :
    sizeOf (n.pushChildren stack) < sizeOf (n :: stack) := by
  rw [pushChildren_eq]
  obtain ⟨info, children⟩ := n
  induction children with
  | nil =>
    simp only [List.nil_append, List.cons.sizeOf_spec]
    omega
  | cons c cs ih =>
    simp only [List.cons_append, List.cons.sizeOf_spec, Node.mk.sizeOf_spec] at ih ⊢
    omega

end UtsInsight
