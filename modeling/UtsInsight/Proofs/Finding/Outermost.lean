import UtsInsight.Finding.SyntaxErrors
import UtsInsight.Proofs.Syntax.Order

/-!
# Outermost syntax errors

The search for syntax errors leaves out whatever the parser recorded no error at, and it keeps the
nodes that are still ahead on a stack. In a tree whose parser records an error at every node with a
marked node below it, nothing is missed in this way: the findings are about the marked nodes without a
marked node around them, all of them, each once and in the order of the text.
-/
namespace UtsInsight

/-! ### Marked nodes -/

/-- Whether error recovery marked the node, as text that fits nowhere or as made up. -/
def Node.isMarked (n : Node) : Bool :=
  n.isError || n.isMissing

/-- The finding about a marked node. -/
def Node.markFinding (source : List Char) (n : Node) : Finding :=
  if n.isError then ⟨n.range, .unexpectedToken (firstWord? (n.chars source))⟩
  else ⟨n.range, missingProblem n.kind⟩

/-- The parser recorded an error at every node with a marked node below it. -/
def Node.RecordsErrors (root : Node) : Prop :=
  root.Everywhere fun n =>
    n.hasError = true ∨ EverywhereBelow (fun m => m.isMarked = false) n.children

instance (root : Node) : Decidable root.RecordsErrors :=
  have : ∀ ns, Decidable (EverywhereBelow (fun m => m.isMarked = false) ns) :=
    decidableEverywhereBelow
  inferInstanceAs (Decidable (root.Everywhere _))

theorem syntaxErrorsBelow_eq (source : List Char) (ns : List Node) :
    syntaxErrorsBelow source ns = ns.flatMap (·.syntaxErrors source) := by
  induction ns with
  | nil => rfl
  | cons c cs ih => rw [syntaxErrorsBelow, ih, List.flatMap_cons]

theorem Node.syntaxErrors_eq (source : List Char) (n : Node) :
    n.syntaxErrors source =
      if n.isMarked then [n.markFinding source]
      else if n.hasError then n.children.flatMap (·.syntaxErrors source) else [] := by
  obtain ⟨info, children⟩ := n
  rw [Node.syntaxErrors, ← syntaxErrorsBelow_eq]
  unfold Node.isMarked Node.markFinding
  cases info.isError <;> cases info.isMissing <;> rfl

/-! ### The search on a stack -/

/-- The syntax errors of the nodes on a stack and of what is below them. A node is taken off the
stack, and if its children are to be searched they are put in its place from the last to the first.
-/
def syntaxErrorsOnStack (source : List Char) : List Node → List Finding
  | [] => []
  | n :: stack =>
    if n.isError then
      ⟨n.range, .unexpectedToken (firstWord? (n.chars source))⟩ :: syntaxErrorsOnStack source stack
    else if n.isMissing then
      ⟨n.range, missingProblem n.kind⟩ :: syntaxErrorsOnStack source stack
    else if n.hasError then syntaxErrorsOnStack source (n.pushChildren stack)
    else syntaxErrorsOnStack source stack
termination_by stack => sizeOf stack
decreasing_by
  · simp only [List.cons.sizeOf_spec]
    omega
  · simp only [List.cons.sizeOf_spec]
    omega
  · exact n.sizeOf_pushChildren_lt stack
  · simp only [List.cons.sizeOf_spec]
    omega

/-- The findings are those of the nodes on the stack, one after another. -/
theorem syntaxErrorsOnStack_eq (source : List Char) (stack : List Node) :
    syntaxErrorsOnStack source stack = stack.flatMap (·.syntaxErrors source) := by
  fun_induction syntaxErrorsOnStack source stack with
  | case1 => rfl
  | case2 n stack herror ih =>
    have hmarked : n.isMarked = true := by rw [Node.isMarked, herror, Bool.true_or]
    rw [List.flatMap_cons, n.syntaxErrors_eq, if_pos hmarked, Node.markFinding, if_pos herror, ih]
    rfl
  | case3 n stack herror hmissing ih =>
    have hmarked : n.isMarked = true := by rw [Node.isMarked, hmissing, Bool.or_true]
    rw [List.flatMap_cons, n.syntaxErrors_eq, if_pos hmarked, Node.markFinding, if_neg herror, ih]
    rfl
  | case4 n stack herror hmissing hhas ih =>
    have hmarked : ¬ n.isMarked = true := by simp [Node.isMarked, herror, hmissing]
    rw [ih, n.pushChildren_eq, List.flatMap_append, List.flatMap_cons, n.syntaxErrors_eq,
      if_neg hmarked, if_pos hhas]
  | case5 n stack herror hmissing hhas ih =>
    have hmarked : ¬ n.isMarked = true := by simp [Node.isMarked, herror, hmissing]
    rw [ih, List.flatMap_cons, n.syntaxErrors_eq, if_neg hmarked, if_neg hhas, List.nil_append]

/-! ### The full search -/

mutual

/-- The marked places at or below a node without a marked place around them, from the top down and
from left to right. Only what is below a marked node is left out of the search. -/
def Node.outermostMarks (steps : List Step) : Node → List Place
  | ⟨info, children⟩ =>
    if Node.isMarked ⟨info, children⟩ then [⟨⟨info, children⟩, steps⟩]
    else outermostMarksAmong steps ⟨info, children⟩ 0 children

def outermostMarksAmong (steps : List Step) (parent : Node) (index : Nat) : List Node → List Place
  | [] => []
  | c :: cs =>
    c.outermostMarks (⟨parent, index⟩ :: steps) ++
      outermostMarksAmong steps parent (index + 1) cs

end

namespace Place

variable {p q : Place}

def outermostMarks (p : Place) : List Place :=
  p.node.outermostMarks p.steps

theorem outermostMarksAmong_eq (steps : List Step) (parent : Node) (index : Nat) (cs : List Node) :
    outermostMarksAmong steps parent index cs =
      (placesFrom steps parent index cs).flatMap outermostMarks := by
  induction cs generalizing index with
  | nil => rfl
  | cons c cs ih =>
    rw [outermostMarksAmong, ih, placesFrom, List.flatMap_cons]
    rfl

theorem outermostMarks_eq (p : Place) :
    p.outermostMarks = if p.node.isMarked then [p] else p.children.flatMap outermostMarks := by
  obtain ⟨⟨info, children⟩, steps⟩ := p
  rw [outermostMarks, Node.outermostMarks, outermostMarksAmong_eq]
  rfl

/-- The search goes down through nodes that are not marked. -/
theorem found_outermostMarks (p : Place) :
    Found (fun n => n.isMarked = false) p p.outermostMarks := by
  induction p using Place.induction with
  | h p ih =>
    rw [outermostMarks_eq]
    split_ifs with hp
    · exact .here
    · exact .onward (Bool.eq_false_iff.mpr hp) (List.Sublist.refl _) ih

theorem isMarked_of_mem_outermostMarks (h : q ∈ p.outermostMarks) : q.node.isMarked = true := by
  induction p using Place.induction with
  | h p ih =>
    rw [outermostMarks_eq] at h
    split_ifs at h with hp
    · rwa [List.mem_singleton.mp h]
    · obtain ⟨c, hc, hq⟩ := List.mem_flatMap.mp h
      exact ih c hc hq

/-- A marked place is found unless something marked is around it. -/
theorem mem_outermostMarks (h : Below p q) (hmarked : q.node.isMarked = true)
    (houter : ∀ r, Below p r → Below r q → r ≠ q → r.node.isMarked = false) :
    q ∈ p.outermostMarks := by
  induction p using Place.induction with
  | h p ih =>
    rw [outermostMarks_eq]
    split_ifs with hp
    · have heq : p = q := by
        by_contra hne
        exact Bool.eq_false_iff.mp (houter p .refl h hne) hp
      rw [heq]
      exact List.mem_singleton_self q
    · rcases h.eq_or_child with rfl | ⟨c, hc, hcq⟩
      · exact absurd hmarked hp
      · apply List.mem_flatMap.mpr
        refine ⟨c, hc, ih c hc hcq fun r hr hrq => ?_⟩
        exact houter r ((below_of_mem_children hc).trans hr) hrq

/-- In a tree, what is around a place is the nodes of its ancestors. -/
theorem mem_outermostMarks_ofRoot_iff {root : Node} :
    p ∈ (ofRoot root).outermostMarks ↔
      Below (ofRoot root) p ∧ p.node.isMarked = true ∧
        ∀ n ∈ p.ancestors, n.isMarked = false := by
  constructor
  · intro hp
    have hfound := found_outermostMarks (ofRoot root)
    have hbelow := hfound.atOrBelow p hp
    refine ⟨hbelow, isMarked_of_mem_outermostMarks hp, fun n hn => ?_⟩
    rcases hbelow.exists_of_mem_ancestors hn with hn | ⟨r, hr, hrp, hne, rfl⟩
    · exact absurd hn List.not_mem_nil
    · exact hfound.between hp hr hrp hne
  · rintro ⟨hbelow, hmarked, hancestors⟩
    apply mem_outermostMarks hbelow hmarked
    intro r _ hrp hne
    exact hancestors _ (hrp.mem_ancestors hne)

/-- The places are found in the order of their addresses, and none is found twice. -/
theorem outermostMarks_ordered (p : Place) :
    p.outermostMarks.Pairwise fun q r => q.address < r.address := by
  induction p using Place.induction with
  | h p ih =>
    rw [outermostMarks_eq]
    split_ifs
    · exact List.pairwise_singleton _ _
    · apply List.pairwise_flatMap.mpr
      refine ⟨ih, p.children_ordered.imp fun {c d} hordered x hx y hy => ?_⟩
      exact hordered x y ((found_outermostMarks c).atOrBelow x hx)
        ((found_outermostMarks d).atOrBelow y hy)

theorem outermostMarks_eq_nil
    (h : p.node.Everywhere fun n => n.isMarked = false) : p.outermostMarks = [] := by
  induction p using Place.induction with
  | h p ih =>
    rw [outermostMarks_eq, if_neg (Bool.eq_false_iff.mp h.self), List.flatMap_eq_nil_iff]
    intro c hc
    exact ih c hc (h.below.of_mem (node_mem_of_mem_children hc))

/-- Nothing marked is left out with a node that no error is recorded at. -/
theorem syntaxErrors_eq_map (source : List Char) (h : p.node.RecordsErrors) :
    p.node.syntaxErrors source =
      p.outermostMarks.map fun q => q.node.markFinding source := by
  induction p using Place.induction with
  | h p ih =>
    rw [p.node.syntaxErrors_eq, outermostMarks_eq]
    split_ifs with hmarked hhas
    · rfl
    · rw [← map_node_children, List.flatMap_map, List.map_flatMap]
      apply List.flatMap_congr
      intro c hc
      exact ih c hc (h.below.of_mem (node_mem_of_mem_children hc))
    · have hbelow := h.self.resolve_left hhas
      have hnil : p.children.flatMap outermostMarks = [] := by
        rw [List.flatMap_eq_nil_iff]
        intro c hc
        exact outermostMarks_eq_nil (hbelow.of_mem (node_mem_of_mem_children hc))
      rw [hnil]
      rfl

end Place

/-- In a tree whose parser records an error wherever a marked node is below, the search on the stack
finds the marked places that no marked node is around, all of them and each once, in the order in
which a walk from the top down and from left to right meets them. -/
theorem syntaxErrors_outermost {root : Node} (h : root.RecordsErrors) (source : List Char) :
    ∃ places : List Place,
      syntaxErrorsOnStack source [root] = places.map (fun p => p.node.markFinding source) ∧
      root.syntaxErrors source = places.map (fun p => p.node.markFinding source) ∧
      (∀ p, p ∈ places ↔ Place.Below (Place.ofRoot root) p ∧ p.node.isMarked = true ∧
        ∀ n ∈ p.ancestors, n.isMarked = false) ∧
      places.Pairwise fun p q => p.address < q.address := by
  have hfindings := Place.syntaxErrors_eq_map (p := Place.ofRoot root) source h
  refine ⟨(Place.ofRoot root).outermostMarks, ?_, hfindings,
    fun p => Place.mem_outermostMarks_ofRoot_iff, Place.outermostMarks_ordered _⟩
  rw [syntaxErrorsOnStack_eq, List.flatMap_singleton]
  exact hfindings

/-- A made-up name inside text that fits nowhere is not reported, and a made-up token behind it in a
block is. -/
theorem syntaxErrors_outermost_nested :
    let source := "x @ {y}".toList
    let madeUp (kind : String) (offset : Nat) : Node :=
      ⟨⟨kind, true, true, false, true, offset, offset, none⟩, []⟩
    let block : Node :=
      ⟨⟨"statement_block", true, false, false, true, 4, 7, none⟩,
        [Node.token "\x7b" 4 5 none, Node.construct "identifier" 5 6 none [], madeUp ";" 6,
          Node.token "\x7d" 6 7 none]⟩
    let root : Node :=
      ⟨⟨"program", true, false, false, true, 0, 7, none⟩,
        [Node.construct "identifier" 0 1 none [],
          ⟨⟨"ERROR", true, false, true, true, 2, 3, none⟩, [madeUp "identifier" 3]⟩, block]⟩
    let found : List Finding :=
      [⟨⟨2, 3⟩, .unexpectedToken (some "@")⟩, ⟨⟨6, 6⟩, .tokenExpected ";"⟩]
    root.RecordsErrors ∧ syntaxErrorsOnStack source [root] = found ∧
      ∃ places : List Place, places.length = 2 ∧
        ∀ p, p ∈ places ↔ Place.Below (Place.ofRoot root) p ∧ p.node.isMarked = true ∧
          ∀ n ∈ p.ancestors, n.isMarked = false := by
  intro source madeUp block root found
  have hroot : root.RecordsErrors := by decide
  have hfound : root.syntaxErrors source = found := by decide
  obtain ⟨places, hstack, hfindings, hmem, -⟩ := syntaxErrors_outermost hroot source
  refine ⟨hroot, hstack.trans (hfindings.symm.trans hfound), places, ?_, hmem⟩
  rw [← List.length_map, ← hfindings, hfound]
  rfl

end UtsInsight
