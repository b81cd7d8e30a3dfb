import Mathlib.Tactic.SplitIfs
import UtsInsight.Proofs.Syntax.Order
import UtsInsight.Proofs.Syntax.Resolution
import UtsInsight.Typing.Expression

/-!
# The first return of a function

The return type of a function without an annotation is read off its body: off the first `return`
with a value that is the function's own. Statements nest, and a nested function or class has returns
of its own, so the search goes down through all constructs but these.

A search that keeps the constructs ahead of it on a stack finds the same value as the recursion over
the tree, and this is the value of the return that comes first in the text among all returns with a
value that lie in the body under no nested function or class body.
-/
namespace UtsInsight

open Place (Below)

/-! ### Values and searches -/

namespace Node

/-- The returns below the node are not those of a function around it. -/
def keepsReturns (n : Node) : Bool :=
  isFunctionKind n.kind || n.kind == "class_body"

/-- The first construct of a return statement. Unless comments stand in it or the parser put text
there that fits nowhere, it is the only one. -/
def value? (n : Node) : Option Node :=
  n.namedChildren.head?

/-- The stack after the constructs among the children of a node were put on it from the last to the
first. -/
def pushConstructs (n : Node) (stack : List Node) : List Node :=
  n.namedChildren.reverse.foldl (fun stack c => c :: stack) stack

theorem pushConstructs_eq (n : Node) (stack : List Node) :
    n.pushConstructs stack = n.namedChildren ++ stack := by
  rw [pushConstructs, List.foldl_reverse, List.foldr_cons_eq_append, List.map_id']

theorem sizeOf_pushConstructs_lt (n : Node) (stack : List Node) :
    sizeOf (n.pushConstructs stack) < sizeOf (n :: stack) := by
  refine Nat.lt_of_le_of_lt ?_ (n.sizeOf_pushChildren_lt stack)
  rw [pushConstructs_eq, pushChildren_eq, namedChildren]
  induction n.children with
  | nil => exact Nat.le_refl _
  | cons c cs ih =>
    rw [List.filter_cons]
    split <;> simp only [List.cons_append, List.cons.sizeOf_spec] <;> omega

end Node

/-- The first returned value among the constructs on a stack and below them. A construct is taken
off the stack; a return with a value ends the search, and what keeps its returns is dropped. -/
def returnedOnStack : List Node → Option Node
  | [] => none
  | n :: stack =>
    if n.kind = "return_statement" then
      match n.value? with
      | some value => some value
      | none => returnedOnStack stack
    else if n.keepsReturns then returnedOnStack stack
    else returnedOnStack (n.pushConstructs stack)
termination_by stack => sizeOf stack
decreasing_by
  · simp only [List.cons.sizeOf_spec]
    omega
  · simp only [List.cons.sizeOf_spec]
    omega
  · exact n.sizeOf_pushConstructs_lt stack

mutual

/-- The return statements at or below a node, from the top down and from left to right, that are
reached through constructs without passing one that keeps its returns. -/
def Node.ownReturns (steps : List Step) : Node → List Place
  | ⟨info, children⟩ =>
    if info.kind = "return_statement" then [⟨⟨info, children⟩, steps⟩]
    else if Node.keepsReturns ⟨info, children⟩ then []
    else ownReturnsAmong steps ⟨info, children⟩ 0 children

def ownReturnsAmong (steps : List Step) (parent : Node) (index : Nat) : List Node → List Place
  | [] => []
  | c :: cs =>
    (if c.isNamed then c.ownReturns (⟨parent, index⟩ :: steps) else [])
      ++ ownReturnsAmong steps parent (index + 1) cs

end

namespace Place

variable {p q r : Place}

def ownReturns (p : Place) : List Place :=
  p.node.ownReturns p.steps

theorem ownReturnsAmong_eq (steps : List Step) (parent : Node) (index : Nat) (cs : List Node) :
    ownReturnsAmong steps parent index cs =
      ((placesFrom steps parent index cs).filter (·.node.isNamed)).flatMap ownReturns := by
  induction cs generalizing index with
  | nil => rfl
  | cons c cs ih =>
    rw [ownReturnsAmong, ih, placesFrom, List.filter_cons]
    dsimp only
    split
    · rw [List.flatMap_cons]
      rfl
    · rw [List.nil_append]

theorem ownReturns_eq (p : Place) :
    p.ownReturns =
      if p.node.kind = "return_statement" then [p]
      else if p.node.keepsReturns then []
      else p.constructs.flatMap ownReturns := by
  obtain ⟨⟨info, children⟩, steps⟩ := p
  rw [ownReturns, Node.ownReturns, ownReturnsAmong_eq]
  rfl

/-! ### Returns of a body -/

/-- The return statement lies in a body and is its function's own: on the way to it are constructs,
none of them a function or the body of a class. -/
structure OwnReturn (body q : Place) : Prop where
  below : Below body q
  isReturn : q.node.kind = "return_statement"
  reached : ∀ r, Below body r → Below r q → r ≠ body →
    r.node.isNamed = true ∧ r.node.keepsReturns = false

/-- The return statement lies in a body under no nested function or class body, whatever else is on
the way. -/
def ReturnsFrom (body q : Place) : Prop :=
  Below body q ∧ q.node.kind = "return_statement" ∧
    ∀ r, Below body r → Below r q → r ≠ body → r.node.keepsReturns = false

/-- If tokens are leaves, nothing but functions and class bodies is ever in the way. -/
theorem ownReturn_iff {body : Place} (htokens : body.node.Everywhere fun n =>
    n.isNamed = false → n.children = [] ∧ n.kind ≠ "return_statement") :
    OwnReturn body q ↔ ReturnsFrom body q := by
  constructor
  · intro h
    exact ⟨h.below, h.isReturn, fun r hr hrq hne => (h.reached r hr hrq hne).2⟩
  · rintro ⟨hbelow, hreturn, hway⟩
    refine ⟨hbelow, hreturn, fun r hr hrq hne => ⟨?_, hway r hr hrq hne⟩⟩
    by_contra htoken
    obtain ⟨hleaf, hkind⟩ := (hr.everywhere htokens).self (Bool.eq_false_iff.mpr htoken)
    rcases hrq.eq_or_child with rfl | ⟨c, hc, -⟩
    · exact hkind hreturn
    · rw [children, hleaf] at hc
      exact absurd hc List.not_mem_nil

theorem keepsReturns_of_isReturn {n : Node} (h : n.kind = "return_statement") :
    n.keepsReturns = false := by
  rw [Node.keepsReturns, h]
  decide

theorem keepsReturns_of_isBlock {n : Node} (h : n.kind = "statement_block") :
    n.keepsReturns = false := by
  rw [Node.keepsReturns, h]
  decide

theorem keepsReturns_of_mem (h : q ∈ p.ownReturns) : p.node.keepsReturns = false := by
  rw [ownReturns_eq] at h
  split_ifs at h with hreturn hkeeps
  · exact keepsReturns_of_isReturn hreturn
  · exact absurd h List.not_mem_nil
  · exact Bool.eq_false_iff.mpr hkeeps

/-- A place is not below its children. -/
theorem ne_of_below_child {c : Place} (hc : c ∈ p.children) (h : Below c q) : q ≠ p := by
  rintro rfl
  obtain ⟨i, n, _, rfl⟩ := eq_of_mem_children hc
  exact h.path_ne_cons i rfl

theorem ownReturn_of_mem (h : q ∈ p.ownReturns) : OwnReturn p q := by
  induction p using Place.induction with
  | h p ih =>
    rw [ownReturns_eq] at h
    split_ifs at h with hreturn hkeeps
    · obtain rfl := List.mem_singleton.mp h
      exact ⟨.refl, hreturn, fun r hr hr' hne => absurd (hr'.antisymm hr) hne⟩
    · exact absurd h List.not_mem_nil
    · obtain ⟨c, hc, hq⟩ := List.mem_flatMap.mp h
      obtain ⟨hchild, hnamed⟩ := List.mem_filter.mp hc
      have hown := ih c hchild hq
      refine ⟨(below_of_mem_children hchild).trans hown.below, hown.isReturn, ?_⟩
      intro r hr hrq hne
      have hcr := child_on_way hchild hown.below hr hrq (Ne.symm hne)
      by_cases hrc : r = c
      · rw [hrc]
        exact ⟨hnamed, keepsReturns_of_mem hq⟩
      · exact hown.reached r hcr hrq hrc

/-- The way from a place to a return below it begins with a construct. -/
theorem OwnReturn.eq_or_construct (h : OwnReturn p q) :
    p = q ∨ ∃ c ∈ p.constructs, OwnReturn c q ∧ c.node.keepsReturns = false := by
  apply h.below.eq_or_child.imp_right
  rintro ⟨c, hc, hcq⟩
  have hbelow := below_of_mem_children hc
  obtain ⟨hnamed, hkeeps⟩ := h.reached c hbelow hcq (ne_of_below_child hc .refl)
  refine ⟨c, List.mem_filter.mpr ⟨hc, hnamed⟩, ⟨hcq, h.isReturn, fun r hcr hrq _ => ?_⟩, hkeeps⟩
  exact h.reached r (hbelow.trans hcr) hrq (ne_of_below_child hc hcr)

/-- The search leaves out only what is below a return with a value. -/
theorem OwnReturn.exists_mem (h : OwnReturn p q) (hp : p.node.keepsReturns = false) :
    ∃ r ∈ p.ownReturns, Below r q ∧ (r = q ∨ r.node.value?.isSome) := by
  induction p using Place.induction with
  | h p ih =>
    rw [ownReturns_eq]
    by_cases hreturn : p.node.kind = "return_statement"
    · rw [if_pos hreturn]
      refine ⟨p, List.mem_singleton_self p, h.below, h.eq_or_construct.imp_right ?_⟩
      rintro ⟨c, hc, -⟩
      rw [Node.value?, ← map_node_constructs, List.isSome_head?]
      exact List.ne_nil_of_mem (List.mem_map_of_mem hc)
    · rw [if_neg hreturn, hp, if_neg Bool.false_ne_true]
      rcases h.eq_or_construct with rfl | ⟨c, hc, hown, hkeeps⟩
      · exact absurd h.isReturn hreturn
      · obtain ⟨r, hr, hrest⟩ := ih c (mem_children_of_mem_constructs hc) hown hkeeps
        exact ⟨r, List.mem_flatMap.mpr ⟨c, hc, hr⟩, hrest⟩

/-- The returns are found in the order of the text. -/
theorem ownReturns_ordered (p : Place) :
    p.ownReturns.Pairwise fun q r => q.address < r.address := by
  induction p using Place.induction with
  | h p ih =>
    rw [ownReturns_eq]
    split_ifs
    · exact List.pairwise_singleton _ _
    · exact .nil
    · apply List.pairwise_flatMap.mpr
      refine ⟨fun c hc => ih c (mem_children_of_mem_constructs hc), ?_⟩
      refine (p.children_ordered.sublist p.constructs_sublist).imp fun {c d} hordered x hx y hy => ?_
      exact hordered x y (ownReturn_of_mem hx).below (ownReturn_of_mem hy).below

/-- A place comes before what is below it. -/
theorem Below.address_le (h : Below p q) : p = q ∨ p.address < q.address := by
  rcases h.eq_or_ne with heq | hne
  · exact .inl heq
  · obtain ⟨t, ht⟩ := h.address
    right
    rw [← ht, ← List.append_nil p.address, List.append_assoc, List.nil_append]
    apply List.append_left_lt
    cases t with
    | nil =>
      rw [List.append_nil] at ht
      exact absurd (List.reverse_injective ht) hne
    | cons i t => exact List.nil_lt_cons i t

/-- The return is its function's own, it has the value, and every other own return with a value comes
later in the text. -/
structure FirstReturn (body q : Place) (value : Node) : Prop where
  own : OwnReturn body q
  value : q.node.value? = some value
  first : ∀ r, OwnReturn body r → r.node.value?.isSome → q = r ∨ q.address < r.address

theorem FirstReturn.unique {value value' : Node} (h : FirstReturn p q value)
    (h' : FirstReturn p r value') : value = value' := by
  have hqr : q = r := by
    rcases h.first r h'.own (by rw [h'.value]; rfl) with heq | hlt
    · exact heq
    · rcases h'.first q h.own (by rw [h.value]; rfl) with heq | hlt'
      · exact heq.symm
      · exact absurd (List.lt_trans hlt hlt') (List.lt_irrefl _)
  have hvalue := h.value
  rw [hqr, h'.value] at hvalue
  exact (Option.some.inj hvalue).symm

theorem exists_firstReturn (hp : p.node.keepsReturns = false) {value : Node}
    (h : p.ownReturns.findSome? (·.node.value?) = some value) : ∃ q, FirstReturn p q value := by
  obtain ⟨before, q, after, hsplit, hvalue, hnone⟩ := List.findSome?_eq_some_iff.mp h
  have hordered := p.ownReturns_ordered
  rw [hsplit, List.pairwise_append, List.pairwise_cons] at hordered
  have hown : OwnReturn p q := by
    apply ownReturn_of_mem
    rw [hsplit]
    exact List.mem_append_right _ List.mem_cons_self
  refine ⟨q, hown, hvalue, fun r hr hsome => ?_⟩
  -- the return is found, or one with a value that it lies below
  obtain ⟨found, hfound, hbelow, hfoundsome⟩ := hr.exists_mem hp
  replace hfoundsome : found.node.value?.isSome := by
    rcases hfoundsome with rfl | hfoundsome
    · exact hsome
    · exact hfoundsome
  have hlater : q = found ∨ q.address < found.address := by
    rw [hsplit, List.mem_append, List.mem_cons] at hfound
    rcases hfound with hmem | rfl | hmem
    · rw [hnone found hmem] at hfoundsome
      cases hfoundsome
    · exact .inl rfl
    · exact .inr (hordered.2.1.1 found hmem)
  rcases hlater with rfl | hlt
  · exact hbelow.address_le
  · rcases hbelow.address_le with rfl | hlt'
    · exact .inr hlt
    · exact .inr (List.lt_trans hlt hlt')

theorem findSome?_ownReturns_eq_none_iff (hp : p.node.keepsReturns = false) :
    p.ownReturns.findSome? (·.node.value?) = none ↔
      ∀ q, OwnReturn p q → q.node.value? = none := by
  rw [List.findSome?_eq_none_iff]
  constructor
  · intro h q hq
    obtain ⟨r, hr, _, rfl | hsome⟩ := hq.exists_mem hp
    · exact h r hr
    · rw [h r hr] at hsome
      cases hsome
  · exact fun h q hq => h q (ownReturn_of_mem hq)

/-- The search finds the value of the first return. -/
theorem findSome?_ownReturns_eq_some_iff (hp : p.node.keepsReturns = false) {value : Node} :
    p.ownReturns.findSome? (·.node.value?) = some value ↔ ∃ q, FirstReturn p q value := by
  constructor
  · exact exists_firstReturn hp
  · rintro ⟨q, hq⟩
    cases hfound : p.ownReturns.findSome? (·.node.value?) with
    | none =>
      have hnone := (findSome?_ownReturns_eq_none_iff hp).mp hfound q hq.own
      rw [hq.value] at hnone
      cases hnone
    | some value' =>
      obtain ⟨r, hr⟩ := exists_firstReturn hp hfound
      rw [hr.unique hq]

end Place

/-! ### The search on a stack and the recursion -/

/-- On the stack, the same returns are met in the same order. -/
theorem returnedOnStack_eq (stack : List Node) :
    ∀ ps : List Place, ps.map (·.node) = stack →
      returnedOnStack stack = (ps.flatMap (·.ownReturns)).findSome? (·.node.value?) := by
  fun_induction returnedOnStack stack with
  | case1 =>
    intro ps hps
    rw [List.map_eq_nil_iff.mp hps]
    rfl
  | case2 n stack hreturn value hvalue =>
    intro ps hps
    obtain ⟨p, ps, rfl, rfl, rfl⟩ := List.map_eq_cons_iff.mp hps
    rw [List.flatMap_cons, Place.ownReturns_eq, if_pos hreturn, List.singleton_append,
      List.findSome?_cons, hvalue]
  | case3 n stack hreturn hvalue ih =>
    intro ps hps
    obtain ⟨p, ps, rfl, rfl, rfl⟩ := List.map_eq_cons_iff.mp hps
    rw [List.flatMap_cons, Place.ownReturns_eq, if_pos hreturn, List.singleton_append,
      List.findSome?_cons, hvalue]
    exact ih ps rfl
  | case4 n stack hreturn hkeeps ih =>
    intro ps hps
    obtain ⟨p, ps, rfl, rfl, rfl⟩ := List.map_eq_cons_iff.mp hps
    rw [List.flatMap_cons, Place.ownReturns_eq, if_neg hreturn, if_pos hkeeps, List.nil_append]
    exact ih ps rfl
  | case5 n stack hreturn hkeeps ih =>
    intro ps hps
    obtain ⟨p, ps, rfl, rfl, rfl⟩ := List.map_eq_cons_iff.mp hps
    have hpushed : (p.constructs ++ ps).map (·.node) =
        p.node.pushConstructs (ps.map (·.node)) := by
      rw [List.map_append, Place.map_node_constructs, Node.pushConstructs_eq]
    rw [ih _ hpushed, List.flatMap_append, List.flatMap_cons, Place.ownReturns_eq p,
      if_neg hreturn, if_neg hkeeps]

theorem returnedOnStack_singleton (p : Place) :
    returnedOnStack [p.node] = p.ownReturns.findSome? (·.node.value?) := by
  rw [returnedOnStack_eq [p.node] [p] rfl, List.flatMap_singleton]

/-- In a body whose tokens are leaves, the search finds the value of the first return that lies in
the body under no nested function or class body and has a value, and nothing if there is none. -/
theorem returnedOnStack_returnsFrom {body : Place} (hblock : body.node.kind = "statement_block")
    (htokens : body.node.Everywhere fun n =>
      n.isNamed = false → n.children = [] ∧ n.kind ≠ "return_statement") :
    (∀ value, returnedOnStack [body.node] = some value ↔
      ∃ q, Place.ReturnsFrom body q ∧ q.node.value? = some value ∧
        ∀ r, Place.ReturnsFrom body r → r.node.value?.isSome → q = r ∨ q.address < r.address) ∧
    (returnedOnStack [body.node] = none ↔
      ∀ q, Place.ReturnsFrom body q → q.node.value? = none) := by
  have hkeeps := Place.keepsReturns_of_isBlock hblock
  have hown : ∀ q, Place.OwnReturn body q ↔ Place.ReturnsFrom body q :=
    fun q => Place.ownReturn_iff htokens
  rw [returnedOnStack_singleton]
  refine ⟨fun value => ?_, ?_⟩
  · rw [Place.findSome?_ownReturns_eq_some_iff hkeeps]
    refine exists_congr fun q => ⟨fun hq => ?_, fun ⟨hreturns, hvalue, hfirst⟩ => ?_⟩
    · exact ⟨(hown q).mp hq.own, hq.value, fun r hr => hq.first r ((hown r).mpr hr)⟩
    · exact ⟨(hown q).mpr hreturns, hvalue, fun r hr => hfirst r ((hown r).mp hr)⟩
  · rw [Place.findSome?_ownReturns_eq_none_iff hkeeps]
    exact forall_congr' fun q => by rw [hown]

section

variable {m : Type → Type} [Monad m] (context : TypingContext) (lookup : DeclId → m String)
  (depth : Nat)

theorem returned?_eq (cs : List Node) :
    returned? context lookup depth cs =
      (cs.filter (·.isNamed)).head?.map (typeOfExpression context lookup (depth + 1)) := by
  induction cs with
  | nil => rfl
  | cons c cs ih =>
    rw [returned?, ih, List.filter_cons]
    split <;> rfl

theorem firstReturnBelow?_eq (cs : List Node) :
    firstReturnBelow? context lookup depth cs =
      (cs.filter (·.isNamed)).findSome? (firstReturn? context lookup depth) := by
  induction cs with
  | nil => rfl
  | cons c cs ih =>
    rw [firstReturnBelow?, ih, List.filter_cons]
    split
    · rw [List.findSome?_cons]
      cases firstReturn? context lookup depth c <;> rfl
    · rfl

theorem firstReturn?_node (n : Node) :
    firstReturn? context lookup depth n =
      if n.kind = "return_statement" then returned? context lookup depth n.children
      else if n.keepsReturns then none
      else firstReturnBelow? context lookup depth n.children := by
  cases n
  rw [firstReturn?]
  rfl

/-- The recursion over the tree computes the type of the first value that the search finds. -/
theorem firstReturn?_eq (p : Place) :
    firstReturn? context lookup depth p.node =
      (p.ownReturns.findSome? (·.node.value?)).map
        (typeOfExpression context lookup (depth + 1)) := by
  induction p using Place.induction with
  | h p ih =>
    rw [Place.ownReturns_eq, firstReturn?_node]
    split_ifs with hreturn hkeeps
    · rw [returned?_eq, List.findSome?_singleton]
      rfl
    · rfl
    · rw [firstReturnBelow?_eq, ← Node.namedChildren, ← Place.map_node_constructs]
      have hbelow : ∀ c ∈ p.constructs, firstReturn? context lookup depth c.node =
          (c.ownReturns.findSome? (·.node.value?)).map
            (typeOfExpression context lookup (depth + 1)) :=
        fun c hc => ih c (Place.mem_children_of_mem_constructs hc)
      generalize p.constructs = cs at hbelow
      induction cs with
      | nil => rfl
      | cons c cs ihcs =>
        rw [List.map_cons, List.findSome?_cons, hbelow c List.mem_cons_self, List.flatMap_cons,
          List.findSome?_append, ihcs fun d hd => hbelow d (List.mem_cons_of_mem c hd)]
        cases c.ownReturns.findSome? (·.node.value?) <;> rfl

theorem typeOfBody_eq {cs : List Node} {body : Node}
    (hbody : cs.find? (·.field == some "body") = some body)
    (hblock : body.kind = "statement_block") :
    typeOfBody context lookup depth cs =
      match firstReturn? context lookup depth body with
      | some type => type
      | none => pure "void" := by
  induction cs with
  | nil => cases hbody
  | cons c cs ih =>
    obtain ⟨info, children⟩ := c
    rw [List.find?_cons] at hbody
    rw [typeOfBody]
    split at hbody
    next hfield =>
      obtain rfl := Option.some.inj hbody
      have hother : info.kind = "statement_block" := hblock
      rw [if_pos hfield, if_pos hother, firstReturn?, hother]
      rfl
    next hfield =>
      rw [if_neg (by rw [hfield]; exact Bool.false_ne_true), ih hbody]

/-- The return type that is inferred for a function whose body is a block is the type of the first
value that a search on a stack finds in the body, and `void` if it finds none. What it finds is the
value of the first return of the function's own that has one, and it finds none only if there is
none. -/
theorem typeOfBody_firstReturn {p body : Place} (hbody : p.child? "body" = some body)
    (hblock : body.node.kind = "statement_block") :
    let found := returnedOnStack [body.node]
    (typeOfBody context lookup depth p.node.children =
      match found with
      | some value => typeOfExpression context lookup (depth + 1) value
      | none => pure "void") ∧
    (∀ value, found = some value ↔ ∃ q, Place.FirstReturn body q value) ∧
    (found = none ↔ ∀ q, Place.OwnReturn body q → q.node.value? = none) := by
  intro found
  have hkeeps := Place.keepsReturns_of_isBlock hblock
  have hfound : found = body.ownReturns.findSome? (·.node.value?) := returnedOnStack_singleton body
  have hchild : p.node.children.find? (·.field == some "body") = some body.node := by
    have hmap := p.map_node_child? "body"
    rw [hbody] at hmap
    exact hmap.symm
  refine ⟨?_, fun value => ?_, ?_⟩
  · rw [typeOfBody_eq context lookup depth hchild hblock, firstReturn?_eq, ← hfound]
    cases found <;> rfl
  · rw [hfound]
    exact Place.findSome?_ownReturns_eq_some_iff hkeeps
  · rw [hfound]
    exact Place.findSome?_ownReturns_eq_none_iff hkeeps

end

/-! ### A function with returns that do not count -/

section

open Node

/-- The tree of `function f(){{return;}()=>{return 1;};return "";}`. -/
def nestedReturns : Node :=
  construct "function_declaration" 0 49 none
    [token "function" 0 8 none, construct "identifier" 9 10 (some "name") [],
      construct "formal_parameters" 10 12 (some "parameters") [],
      construct "statement_block" 12 49 (some "body")
        [token "\x7b" 12 13 none,
          construct "statement_block" 13 22 none
            [token "\x7b" 13 14 none,
              construct "return_statement" 14 21 none
                [token "return" 14 20 none, token ";" 20 21 none],
              token "\x7d" 21 22 none],
          construct "expression_statement" 22 38 none
            [construct "arrow_function" 22 37 none
              [construct "formal_parameters" 22 24 (some "parameters") [], token "=>" 24 26 none,
                construct "statement_block" 26 37 (some "body")
                  [token "\x7b" 26 27 none,
                    construct "return_statement" 27 36 none
                      [token "return" 27 33 none, construct "number" 34 35 none [],
                        token ";" 35 36 none],
                    token "\x7d" 36 37 none]],
              token ";" 37 38 none],
          construct "return_statement" 38 48 none
            [token "return" 38 44 none, construct "string" 45 47 none [], token ";" 47 48 none],
          token "\x7d" 48 49 none]]

/-- Neither the return without a value nor that of the arrow function decides the type. -/
theorem typeOfBody_firstReturn_nested :
    ∃ body : Place, (Place.ofRoot nestedReturns).child? "body" = some body ∧
      body.node.kind = "statement_block" ∧
      Id.run (typeOfBody ⟨[], .empty⟩ (fun _ => pure unknownType) 0 nestedReturns.children) =
        "string" ∧
      ∃ q value, Place.FirstReturn body q value ∧ value.range = ⟨45, 47⟩ := by
  obtain ⟨body, hbody⟩ : ∃ body, (Place.ofRoot nestedReturns).child? "body" = some body :=
    ⟨_, rfl⟩
  have hblock : body.node.kind = "statement_block" := by
    cases hbody
    rfl
  obtain ⟨htype, hfirst, -⟩ := typeOfBody_firstReturn ⟨[], .empty⟩
    (fun _ => (pure unknownType : Id String)) 0 hbody hblock
  have hfound : (returnedOnStack [body.node]).map (fun n => (n.kind, n.range)) =
      some ("string", ⟨45, 47⟩) := by
    rw [returnedOnStack_singleton]
    cases hbody
    decide +kernel
  obtain ⟨value, hvalue, heq⟩ := Option.map_eq_some_iff.mp hfound
  obtain ⟨hkind, hrange⟩ := Prod.mk.inj heq
  obtain ⟨q, hq⟩ := (hfirst value).mp hvalue
  refine ⟨body, hbody, hblock, ?_, q, value, hq, hrange⟩
  rw [hvalue] at htype
  obtain ⟨info, children⟩ := value
  have hform : expressionForm info.kind = .literal "string" := by
    rw [show info.kind = "string" from hkind]
    decide
  rw [show nestedReturns.children = (Place.ofRoot nestedReturns).node.children from rfl, htype]
  simp only [typeOfExpression, hform, if_neg (show ¬ maxExpressionDepth < 0 + 1 by decide)]
  rfl

end

end UtsInsight
