import Mathlib.Data.List.Forall2
import Mathlib.Data.List.Basic
import UtsInsight.Syntax.Everywhere
import UtsInsight.Scope.Pattern

/-!
# Trees without their comments

Comments are constructs like any other in a tree, so whatever takes the first, the last or all
constructs of a node may come upon one. Leaving all comments out of a tree changes which children a
node has and at which indices they are, but nothing that a node says about itself, and no child in a
role.

A node takes a comment for a construct if it looks for a construct by its position and a comment is
in that position. Where no node does, what is found in the tree is also found in the tree without
comments.
-/
namespace UtsInsight

/-! ### Comments -/

namespace Node

def isComment (n : Node) : Bool :=
  n.kind == "comment"

/-- A comment is a leaf without a role, covers some text and is no error. -/
def PlainIfComment (n : Node) : Prop :=
  n.isComment = true →
    n.children = [] ∧ n.field = none ∧ n.isError = false ∧ n.isMissing = false ∧ n.start < n.stop

instance (n : Node) : Decidable n.PlainIfComment :=
  inferInstanceAs (Decidable (_ → _))

end Node

mutual

/-- The tree without the comments below its root. -/
def Node.bare : Node → Node
  | ⟨info, children⟩ => ⟨info, bareBelow children⟩

def bareBelow : List Node → List Node
  | [] => []
  | c :: cs => if c.isComment then bareBelow cs else c.bare :: bareBelow cs

end

mutual

/-- Whether the way down through the first constructs meets a comment before an identifier. -/
def Node.leadsToComment : Node → Bool
  | ⟨info, children⟩ => info.kind != "identifier" && leadsToCommentBelow children

def leadsToCommentBelow : List Node → Bool
  | [] => false
  | c :: cs => if c.isNamed then c.isComment || c.leadsToComment else leadsToCommentBelow cs

end

/-- Constructs that state a type. -/
def annotationKinds : List String :=
  ["type_annotation", "opting_type_annotation", "omitting_type_annotation"]

/-- Constructs of which the first construct in them is taken. -/
def firstTakers : List String :=
  "return_statement" :: "await_expression" :: annotationKinds

/-- Constructs of which the last construct in them is taken. -/
def lastTakers : List String :=
  ["parenthesized_expression", "non_null_expression", "sequence_expression"]

/-- Constructs that are taken to hold an expression and a type. -/
def pairTakers : List String :=
  ["as_expression", "satisfies_expression"]

/-- Constructs of whose dotted name the first identifier is taken. -/
def dottedTakers : List String :=
  ["internal_module", "module"]

namespace Node

/-- Whether a comment is in the way where a construct is sought in the node by its position. -/
def takesComment (n : Node) : Bool :=
  (firstTakers.contains n.kind && n.namedChildren.head?.any (·.isComment))
    || (lastTakers.contains n.kind && n.namedChildren.getLast?.any (·.isComment))
    || (pairTakers.contains n.kind && n.namedChildren.any (·.isComment))
    || (dottedTakers.contains n.kind && (n.child? "name").any fun name =>
      name.kind == "nested_identifier" && name.leadsToComment)

/-- The node is a plain comment if it is one, and takes none for a construct. -/
def CommentsAside (n : Node) : Prop :=
  n.PlainIfComment ∧ n.takesComment = false

variable {n c : Node} {role : String} {source : List Char} {P : Node → Prop}

theorem PlainIfComment.exists_leaf (h : n.PlainIfComment) (hn : n.isComment = true) :
    ∃ info : NodeInfo, n = ⟨info, []⟩ ∧ info.kind = "comment" ∧ info.isError = false ∧
      info.isMissing = false := by
  obtain ⟨hchildren, _, herror, hmissing, _⟩ := h hn
  obtain ⟨info, children⟩ := n
  obtain rfl : children = [] := hchildren
  exact ⟨info, rfl, beq_iff_eq.mp hn, herror, hmissing⟩

theorem takesComment_of_first (hkind : n.kind ∈ firstTakers) :
    n.takesComment = n.namedChildren.head?.any (·.isComment) := by
  have hothers : ∀ kind ∈ firstTakers,
      kind ∉ lastTakers ∧ kind ∉ pairTakers ∧ kind ∉ dottedTakers := by
    decide
  simp [takesComment, hkind, hothers n.kind hkind]

theorem takesComment_of_last (hkind : n.kind ∈ lastTakers) :
    n.takesComment = n.namedChildren.getLast?.any (·.isComment) := by
  have hothers : ∀ kind ∈ lastTakers,
      kind ∉ firstTakers ∧ kind ∉ pairTakers ∧ kind ∉ dottedTakers := by
    decide
  simp [takesComment, hkind, hothers n.kind hkind]

theorem takesComment_of_pair (hkind : n.kind ∈ pairTakers) :
    n.takesComment = n.namedChildren.any (·.isComment) := by
  have hothers : ∀ kind ∈ pairTakers,
      kind ∉ firstTakers ∧ kind ∉ lastTakers ∧ kind ∉ dottedTakers := by
    decide
  simp [takesComment, hkind, hothers n.kind hkind]

theorem leadsToComment_of_dotted (hkind : n.kind ∈ dottedTakers) (h : n.takesComment = false)
    {name : Node} (hname : n.child? "name" = some name)
    (hdotted : name.kind = "nested_identifier") : name.leadsToComment = false := by
  have hothers : ∀ kind ∈ dottedTakers,
      kind ∉ firstTakers ∧ kind ∉ lastTakers ∧ kind ∉ pairTakers := by
    decide
  simpa [takesComment, hkind, hothers n.kind hkind, hname, hdotted] using h

/-! ### What stays -/

@[simp] theorem bare_toNodeInfo (n : Node) : n.bare.toNodeInfo = n.toNodeInfo := by
  cases n
  rfl

@[simp] theorem bare_children (n : Node) : n.bare.children = bareBelow n.children := by
  cases n
  rfl

@[simp] theorem range_bare (n : Node) : n.bare.range = n.range := by
  simp [range]

@[simp] theorem chars_bare (n : Node) (source : List Char) :
    n.bare.chars source = n.chars source := by
  simp [chars]

@[simp] theorem text_bare (n : Node) (source : List Char) : n.bare.text source = n.text source := by
  simp [text]

@[simp] theorem plainText_bare (n : Node) (source : List Char) :
    n.bare.plainText source = n.plainText source := by
  simp [plainText]

end Node

section

variable {cs : List Node} {p : Node → Bool}

theorem bareBelow_append (cs cs' : List Node) :
    bareBelow (cs ++ cs') = bareBelow cs ++ bareBelow cs' := by
  induction cs with
  | nil => rfl
  | cons c cs ih =>
    simp only [List.cons_append, bareBelow, ih]
    split <;> rfl

theorem bareBelow_eq_map (cs : List Node) :
    bareBelow cs = (cs.filter fun c => !c.isComment).map Node.bare := by
  induction cs with
  | nil => rfl
  | cons c cs ih =>
    cases hc : c.isComment <;> simp [bareBelow, hc, ih]

/-- A property that does not look at children selects before or after comments are left out. -/
theorem filter_bareBelow (hp : ∀ c : Node, p c.bare = p c) (cs : List Node) :
    (bareBelow cs).filter p = bareBelow (cs.filter p) := by
  rw [bareBelow_eq_map, bareBelow_eq_map, List.filter_map, List.filter_filter, List.filter_filter]
  congr 1
  apply List.filter_congr
  intro c _
  simp [hp, Bool.and_comm]

/-- What is no comment is found in either list. -/
theorem find?_bareBelow (hp : ∀ c : Node, p c.bare = p c)
    (hcomment : ∀ c ∈ cs, c.isComment = true → p c = false) :
    (bareBelow cs).find? p = (cs.find? p).map Node.bare := by
  induction cs with
  | nil => rfl
  | cons c cs ih =>
    have hrest := ih fun c' hc' => hcomment c' (List.mem_cons_of_mem c hc')
    cases hc : c.isComment with
    | true =>
      have hpc := hcomment c List.mem_cons_self hc
      simp [bareBelow, hc, hpc, hrest]
    | false => cases hpc : p c <;> simp [bareBelow, hc, hp, hpc, hrest]

theorem any_bareBelow (hp : ∀ c : Node, p c.bare = p c)
    (hcomment : ∀ c ∈ cs, c.isComment = true → p c = false) : (bareBelow cs).any p = cs.any p := by
  induction cs with
  | nil => rfl
  | cons c cs ih =>
    have hrest := ih fun c' hc' => hcomment c' (List.mem_cons_of_mem c hc')
    cases hc : c.isComment with
    | true => simp [bareBelow, hc, hrest, hcomment c List.mem_cons_self hc]
    | false => simp [bareBelow, hc, hrest, hp]

/-- Where comments contribute nothing, the list without them gives the same. -/
theorem flatMap_bareBelow {α : Type} {f g : Node → List α}
    (h : ∀ c ∈ cs, c.isComment = false → f c.bare = g c)
    (hcomment : ∀ c ∈ cs, c.isComment = true → g c = []) :
    (bareBelow cs).flatMap f = cs.flatMap g := by
  induction cs with
  | nil => rfl
  | cons c cs ih =>
    have hrest := ih (fun c' hc' => h c' (List.mem_cons_of_mem c hc'))
      fun c' hc' => hcomment c' (List.mem_cons_of_mem c hc')
    cases hc : c.isComment with
    | true => simp [bareBelow, hc, hrest, hcomment c List.mem_cons_self hc]
    | false => simp [bareBelow, hc, hrest, h c List.mem_cons_self hc]

theorem foldl_bareBelow {α : Type} {f g : α → Node → α}
    (h : ∀ c ∈ cs, c.isComment = false → ∀ a, f a c.bare = g a c)
    (hcomment : ∀ c ∈ cs, c.isComment = true → ∀ a, g a c = a) (a : α) :
    (bareBelow cs).foldl f a = cs.foldl g a := by
  induction cs generalizing a with
  | nil => rfl
  | cons c cs ih =>
    have hrest := ih (fun c' hc' => h c' (List.mem_cons_of_mem c hc'))
      fun c' hc' => hcomment c' (List.mem_cons_of_mem c hc')
    cases hc : c.isComment with
    | true => simp [bareBelow, hc, hrest, hcomment c List.mem_cons_self hc]
    | false => simp [bareBelow, hc, hrest, h c List.mem_cons_self hc]

theorem head?_bareBelow (h : cs.head?.any (·.isComment) = false) :
    (bareBelow cs).head? = cs.head?.map Node.bare := by
  cases cs with
  | nil => rfl
  | cons c cs =>
    have hc : c.isComment = false := by simpa using h
    simp [bareBelow, hc]

end

namespace Node

variable {n c : Node} {role : String} {source : List Char} {P : Node → Prop}

theorem namedChildren_bare (n : Node) : n.bare.namedChildren = bareBelow n.namedChildren := by
  simp [namedChildren, filter_bareBelow]

/-- The child in a role is no comment. -/
theorem child?_bare (h : ∀ c ∈ n.children, c.PlainIfComment) (role : String) :
    n.bare.child? role = (n.child? role).map Node.bare := by
  rw [child?, bare_children, child?]
  apply find?_bareBelow
  · intro c
    rw [bare_toNodeInfo]
  · intro c hc hcomment
    simp [(h c hc hcomment).2.1]

theorem Everywhere.of_mem_children (h : n.Everywhere P) (hc : c ∈ n.children) : c.Everywhere P :=
  h.below.of_mem hc

theorem Everywhere.child? (h : n.Everywhere P) (hc : n.child? role = some c) : c.Everywhere P :=
  h.of_mem_children (List.mem_of_find?_eq_some hc)

theorem Everywhere.of_mem_namedChildren (h : n.Everywhere P) (hc : c ∈ n.namedChildren) :
    c.Everywhere P :=
  h.of_mem_children (List.mem_of_mem_filter hc)

theorem Everywhere.plain (h : n.Everywhere CommentsAside) :
    ∀ c ∈ n.children, c.PlainIfComment :=
  fun _ hc => (h.of_mem_children hc).self.1

theorem annotationText_bare (h : n.takesComment = false) (source : List Char) :
    n.bare.annotationText source = n.annotationText source := by
  unfold annotationText
  rw [bare_toNodeInfo, chars_bare, namedChildren_bare]
  split
  · rename_i hkind
    have hmem : n.kind ∈ annotationKinds := List.contains_iff_mem.mp hkind
    rw [takesComment_of_first (by simp [firstTakers, hmem])] at h
    cases hnamed : n.namedChildren with
    | nil => rfl
    | cons inner rest =>
      have hinner : inner.isComment = false := by simpa [hnamed] using h
      simp [bareBelow, hinner]
  · rfl

end Node

@[simp] theorem NodeRef.of_bare (n : Node) : NodeRef.of n.bare = NodeRef.of n := by
  simp [NodeRef.of]

/-! ### Places -/

/-- The second step is the first one in the tree without comments. -/
structure Step.Bare (s s' : Step) : Prop where
  parent : s'.parent = s.parent.bare
  isChild : ∀ role, s'.isChild role = s.isChild role
  aside : s.parent.Everywhere Node.CommentsAside

/-- The second place is the first one in the tree without comments. -/
structure Place.Bare (p p' : Place) : Prop where
  node : p'.node = p.node.bare
  steps : List.Forall₂ Step.Bare p.steps p'.steps
  aside : p.node.Everywhere Node.CommentsAside

theorem findIdx?_append_cons_eq_length {p : Node → Bool} {before behind : List Node} {c : Node} :
    (before ++ c :: behind).findIdx? p = some before.length ↔
      (∀ c' ∈ before, p c' = false) ∧ p c = true := by
  induction before with
  | nil => cases hc : p c <;> simp [List.findIdx?_cons, hc]
  | cons c' before ih =>
    cases hc' : p c' with
    | true => simp [List.findIdx?_cons, hc']
    | false =>
      simp only [List.cons_append, List.findIdx?_cons, hc', Bool.false_eq_true, if_false,
        List.length_cons, Option.map_eq_some_iff, Nat.add_right_cancel_iff, exists_eq_right, ih,
        List.forall_mem_cons, true_and]

/-- Leaving out comments among the children of a node keeps which child is in a role. -/
theorem Step.bare {parent c : Node} {before behind : List Node}
    (haside : parent.Everywhere Node.CommentsAside)
    (hchildren : parent.children = before ++ c :: behind) (hc : c.isComment = false) :
    Step.Bare ⟨parent, before.length⟩ ⟨parent.bare, (bareBelow before).length⟩ := by
  refine ⟨rfl, fun role => ?_, haside⟩
  have hplain : ∀ c' ∈ before, c'.isComment = true → (c'.field == some role) = false := by
    intro c' hc' hcomment
    have hmem : c' ∈ parent.children := by simp [hchildren, hc']
    simp [(haside.plain c' hmem hcomment).2.1]
  have hbare : parent.bare.children = bareBelow before ++ c.bare :: bareBelow behind := by
    simp [hchildren, bareBelow_append, bareBelow, hc]
  -- before the child there is one in the role if and only if there is one that is no comment
  have hbefore : (∀ c' ∈ bareBelow before, (c'.field == some role) = false) ↔
      ∀ c' ∈ before, (c'.field == some role) = false := by
    rw [bareBelow_eq_map]
    constructor
    · intro h c' hc'
      cases hcomment : c'.isComment with
      | true => exact hplain c' hc' hcomment
      | false =>
        have hmem : c' ∈ before.filter fun c => !c.isComment := by simp [hc', hcomment]
        simpa using h c'.bare (List.mem_map_of_mem hmem)
    · intro h c' hc'
      obtain ⟨c', hmem, rfl⟩ := List.mem_map.mp hc'
      simpa using h c' (List.mem_of_mem_filter hmem)
  rw [Bool.eq_iff_iff, isChild, isChild, beq_iff_eq, beq_iff_eq, hbare, hchildren,
    findIdx?_append_cons_eq_length, findIdx?_append_cons_eq_length, hbefore, Node.bare_toNodeInfo]

section

variable {steps steps' : List Step}

theorem Step.map_parent_bare (h : List.Forall₂ Step.Bare steps steps') :
    steps'.map (·.parent) = (steps.map (·.parent)).map Node.bare := by
  induction h with
  | nil => rfl
  | cons hstep _ ih => simp only [List.map_cons, hstep.parent, ih]

theorem Step.aside_of_mem (h : List.Forall₂ Step.Bare steps steps') {s : Step} (hs : s ∈ steps) :
    s.parent.Everywhere Node.CommentsAside := by
  induction h with
  | nil => exact absurd hs List.not_mem_nil
  | cons hstep _ ih =>
    rcases List.mem_cons.mp hs with rfl | hs
    · exact hstep.aside
    · exact ih hs

theorem leadsToParameter_bare (h : List.Forall₂ Step.Bare steps steps') :
    leadsToParameter steps' = leadsToParameter steps := by
  induction h with
  | nil => rfl
  | cons hstep _ ih =>
    simp only [leadsToParameter, hstep.parent, hstep.isChild, ih, Node.bare_toNodeInfo]

end

namespace Place.Bare

variable {p p' : Place}

theorem ancestors (h : Bare p p') : p'.ancestors = p.ancestors.map Node.bare :=
  Step.map_parent_bare h.steps

theorem aside_of_mem_ancestors (h : Bare p p') {n : Node} (hn : n ∈ p.ancestors) :
    n.Everywhere Node.CommentsAside := by
  obtain ⟨s, hs, rfl⟩ := List.mem_map.mp hn
  exact Step.aside_of_mem h.steps hs

theorem ancestorOfKind? (h : Bare p p') (kinds : List String) :
    p'.ancestorOfKind? kinds = (p.ancestorOfKind? kinds).map Node.bare := by
  rw [Place.ancestorOfKind?, Place.ancestorOfKind?, h.ancestors, List.find?_map]
  simp only [Function.comp_def, Node.bare_toNodeInfo]

theorem isChild (h : Bare p p') (role : String) : p'.isChild role = p.isChild role := by
  obtain ⟨node, steps⟩ := p
  obtain ⟨node', steps'⟩ := p'
  cases h.steps with
  | nil => rfl
  | cons hstep _ => exact hstep.isChild role

theorem inParameterPattern (h : Bare p p') : p'.inParameterPattern = p.inParameterPattern :=
  leadsToParameter_bare h.steps

/-- A child that is no comment is found among the children of the place without comments. -/
theorem child {before behind : List Node} {c : Node} (h : Bare p p')
    (hchildren : p.node.children = before ++ c :: behind) (hc : c.isComment = false) :
    Bare ⟨c, ⟨p.node, before.length⟩ :: p.steps⟩
      ⟨c.bare, ⟨p'.node, (bareBelow before).length⟩ :: p'.steps⟩ := by
  refine ⟨rfl, ?_, h.aside.of_mem_children (by simp [hchildren])⟩
  rw [h.node]
  exact .cons (Step.bare h.aside hchildren hc) h.steps

end Place.Bare

end UtsInsight
