import Mathlib.Tactic.SplitIfs
import UtsInsight.Proofs.Scope.Building
import UtsInsight.Proofs.Syntax.References
import UtsInsight.Typing.Resolution

/-!
# Types without comments

Every function on expressions gives the same over a tree and over the tree without comments, if no
comment is taken for a construct: comments have no role, are no elements of an array, no parameters
and no statements that return. Then every declaration has the same type in both trees. A comment
that is taken has the unknown type itself, or stands for the type that an annotation states.
-/
namespace UtsInsight

open Node (CommentsAside)

/-- A kind whose form takes constructs by their position is among the kinds that do so. -/
def ExpressionForm.Takes (kind : String) : ExpressionForm → Prop
  | .group => kind ∈ lastTakers
  | .cast => kind ∈ pairTakers
  | .await => kind ∈ firstTakers
  | _ => True

theorem takes_expressionForm (kind : String) : (expressionForm kind).Takes kind := by
  unfold expressionForm
  repeat'
    refine iteInduction (motive := fun f => ExpressionForm.Takes kind f) (fun hkind => ?_)
      fun _ => ?_
  all_goals simp_all [ExpressionForm.Takes, lastTakers, pairTakers, firstTakers]

section

variable {m : Type → Type} [Monad m] (context : TypingContext) (lookup : DeclId → m String)
variable {n c : Node}

theorem kindOfChild_bare (h : ∀ c ∈ n.children, c.PlainIfComment) (role : String) :
    TypingContext.kindOfChild n.bare role = TypingContext.kindOfChild n role := by
  rw [TypingContext.kindOfChild, TypingContext.kindOfChild, Node.child?_bare h]
  cases n.child? role <;> simp

theorem signatureFrom_bare (h : n.Everywhere CommentsAside) (parameters : m (List String))
    (inferred : m String) :
    signatureFrom context n.bare parameters inferred =
      signatureFrom context n parameters inferred := by
  have hasync : n.bare.children.any (·.kind == "async") = n.children.any (·.kind == "async") := by
    rw [Node.bare_children]
    apply any_bareBelow
    · simp
    · intro c _ hcomment
      rw [beq_iff_eq.mp hcomment]
      rfl
  unfold signatureFrom
  simp only [hasync, Node.child?_bare h.plain]
  cases hreturn : n.child? "return_type" with
  | none =>
    cases n.child? "type_parameters" <;> cases n.child? "parameters" <;>
      cases n.child? "parameter" <;> simp
  | some stated =>
    have hstated := Node.annotationText_bare (h.child? hreturn).self.2 context.source
    cases n.child? "type_parameters" <;> cases n.child? "parameters" <;>
      cases n.child? "parameter" <;> simp [hstated]

/-- The first or last construct of a list is no comment. -/
def BeginsAside (cs : List Node) : Prop :=
  (cs.filter (·.isNamed)).head?.any (·.isComment) = false

def EndsAside (cs : List Node) : Prop :=
  (cs.filter (·.isNamed)).getLast?.any (·.isComment) = false

section

variable {cs : List Node}

theorem EndsAside.of_cons (h : EndsAside (c :: cs)) : EndsAside cs := by
  unfold EndsAside at h ⊢
  cases hlast : (cs.filter (·.isNamed)).getLast? with
  | none => rfl
  | some last => cases hnamed : c.isNamed <;> simp_all [List.getLast?_cons]

theorem EndsAside.any_isNamed (h : EndsAside cs) :
    (bareBelow cs).any (·.isNamed) = cs.any (·.isNamed) := by
  unfold EndsAside at h
  cases hlast : (cs.filter (·.isNamed)).getLast? with
  | none =>
    have hnone : ∀ c ∈ cs, c.isNamed = false := by
      simpa [List.filter_eq_nil_iff] using List.getLast?_eq_none_iff.mp hlast
    have hbare : ∀ c ∈ bareBelow cs, c.isNamed = false := by
      rw [bareBelow_eq_map]
      intro c hc
      obtain ⟨c', hc', rfl⟩ := List.mem_map.mp hc
      simpa using hnone c' (List.mem_of_mem_filter hc')
    rw [List.any_eq_false.mpr (by simpa using hbare), List.any_eq_false.mpr (by simpa using hnone)]
  | some last =>
    obtain ⟨hmem, hnamed⟩ := List.mem_filter.mp (List.mem_of_getLast? hlast)
    have hc : last.isComment = false := by simpa [hlast] using h
    have hbare : last.bare ∈ bareBelow cs := by
      rw [bareBelow_eq_map]
      exact List.mem_map_of_mem (by simp [hmem, hc])
    rw [List.any_eq_true.mpr ⟨last.bare, hbare, by simpa using hnamed⟩,
      List.any_eq_true.mpr ⟨last, hmem, hnamed⟩]

/-- A comment is not the last construct. -/
theorem EndsAside.not_last (h : EndsAside (c :: cs)) (hc : c.isComment = true) :
    (c.isNamed && !cs.any (·.isNamed)) = false := by
  unfold EndsAside at h
  cases hnamed : c.isNamed with
  | false => rfl
  | true =>
    cases hrest : cs.filter (·.isNamed) with
    | nil => simp [hnamed, hrest, hc] at h
    | cons c' _ =>
      have hc' : c' ∈ cs.filter (·.isNamed) := by simp [hrest]
      obtain ⟨hmem, hnamed'⟩ := List.mem_filter.mp hc'
      simpa using ⟨c', hmem, hnamed'⟩

end

theorem firstReturn?_comment (hplain : c.PlainIfComment) (hc : c.isComment = true) (depth : Nat) :
    firstReturn? context lookup depth c = none := by
  obtain ⟨info, rfl, hkind, _⟩ := hplain.exists_leaf hc
  simp [firstReturn?, firstReturnBelow?, hkind]

mutual

theorem typeOfExpression_bare : ∀ (depth : Nat) (n : Node), n.Everywhere CommentsAside →
    typeOfExpression context lookup depth n.bare = typeOfExpression context lookup depth n
  | depth, ⟨info, children⟩, h => by
    have hchild := Node.child?_bare h.plain
    have htakes := takes_expressionForm info.kind
    have hnone := h.1.2
    have hnamed := Node.namedChildren_bare ⟨info, children⟩
    have htext := Node.text_bare ⟨info, children⟩ context.source
    have hoperator := kindOfChild_bare h.plain "operator"
    have hsignature := signatureFrom_bare (m := m) context h
    simp only [Node.bare] at hchild hnamed htext hoperator hsignature ⊢
    simp only [typeOfExpression]
    split
    · rfl
    cases hform : expressionForm info.kind with
    | literal type => rfl
    | array => simp only [typesOfElements_bare _ _ h.2]
    | identifier => simp only [htext]
    | construction =>
      simp only [hchild]
      cases Node.child? ⟨info, children⟩ "constructor" <;> simp
    | call => exact typeOfCall_bare _ _ h.2
    | function =>
      simp only [hsignature, parametersOfCallable_bare _ _ h.2, typeOfBody_bare _ _ h.2]
    | group =>
      rw [hform] at htakes
      rw [Node.takesComment_of_last (n := ⟨info, children⟩) htakes] at hnone
      exact typeOfLast_bare _ _ h.2 hnone
    | cast =>
      rw [hform] at htakes
      have hany := (Node.takesComment_of_pair (n := ⟨info, children⟩) htakes).symm.trans hnone
      simp only [hnamed]
      rcases hcs : Node.namedChildren ⟨info, children⟩ with _ | ⟨c, _ | ⟨target, _ | ⟨other, rest⟩⟩⟩
      · rfl
      · have hc : c.isComment = false := by simpa [hcs] using hany
        have hbegins : BeginsAside children := by
          have hfilter : children.filter (·.isNamed) = [c] := hcs
          simp [BeginsAside, hfilter, hc]
        simp [bareBelow, hc, typeOfFirst?_bare _ _ h.2 hbegins]
      · have hboth : c.isComment = false ∧ target.isComment = false := by simpa [hcs] using hany
        simp [bareBelow, hboth]
      · have hall : c.isComment = false ∧ target.isComment = false ∧ other.isComment = false := by
          simp only [hcs, List.any_cons, Bool.or_eq_false_iff] at hany
          exact ⟨hany.1, hany.2.1, hany.2.2.1⟩
        simp [bareBelow, hall]
    | await =>
      rw [hform] at htakes
      rw [Node.takesComment_of_first (n := ⟨info, children⟩) htakes] at hnone
      simp only [typeOfFirst?_bare _ _ h.2 hnone]
    | assignment => simp only [typeOfChild?_bare _ _ _ h.2]
    | unary => simp only [hoperator]
    | ternary => simp only [typeOfChild?_bare _ _ _ h.2]
    | binary => simp only [hoperator, typeOfChild?_bare _ _ _ h.2]
    | other => rfl

theorem typesOfElements_bare : ∀ (depth : Nat) (cs : List Node), EverywhereBelow CommentsAside cs →
    typesOfElements context lookup depth (bareBelow cs) = typesOfElements context lookup depth cs
  | _, [], _ => rfl
  | depth, c :: cs, h => by
    have hrest := typesOfElements_bare depth cs h.2
    cases hc : c.isComment with
    | true =>
      have hkind : (c.kind == "comment") = true := hc
      simp [bareBelow, hc, typesOfElements, hkind, hrest]
    | false =>
      simp [bareBelow, hc, typesOfElements, hrest, typeOfExpression_bare depth c h.1]

theorem typeOfChild?_bare (role : String) : ∀ (depth : Nat) (cs : List Node),
    EverywhereBelow CommentsAside cs →
      typeOfChild? context lookup role depth (bareBelow cs) =
        typeOfChild? context lookup role depth cs
  | _, [], _ => rfl
  | depth, c :: cs, h => by
    have hrest := typeOfChild?_bare role depth cs h.2
    cases hc : c.isComment with
    | true => simp [bareBelow, hc, typeOfChild?, (h.1.self.1 hc).2.1, hrest]
    | false => simp [bareBelow, hc, typeOfChild?, hrest, typeOfExpression_bare depth c h.1]

theorem typeOfFirst?_bare : ∀ (depth : Nat) (cs : List Node), EverywhereBelow CommentsAside cs →
    BeginsAside cs →
      typeOfFirst? context lookup depth (bareBelow cs) = typeOfFirst? context lookup depth cs
  | _, [], _, _ => rfl
  | depth, c :: cs, h, hbegins => by
    cases hnamed : c.isNamed with
    | true =>
      have hc : c.isComment = false := by simpa [BeginsAside, hnamed] using hbegins
      simp [bareBelow, hc, typeOfFirst?, hnamed, typeOfExpression_bare depth c h.1]
    | false =>
      have hrest := typeOfFirst?_bare depth cs h.2 (by simpa [BeginsAside, hnamed] using hbegins)
      cases hc : c.isComment <;> simp [bareBelow, hc, typeOfFirst?, hnamed, hrest]

theorem typeOfLast_bare : ∀ (depth : Nat) (cs : List Node), EverywhereBelow CommentsAside cs →
    EndsAside cs →
      typeOfLast context lookup depth (bareBelow cs) = typeOfLast context lookup depth cs
  | _, [], _, _ => rfl
  | depth, c :: cs, h, hends => by
    have hrest := typeOfLast_bare depth cs h.2 hends.of_cons
    cases hc : c.isComment with
    | true =>
      have hlast := hends.not_last hc
      simp only [bareBelow, hc, if_true, typeOfLast, hlast, Bool.false_eq_true, if_false, hrest]
    | false =>
      simp only [bareBelow, hc, Bool.false_eq_true, if_false, typeOfLast, Node.bare_toNodeInfo,
        hends.of_cons.any_isNamed, typeOfExpression_bare depth c h.1, hrest]

theorem typeOfCall_bare : ∀ (depth : Nat) (cs : List Node), EverywhereBelow CommentsAside cs →
    typeOfCall context lookup depth (bareBelow cs) = typeOfCall context lookup depth cs
  | _, [], _ => rfl
  | depth, c :: cs, h => by
    have hrest := typeOfCall_bare depth cs h.2
    cases hc : c.isComment with
    | true => simp [bareBelow, hc, typeOfCall, (h.1.self.1 hc).2.1, hrest]
    | false => simp [bareBelow, hc, typeOfCall, hrest, typeOfCallee_bare depth c h.1]

theorem typeOfCallee_bare : ∀ (depth : Nat) (n : Node), n.Everywhere CommentsAside →
    typeOfCallee context lookup depth n.bare = typeOfCallee context lookup depth n
  | depth, ⟨info, children⟩, h => by
    have hchild := Node.child?_bare h.plain "property"
    have htext := Node.text_bare ⟨info, children⟩ context.source
    have hplainText := Node.plainText_bare ⟨info, children⟩ context.source
    simp only [Node.bare] at hchild htext hplainText ⊢
    simp only [typeOfCallee, htext, hplainText, hchild, typeOfChild?_bare _ _ _ h.2]
    cases Node.child? ⟨info, children⟩ "property" <;> simp

theorem parametersOfCallable_bare : ∀ (depth : Nat) (cs : List Node),
    EverywhereBelow CommentsAside cs →
      parametersOfCallable context lookup depth (bareBelow cs) =
        parametersOfCallable context lookup depth cs
  | _, [], _ => rfl
  | depth, ⟨info, children⟩ :: cs, h => by
    have hrest := parametersOfCallable_bare depth cs h.2
    have hwritten := writtenParameters_bare depth children h.1.2
    cases hc : Node.isComment ⟨info, children⟩ with
    | true =>
      have hfield : info.field = none := (h.1.self.1 hc).2.1
      simp [bareBelow, hc, parametersOfCallable, hfield, hrest]
    | false => simp [bareBelow, hc, Node.bare, parametersOfCallable, hrest, hwritten]

theorem writtenParameters_bare : ∀ (depth : Nat) (cs : List Node),
    EverywhereBelow CommentsAside cs →
      writtenParameters context lookup depth (bareBelow cs) =
        writtenParameters context lookup depth cs
  | _, [], _ => rfl
  | depth, ⟨info, children⟩ :: cs, h => by
    have hrest := writtenParameters_bare depth cs h.2
    cases hc : Node.isComment ⟨info, children⟩ with
    | true =>
      have hkind : isParameterKind info.kind = false := by
        rw [show info.kind = "comment" from beq_iff_eq.mp hc]
        rfl
      simp [bareBelow, hc, writtenParameters, hkind, hrest]
    | false =>
      have hchild := Node.child?_bare h.1.plain
      simp only [Node.bare] at hchild
      simp only [bareBelow, hc, Bool.false_eq_true, if_false, Node.bare, writtenParameters, hrest,
        hchild, typeOfChild?_bare "value" (depth + 1) children h.1.2]
      cases htype : Node.child? ⟨info, children⟩ "type" with
      | none => cases Node.child? ⟨info, children⟩ "pattern" <;> simp
      | some stated =>
        have hstated := Node.annotationText_bare (h.1.child? htype).self.2 context.source
        cases Node.child? ⟨info, children⟩ "pattern" <;> simp [hstated]

theorem typeOfBody_bare : ∀ (depth : Nat) (cs : List Node), EverywhereBelow CommentsAside cs →
    typeOfBody context lookup depth (bareBelow cs) = typeOfBody context lookup depth cs
  | _, [], _ => rfl
  | depth, ⟨info, children⟩ :: cs, h => by
    have hrest := typeOfBody_bare depth cs h.2
    have hreturn := firstReturnBelow?_bare depth children h.1.2
    have hexpression := typeOfExpression_bare (depth + 1) ⟨info, children⟩ h.1
    cases hc : Node.isComment ⟨info, children⟩ with
    | true =>
      have hfield : info.field = none := (h.1.self.1 hc).2.1
      simp [bareBelow, hc, typeOfBody, hfield, hrest]
    | false =>
      simp only [Node.bare] at hexpression
      simp [bareBelow, hc, Node.bare, typeOfBody, hrest, hreturn, hexpression]

theorem firstReturn?_bare : ∀ (depth : Nat) (n : Node), n.Everywhere CommentsAside →
    firstReturn? context lookup depth n.bare = firstReturn? context lookup depth n
  | depth, ⟨info, children⟩, h => by
    simp only [Node.bare, firstReturn?]
    split
    · rename_i hkind
      have hbegins := h.1.2
      rw [Node.takesComment_of_first (by simp [firstTakers, hkind])] at hbegins
      exact returned?_bare depth children h.2 hbegins
    · rw [firstReturnBelow?_bare depth children h.2]

theorem firstReturnBelow?_bare : ∀ (depth : Nat) (cs : List Node),
    EverywhereBelow CommentsAside cs →
      firstReturnBelow? context lookup depth (bareBelow cs) =
        firstReturnBelow? context lookup depth cs
  | _, [], _ => rfl
  | depth, c :: cs, h => by
    have hrest := firstReturnBelow?_bare depth cs h.2
    cases hc : c.isComment with
    | true =>
      simp [bareBelow, hc, firstReturnBelow?, firstReturn?_comment context lookup h.1.self.1 hc,
        hrest]
    | false => simp [bareBelow, hc, firstReturnBelow?, hrest, firstReturn?_bare depth c h.1]

theorem returned?_bare : ∀ (depth : Nat) (cs : List Node), EverywhereBelow CommentsAside cs →
    BeginsAside cs →
      returned? context lookup depth (bareBelow cs) = returned? context lookup depth cs
  | _, [], _, _ => rfl
  | depth, c :: cs, h, hbegins => by
    cases hnamed : c.isNamed with
    | true =>
      have hc : c.isComment = false := by simpa [BeginsAside, hnamed] using hbegins
      simp [bareBelow, hc, returned?, hnamed, typeOfExpression_bare (depth + 1) c h.1]
    | false =>
      have hrest := returned?_bare depth cs h.2 (by simpa [BeginsAside, hnamed] using hbegins)
      cases hc : c.isComment <;> simp [bareBelow, hc, returned?, hnamed, hrest]

end

theorem typeOfCallable_bare (h : n.Everywhere CommentsAside) (depth : Nat) :
    typeOfCallable context lookup depth n.bare = typeOfCallable context lookup depth n := by
  unfold typeOfCallable
  rw [signatureFrom_bare context h, Node.bare_children,
    parametersOfCallable_bare context lookup depth _ h.below,
    typeOfBody_bare context lookup depth _ h.below]

/-! ### Where a comment is taken -/

theorem typeOfExpression_comment (hc : c.isComment = true) (depth : Nat) :
    typeOfExpression context lookup depth c = pure unknownType := by
  obtain ⟨info, children⟩ := c
  have hform : expressionForm info.kind = .other := by
    rw [show info.kind = "comment" from beq_iff_eq.mp hc]
    rfl
  simp [typeOfExpression, hform]

section

variable {cs : List Node} {depth : Nat}

theorem returned?_of_head? (h : (cs.filter (·.isNamed)).head? = some c) :
    returned? context lookup depth cs = some (typeOfExpression context lookup (depth + 1) c) := by
  induction cs with
  | nil => cases h
  | cons c' cs ih =>
    cases hnamed : c'.isNamed with
    | true =>
      obtain rfl : c' = c := by simpa [hnamed] using h
      simp [returned?, hnamed]
    | false => simpa [returned?, hnamed] using ih (by simpa [hnamed] using h)

theorem typeOfFirst?_of_head? (h : (cs.filter (·.isNamed)).head? = some c) :
    typeOfFirst? context lookup depth cs =
      (do return some (← typeOfExpression context lookup depth c)) := by
  induction cs with
  | nil => cases h
  | cons c' cs ih =>
    cases hnamed : c'.isNamed with
    | true =>
      obtain rfl : c' = c := by simpa [hnamed] using h
      simp [typeOfFirst?, hnamed]
    | false => simpa [typeOfFirst?, hnamed] using ih (by simpa [hnamed] using h)

theorem typeOfLast_of_getLast? (h : (cs.filter (·.isNamed)).getLast? = some c) :
    typeOfLast context lookup depth cs = typeOfExpression context lookup depth c := by
  induction cs with
  | nil => cases h
  | cons c' cs ih =>
    cases hrest : (cs.filter (·.isNamed)).getLast? with
    | none =>
      have hnil := List.getLast?_eq_none_iff.mp hrest
      have hnone : cs.any (·.isNamed) = false := by simpa [List.filter_eq_nil_iff] using hnil
      cases hnamed : c'.isNamed with
      | true =>
        obtain rfl : c' = c := by simpa [hnamed, hnil] using h
        simp [typeOfLast, hnamed, hnone]
      | false => simp [hnamed, hnil] at h
    | some last =>
      have hsome : cs.any (·.isNamed) = true := by
        obtain ⟨hmem, hnamed⟩ := List.mem_filter.mp (List.mem_of_getLast? hrest)
        exact List.any_eq_true.mpr ⟨last, hmem, hnamed⟩
      have hlast : last = c := by cases hnamed : c'.isNamed <;> simp_all [List.getLast?_cons]
      simpa [typeOfLast, hsome] using ih (hrest.trans (congrArg some hlast))

end

theorem Node.exists_of_takesComment (hkind : n.kind ∈ firstTakers) (h : n.takesComment = true) :
    ∃ c, n.namedChildren.head? = some c ∧ c.isComment = true := by
  rwa [takesComment_of_first hkind, Option.any_eq_true] at h

/-- A comment is returned. -/
theorem firstReturn?_of_takesComment (hkind : n.kind = "return_statement")
    (h : n.takesComment = true) (depth : Nat) :
    firstReturn? context lookup depth n = some (pure unknownType) := by
  obtain ⟨c, hc, hcomment⟩ := n.exists_of_takesComment (by simp [firstTakers, hkind]) h
  obtain ⟨info, children⟩ := n
  rw [firstReturn?, if_pos hkind, returned?_of_head? context lookup hc,
    typeOfExpression_comment context lookup hcomment]

/-- A comment is awaited. -/
theorem typeOfExpression_of_awaited [LawfulMonad m] (hkind : n.kind = "await_expression")
    (h : n.takesComment = true) (depth : Nat) :
    typeOfExpression context lookup depth n = pure unknownType := by
  obtain ⟨c, hc, hcomment⟩ := n.exists_of_takesComment (by simp [firstTakers, hkind]) h
  have hform : expressionForm n.kind = .await := by
    rw [hkind]
    rfl
  have hawaited : awaitedType unknownType = unknownType := by decide
  obtain ⟨info, children⟩ := n
  simp [typeOfExpression, hform, typeOfFirst?_of_head? context lookup hc,
    typeOfExpression_comment context lookup hcomment, hawaited]

/-- A comment comes last in a group. -/
theorem typeOfExpression_of_grouped (hkind : n.kind ∈ lastTakers) (h : n.takesComment = true)
    (depth : Nat) : typeOfExpression context lookup depth n = pure unknownType := by
  rw [Node.takesComment_of_last hkind, Option.any_eq_true] at h
  obtain ⟨c, hc, hcomment⟩ := h
  have hforms : ∀ kind ∈ lastTakers, expressionForm kind = .group := by decide
  have hform := hforms n.kind hkind
  obtain ⟨info, children⟩ := n
  simp [typeOfExpression, hform, typeOfLast_of_getLast? context lookup hc,
    typeOfExpression_comment context lookup hcomment]

/-- A comment stands beside an expression and its type, or alone. -/
theorem typeOfExpression_of_cast [LawfulMonad m] (hkind : n.kind ∈ pairTakers)
    (h : n.takesComment = true) (hlength : n.namedChildren.length ≠ 2) (depth : Nat) :
    typeOfExpression context lookup depth n = pure unknownType := by
  rw [Node.takesComment_of_pair hkind] at h
  have hforms : ∀ kind ∈ pairTakers, expressionForm kind = .cast := by decide
  have hform := hforms n.kind hkind
  obtain ⟨info, children⟩ := n
  have hnamed : Node.namedChildren ⟨info, children⟩ = children.filter (·.isNamed) := rfl
  simp only [typeOfExpression, hform]
  rcases hcs : Node.namedChildren ⟨info, children⟩ with _ | ⟨c, _ | ⟨target, _ | ⟨other, rest⟩⟩⟩
  · simp
  · have hcomment : c.isComment = true := by simpa [hcs] using h
    have hc : (children.filter (·.isNamed)).head? = some c := by rw [← hnamed, hcs, List.head?_cons]
    simp [typeOfFirst?_of_head? context lookup hc, typeOfExpression_comment context lookup hcomment]
  · exact absurd (congrArg List.length hcs) hlength
  · simp

/-- A comment comes first in an annotation. -/
theorem Node.annotationText_of_takesComment (hkind : n.kind ∈ annotationKinds)
    (h : n.takesComment = true) :
    ∃ c ∈ n.children, c.isComment = true ∧
      ∀ source, n.annotationText source = c.plainText source := by
  obtain ⟨c, hc, hcomment⟩ := n.exists_of_takesComment (by simp [firstTakers, hkind]) h
  obtain ⟨rest, hnamed⟩ := List.head?_eq_some_iff.mp hc
  have hmem : c ∈ n.namedChildren := List.mem_of_mem_head? hc
  refine ⟨c, List.mem_of_mem_filter hmem, hcomment, fun source => ?_⟩
  unfold annotationKinds at hkind
  rw [annotationText, if_pos (List.contains_iff_mem.mpr hkind), hnamed]

/-- What a node comes to that takes a comment for a construct: the comment is a value of unknown
type, or its text is the type that is stated. -/
structure Node.Obscured (n : Node) : Prop where
  returned : n.kind = "return_statement" →
    ∀ depth, firstReturn? context lookup depth n = some (pure unknownType)
  awaited : n.kind = "await_expression" →
    ∀ depth, typeOfExpression context lookup depth n = pure unknownType
  grouped : n.kind ∈ lastTakers →
    ∀ depth, typeOfExpression context lookup depth n = pure unknownType
  cast : n.kind ∈ pairTakers → n.namedChildren.length ≠ 2 →
    ∀ depth, typeOfExpression context lookup depth n = pure unknownType
  annotation : n.kind ∈ annotationKinds →
    ∃ c ∈ n.children, c.isComment = true ∧ ∀ source, n.annotationText source = c.plainText source

theorem Node.obscured_of_takesComment [LawfulMonad m] (h : n.takesComment = true) :
    n.Obscured context lookup where
  returned hkind := firstReturn?_of_takesComment context lookup hkind h
  awaited hkind := typeOfExpression_of_awaited context lookup hkind h
  grouped hkind := typeOfExpression_of_grouped context lookup hkind h
  cast hkind := typeOfExpression_of_cast context lookup hkind h
  annotation hkind := n.annotationText_of_takesComment hkind h

/-! ### Types of declarations -/

variable {root : Node}

/-- A comment has no type, even where it is referred to as an expression. -/
theorem typeOfSource_comment {ref : NodeRef} (hkind : ref.kind = "comment") (root : Node) :
    typeOfSource context root lookup (.expression ref) = pure unknownType := by
  simp only [typeOfSource]
  cases hplace : ref.resolve? root with
  | none => rfl
  | some place =>
    have hcomment : place.node.isComment = true :=
      beq_iff_eq.mpr ((ref.kind_of_resolve? hplace).trans hkind)
    exact typeOfExpression_comment context lookup hcomment 0

theorem typeOfSource_bare (hroot : root.WellFormed) (haside : root.Everywhere CommentsAside)
    {s : TypeSource} (hs : s.PastComments) :
    typeOfSource context root.bare lookup s = typeOfSource context root lookup s := by
  cases s with
  | fixed type => rfl
  | expression ref =>
    by_cases hkind : ref.kind = "comment"
    · rw [typeOfSource_comment context lookup hkind, typeOfSource_comment context lookup hkind]
    simp only [typeOfSource]
    obtain ⟨hnone, hnone'⟩ | ⟨p, p', hp, hp', hbare⟩ := ref.resolve?_bare hroot haside hkind
    · rw [hnone, hnone']
    · rw [hp, hp']
      dsimp only
      rw [hbare.node, typeOfExpression_bare context lookup 0 _ hbare.aside]
  | callable ref =>
    simp only [typeOfSource]
    obtain ⟨hnone, hnone'⟩ | ⟨p, p', hp, hp', hbare⟩ := ref.resolve?_bare hroot haside hs
    · rw [hnone, hnone']
    · rw [hp, hp']
      dsimp only
      rw [hbare.node, typeOfCallable_bare context lookup hbare.aside]

end

section

variable {context : TypingContext} {root : Node}

theorem declarationType_bare (hroot : root.WellFormed) (haside : root.Everywhere CommentsAside)
    (hsources : ∀ d ∈ context.bindings.declarations, d.source.PastComments) (bound : Nat) :
    declarationType context root.bare bound = declarationType context root bound := by
  induction bound with
  | zero =>
    funext id
    unfold declarationType
    cases context.bindings.declaration? id <;> rfl
  | succ bound ih =>
    funext id
    unfold declarationType
    cases hd : context.bindings.declaration? id with
    | none => rfl
    | some d =>
      have hsource := hsources d (List.mem_of_getElem? hd)
      simp only [ih, typeOfSource_bare context _ hroot haside hsource]

/-- Going through a list, only what is done at its entries counts. -/
theorem mapM_congr {α β : Type} {m : Type → Type} [Monad m] [LawfulMonad m] {xs : List α}
    {f g : α → m β} (h : ∀ x ∈ xs, f x = g x) : xs.mapM f = xs.mapM g := by
  induction xs with
  | nil => rfl
  | cons x xs ih =>
    rw [List.mapM_cons, List.mapM_cons, h x List.mem_cons_self,
      ih fun y hy => h y (List.mem_cons_of_mem x hy)]

theorem declarationTypes_bare (hroot : root.WellFormed) (haside : root.Everywhere CommentsAside)
    (hsources : ∀ d ∈ context.bindings.declarations,
      d.source.PastComments ∧ ∀ member ∈ d.members, member.source.PastComments) :
    declarationTypes context root.bare = declarationTypes context root := by
  have hlookup := declarationType_bare hroot haside (fun d hd => (hsources d hd).1)
    context.bindings.declarations.length
  unfold declarationTypes
  dsimp only
  rw [hlookup]
  refine bind_congr fun types => ?_
  congr 1
  apply mapM_congr
  intro d hd
  apply mapM_congr
  intro member hmember
  exact typeOfSource_bare context _ hroot haside ((hsources d hd).2 member hmember)

/-- Declarations and members have the same types without comments. -/
theorem resolveTypes_bare {b : Bindings} (hroot : root.WellFormed)
    (haside : root.Everywhere CommentsAside)
    (hsources : ∀ d ∈ b.declarations,
      d.source.PastComments ∧ ∀ member ∈ d.members, member.source.PastComments)
    (source : List Char) : b.resolveTypes root.bare source = b.resolveTypes root source := by
  unfold Bindings.resolveTypes
  rw [declarationTypes_bare hroot haside hsources]

end

end UtsInsight
