import UtsInsight.Proofs.Typing.Brackets
import UtsInsight.Scope.Binder

/-!
# Types with matching brackets

Types are written from texts of the tree and from each other. If the brackets of these texts match,
and those of the types that declarations have, then the brackets of the type of every expression and
of every function match, as long as nothing is cut in the wrong place. There are three such places:
what is awaited, what is called, and an inferred return type that a promise is put around.
-/
namespace UtsInsight

open Text

section

variable {kind type : String}

/-- What holds of both branches holds of the one that is taken. -/
theorem of_ite_eq {α : Type} {P : Prop} {c : Prop} [Decidable c] {a b d : α} (ha : a = d → P)
    (hb : b = d → P) (h : (if c then a else b) = d) : P := by
  split at h
  · exact ha h
  · exact hb h

theorem balanced_of_literal (h : expressionForm kind = .literal type) : Balanced type.toList := by
  revert h
  unfold expressionForm
  repeat' refine of_ite_eq ?_ ?_
  all_goals
    intro h
    cases h <;> decide

theorem balanced_of_fixed {operator : String} (h : binaryForm operator = .fixed type) :
    Balanced type.toList := by
  revert h
  unfold binaryForm
  repeat' refine of_ite_eq ?_ ?_
  all_goals
    intro h
    cases h <;> decide

theorem balanced_signature {name : String} {signature : Vocabulary.Signature}
    (h : Vocabulary.signature? name = some signature) : Balanced signature.returnType.toList := by
  have hall : ∀ s ∈ Vocabulary.signatures, Balanced s.returnType.toList := by decide +kernel
  exact hall signature (List.mem_of_find?_eq_some h)

end

/-! ### Texts and cuts at a node -/

namespace Node

/-- The names under a node that stand in types: of a class, an interface, an enum or a namespace, of
type parameters, and of the only parameter of a function without parentheses. -/
def namesInTypes (n : Node) : List Node :=
  (match Binder.form n.kind with
    | .classDeclaration | .classExpression | .interface | .enum => (n.child? "name").toList
    | .namespace _ => ((n.child? "name").bind Binder.firstIdentifier?).toList
    | _ => []) ++
  ((n.child? "type_parameters").toList.flatMap fun list =>
    list.namedChildren.filterMap (·.child? "name")) ++
  (n.child? "parameter").toList

/-- The constructs under a node that are types: type parameters, the class that is constructed, the
target of a cast, and what an alias stands for. Patterns are written into the types of functions. -/
def typesUnder (n : Node) : List Node :=
  ["type_parameters", "pattern", "constructor"].filterMap n.child? ++
  (if expressionForm n.kind = .cast then n.namedChildren.drop 1 else []) ++
  (if Binder.form n.kind = .typeAlias then (n.child? "value").toList else [])

/-- The texts under a node that types are written from. -/
def typeTexts (source : List Char) (n : Node) : List String :=
  (["type", "return_type"].filterMap n.child?).map (·.annotationText source) ++
  n.typesUnder.map (·.plainText source) ++ n.namesInTypes.map (·.text source)

/-- The brackets match in every text under the node that types are written from. -/
def BalancedTexts (source : List Char) (n : Node) : Prop :=
  ∀ t ∈ n.typeTexts source, Balanced t.toList

instance (source : List Char) (n : Node) : Decidable (n.BalancedTexts source) :=
  inferInstanceAs (Decidable (∀ t ∈ _, _))

end Node

section

variable (context : TypingContext) (answers : DeclId → String)

/-- The type of the first construct under a node. -/
def operandType (depth : Nat) (n : Node) : String :=
  (Id.run (typeOfFirst? context (fun id => pure (answers id)) depth n.children)).getD unknownType

/-- No type is cut in the wrong place at the node, however deep it is nested: what is awaited is not
torn, what is called is not misread, and an inferred return type that a promise is put around does
not end in the first half of an arrow. -/
structure CutsWhole (n : Node) : Prop where
  awaited : expressionForm n.kind = .await →
    ∀ depth, ¬ Torn (operandType context answers depth n).toList
  called : expressionForm n.kind = .call → ∀ callee, n.child? "function" = some callee →
    callee.kind = "identifier" → ∀ id,
      context.bindings.resolve (callee.text context.source) callee.start .value = some id →
        ¬ Misread (answers id).toList
  methodCalled : expressionForm n.kind = .call → ∀ callee, n.child? "function" = some callee →
    callee.kind = "member_expression" → ∀ property, callee.child? "property" = some property →
      ∀ d ∈ context.bindings.declarations, ∀ m ∈ d.members,
        m.name = property.text context.source → m.kind = .method → ¬ Misread m.type.toList
  promised : n.children.any (·.kind == "async") = true → n.child? "return_type" = none → ∀ depth,
    (Id.run (typeOfBody context (fun id => pure (answers id)) depth n.children)).toList.getLast? ≠
      some '='

/-- The node is no place where types are cut: nothing is awaited or called, and it is no function
that makes a promise of what it returns. -/
def Node.CutsNothing (n : Node) : Prop :=
  expressionForm n.kind ≠ .await ∧ expressionForm n.kind ≠ .call ∧
    n.children.any (·.kind == "async") = false

instance (n : Node) : Decidable n.CutsNothing :=
  inferInstanceAs (Decidable (_ ∧ _))

/-- The texts of the node match and its types are not cut in the wrong place. -/
structure Intact (n : Node) : Prop where
  texts : n.BalancedTexts context.source
  cuts : CutsWhole context answers n

/-- The brackets of all types that are known match. -/
structure BalancedTypes : Prop where
  answers : ∀ id, Balanced (answers id).toList
  members : ∀ d ∈ context.bindings.declarations, ∀ m ∈ d.members, Balanced m.type.toList

end

variable {context : TypingContext} {answers : DeclId → String} {n : Node}

/-- What types are known decides nothing where none is cut. -/
theorem CutsWhole.of_cutsNothing (h : n.CutsNothing) : CutsWhole context answers n := by
  obtain ⟨hawait, hcall, hasync⟩ := h
  constructor
  · exact fun hform => absurd hform hawait
  · exact fun hform => absurd hform hcall
  · exact fun hform => absurd hform hcall
  · intro hany
    rw [hasync] at hany
    cases hany

/-! ### Texts of a node -/

namespace Node.BalancedTexts

variable {source : List Char} {role : String} {c : Node}

theorem annotation (h : n.BalancedTexts source) (hrole : role ∈ ["type", "return_type"])
    (hc : n.child? role = some c) : Balanced (c.annotationText source).toList := by
  apply h
  apply List.mem_append_left
  apply List.mem_append_left
  exact List.mem_map_of_mem (List.mem_filterMap.mpr ⟨role, hrole, hc⟩)

theorem plain (h : n.BalancedTexts source) (hc : c ∈ n.typesUnder) :
    Balanced (c.plainText source).toList := by
  apply h
  apply List.mem_append_left
  exact List.mem_append_right _ (List.mem_map_of_mem hc)

theorem name (h : n.BalancedTexts source) (hc : c ∈ n.namesInTypes) :
    Balanced (c.text source).toList := by
  apply h
  exact List.mem_append_right _ (List.mem_map_of_mem hc)

theorem part (h : n.BalancedTexts source)
    (hrole : role ∈ ["type_parameters", "pattern", "constructor"]) (hc : n.child? role = some c) :
    Balanced (c.plainText source).toList := by
  apply h.plain
  apply List.mem_append_left
  apply List.mem_append_left
  exact List.mem_filterMap.mpr ⟨role, hrole, hc⟩

theorem target (h : n.BalancedTexts source) (hform : expressionForm n.kind = .cast) {operand : Node}
    (hc : n.namedChildren = [operand, c]) : Balanced (c.plainText source).toList := by
  apply h.plain
  apply List.mem_append_left
  apply List.mem_append_right
  rw [if_pos hform, hc]
  exact List.mem_singleton_self c

theorem aliased (h : n.BalancedTexts source) (hform : Binder.form n.kind = .typeAlias)
    (hc : n.child? "value" = some c) : Balanced (c.plainText source).toList := by
  apply h.plain
  apply List.mem_append_right
  rw [if_pos hform, hc]
  exact List.mem_singleton_self c

theorem onlyParameter (h : n.BalancedTexts source) (hc : n.child? "parameter" = some c) :
    Balanced (c.text source).toList := by
  apply h.name
  apply List.mem_append_right
  rw [hc]
  exact List.mem_singleton_self c

end Node.BalancedTexts

/-! ### Calls -/

theorem balanced_methodReturnType {property : String}
    (h : ∀ d ∈ context.bindings.declarations, ∀ m ∈ d.members, m.name = property →
      m.kind = .method → Balanced (returnTypeOrUnknown m.type).toList)
    (receiver : String) (offset : Nat) :
    Balanced (context.methodReturnType receiver property offset).toList := by
  unfold TypingContext.methodReturnType
  dsimp only [bind]
  cases context.bindings.resolve (instanceName receiver) offset .type with
  | none => exact balanced_unknownType
  | some id =>
    cases hd : context.bindings.declaration? id with
    | none =>
      simp only [Option.bind_some, hd, Option.bind_none]
      exact balanced_unknownType
    | some d =>
      cases hm : d.members.find? (·.name == property) with
      | none =>
        simp only [Option.bind_some, hd, hm, Option.bind_none]
        exact balanced_unknownType
      | some m =>
        have hname : m.name = property := by
          have hfound := List.find?_some hm
          exact eq_of_beq hfound
        simp only [Option.bind_some, hd, hm]
        by_cases hmethod : m.kind = .method ∧ m.type ≠ ""
        · rw [if_pos hmethod]
          exact h d (List.mem_of_getElem? hd) m (List.mem_of_find?_eq_some hm)
            hname hmethod.1
        · rw [if_neg hmethod]
          exact balanced_unknownType

theorem typeOfCall_eq_unknown {m : Type → Type} [Monad m] (lookup : DeclId → m String)
    (depth : Nat) {children : List Node} (h : children.find? (·.field == some "function") = none) :
    typeOfCall context lookup depth children = pure unknownType := by
  induction children with
  | nil => rfl
  | cons c cs ih =>
    rw [List.find?_eq_none] at h
    rw [typeOfCall, if_neg (h c List.mem_cons_self), ih]
    exact List.find?_eq_none.mpr fun c hc => h c (List.mem_cons_of_mem _ hc)

/-- What a call gives is cut out of the type of what is called, or is written in a list. -/
theorem balanced_typeOfCall (h : BalancedTypes context answers) (hn : CutsWhole context answers n)
    (hform : expressionForm n.kind = .call) (depth : Nat) :
    Balanced (Id.run (typeOfCall context (fun id => pure (answers id)) depth
      n.children)).toList := by
  cases hcallee : n.child? "function" with
  | none =>
    rw [typeOfCall_eq_unknown _ _ hcallee]
    exact balanced_unknownType
  | some callee =>
    rw [typeOfCall_eq_typeOfCallee _ _ _ hcallee]
    obtain ⟨info, children⟩ := callee
    simp only [typeOfCallee]
    split_ifs with hidentifier hmember
    · cases hid : context.bindings.resolve _ _ _ with
      | some id =>
        have hcalled := hn.called hform _ hcallee hidentifier id hid
        exact (balanced_returnTypeOrUnknown (h.answers id)).mpr hcalled
      | none =>
        cases hsignature : Vocabulary.signature? _ with
        | some signature => exact balanced_signature hsignature
        | none => exact balanced_unknownType
    · cases hsignature : Vocabulary.signature? _ with
      | some signature => exact balanced_signature hsignature
      | none =>
        cases hproperty : Node.child? _ "property" with
        | none => exact balanced_unknownType
        | some property =>
          have hmethod : ∀ receiver, Balanced (context.methodReturnType receiver
              (property.text context.source) info.start).toList := by
            apply fun hreturn receiver => balanced_methodReturnType hreturn receiver info.start
            intro d hd m hm hname hkind
            have hcalled := hn.methodCalled hform _ hcallee hmember property hproperty d hd m hm
              hname hkind
            exact (balanced_returnTypeOrUnknown (h.members d hd m hm)).mpr hcalled
          dsimp only
          rw [Id.run_bind]
          cases Id.run (typeOfChild? context (fun id => pure (answers id)) "object" (depth + 1)
            children) with
          | some receiver => exact hmethod receiver
          | none => exact balanced_unknownType
    · exact balanced_unknownType

/-! ### Functions -/

/-- The type of a function is written from texts and types with matching brackets. -/
theorem balanced_signatureFrom (hn : n.BalancedTexts context.source) {parameters : Id (List String)}
    {inferred : Id String} (hparameters : ∀ p ∈ Id.run parameters, Balanced p.toList)
    (hinferred : Balanced (Id.run inferred).toList)
    (hends : n.children.any (·.kind == "async") = true → n.child? "return_type" = none →
      (Id.run inferred).toList.getLast? ≠ some '=') :
    Balanced (Id.run (signatureFrom context n parameters inferred)).toList := by
  have htypeParameters : Balanced
      (((n.child? "type_parameters").map (·.plainText context.source)).getD "").toList := by
    cases hlist : n.child? "type_parameters" with
    | none => exact .nil
    | some list => exact hn.part (by decide) hlist
  unfold signatureFrom
  dsimp only
  generalize ((n.child? "type_parameters").map (·.plainText context.source)).getD "" =
    typeParameters at htypeParameters ⊢
  have hstated : ∀ stated, n.child? "return_type" = some stated →
      Balanced (stated.annotationText context.source).toList :=
    fun _ hchild => hn.annotation (by decide) hchild
  have hreturned : n.child? "return_type" = none →
      Balanced (if n.children.any (·.kind == "async") then "Promise<" ++ Id.run inferred ++ ">"
        else Id.run inferred).toList := by
    intro hchild
    split_ifs with hasync
    · exact balanced_promise hinferred (hends hasync hchild)
    · exact hinferred
  by_cases hlist : (n.child? "parameters").isSome
  · rw [if_pos hlist]
    cases hreturn : n.child? "return_type" with
    | some stated =>
      exact balanced_functionType htypeParameters hparameters (hstated stated hreturn)
    | none => exact balanced_functionType htypeParameters hparameters (hreturned hreturn)
  · rw [if_neg hlist]
    cases hparameter : n.child? "parameter" with
    | some parameter =>
      have hsingle : ∀ p ∈ [parameter.text context.source ++ ": any"], Balanced p.toList := by
        intro p hp
        rw [List.mem_singleton.mp hp]
        exact balanced_append (hn.onlyParameter hparameter) (by decide)
      cases hreturn : n.child? "return_type" with
      | some stated =>
        exact balanced_functionType htypeParameters hsingle (hstated stated hreturn)
      | none => exact balanced_functionType htypeParameters hsingle (hreturned hreturn)
    | none =>
      have hnone : ∀ p ∈ ([] : List String), Balanced p.toList := fun _ => nofun
      cases hreturn : n.child? "return_type" with
      | some stated => exact balanced_functionType htypeParameters hnone (hstated stated hreturn)
      | none => exact balanced_functionType htypeParameters hnone (hreturned hreturn)

/-! ### Expressions -/

mutual

theorem balanced_typeOfExpression (h : BalancedTypes context answers) : ∀ (depth : Nat) (n : Node),
    n.Everywhere (Intact context answers) →
      Balanced (Id.run (typeOfExpression context (fun id => pure (answers id)) depth n)).toList
  | depth, ⟨info, children⟩, hn => by
    simp only [typeOfExpression]
    by_cases hdepth : maxExpressionDepth < depth
    · rw [if_pos hdepth]
      exact balanced_unknownType
    rw [if_neg hdepth]
    cases hform : expressionForm info.kind with
    | literal type => exact balanced_of_literal hform
    | array => exact balanced_arrayOf (balanced_typesOfElements h _ _ hn.2)
    | identifier =>
      dsimp only
      cases context.bindings.resolve _ _ _ with
      | some id => exact h.answers id
      | none =>
        dsimp only
        split_ifs <;> decide
    | construction =>
      dsimp only
      cases hconstructor : Node.child? ⟨info, children⟩ "constructor" with
      | some constructor => exact hn.1.texts.part (by decide) hconstructor
      | none => exact balanced_unknownType
    | call => exact balanced_typeOfCall h hn.1.cuts hform depth
    | function =>
      exact balanced_signatureFrom hn.1.texts (balanced_parametersOfCallable h _ _ hn.2)
        (balanced_typeOfBody h _ _ hn.2) fun hasync hstated => hn.1.cuts.promised hasync hstated _
    | group => exact balanced_typeOfLast h _ _ hn.2
    | cast =>
      dsimp only
      rcases hconstructs : Node.namedChildren ⟨info, children⟩ with
        _ | ⟨operand, _ | ⟨target, _ | _⟩⟩
      · exact balanced_unknownType
      · exact balanced_getD (balanced_typeOfFirst? h _ _ hn.2)
      · exact hn.1.texts.target hform hconstructs
      · exact balanced_unknownType
    | await =>
      have hoperand : Balanced (operandType context answers (depth + 1) ⟨info, children⟩).toList :=
        balanced_getD (balanced_typeOfFirst? h _ _ hn.2)
      exact (balanced_awaitedType hoperand).mpr (hn.1.cuts.awaited hform _)
    | assignment => exact balanced_getD (balanced_typeOfChild? h _ _ _ hn.2)
    | unary => exact balanced_unaryType _
    | ternary =>
      have hconsequence := balanced_typeOfChild? h "consequence" (depth + 1) _ hn.2
      have halternative := balanced_typeOfChild? h "alternative" (depth + 1) _ hn.2
      dsimp only
      rw [Id.run_bind, Id.run_bind]
      split
      next hs ht =>
        exact balanced_unionType (balanced_pair (hconsequence _ hs) (halternative _ ht))
      next => exact balanced_unknownType
    | binary =>
      dsimp only
      cases hoperator : binaryForm _ with
      | fixed type => exact balanced_of_fixed hoperator
      | sum => exact balanced_sumType _ _
      | choice =>
        exact balanced_unionType (balanced_pair
          (balanced_getD (balanced_typeOfChild? h "left" (depth + 1) _ hn.2))
          (balanced_getD (balanced_typeOfChild? h "right" (depth + 1) _ hn.2)))
    | other => exact balanced_unknownType

theorem balanced_typesOfElements (h : BalancedTypes context answers) :
    ∀ (depth : Nat) (ns : List Node), EverywhereBelow (Intact context answers) ns →
      ∀ t ∈ Id.run (typesOfElements context (fun id => pure (answers id)) depth ns),
        Balanced t.toList
  | _, [], _ => fun _ ht => absurd ht List.not_mem_nil
  | depth, c :: cs, hns => by
    have hrest := balanced_typesOfElements h depth cs hns.2
    have hc := balanced_typeOfExpression h depth c hns.1
    simp only [typesOfElements]
    split_ifs
    · exact hrest
    · exact List.forall_mem_cons.mpr ⟨by decide, hrest⟩
    · exact List.forall_mem_cons.mpr ⟨hc, hrest⟩

theorem balanced_typeOfChild? (h : BalancedTypes context answers) (role : String) :
    ∀ (depth : Nat) (ns : List Node), EverywhereBelow (Intact context answers) ns →
      ∀ t ∈ Id.run (typeOfChild? context (fun id => pure (answers id)) role depth ns),
        Balanced t.toList
  | _, [], _ => fun _ ht => nomatch ht
  | depth, c :: cs, hns => by
    have hrest := balanced_typeOfChild? h role depth cs hns.2
    have hc := balanced_typeOfExpression h depth c hns.1
    simp only [typeOfChild?]
    split_ifs
    · intro t ht
      cases ht
      exact hc
    · exact hrest

theorem balanced_typeOfFirst? (h : BalancedTypes context answers) :
    ∀ (depth : Nat) (ns : List Node), EverywhereBelow (Intact context answers) ns →
      ∀ t ∈ Id.run (typeOfFirst? context (fun id => pure (answers id)) depth ns),
        Balanced t.toList
  | _, [], _ => fun _ ht => nomatch ht
  | depth, c :: cs, hns => by
    have hrest := balanced_typeOfFirst? h depth cs hns.2
    have hc := balanced_typeOfExpression h depth c hns.1
    simp only [typeOfFirst?]
    split_ifs
    · intro t ht
      cases ht
      exact hc
    · exact hrest

theorem balanced_typeOfLast (h : BalancedTypes context answers) :
    ∀ (depth : Nat) (ns : List Node), EverywhereBelow (Intact context answers) ns →
      Balanced (Id.run (typeOfLast context (fun id => pure (answers id)) depth ns)).toList
  | _, [], _ => balanced_unknownType
  | depth, c :: cs, hns => by
    have hrest := balanced_typeOfLast h depth cs hns.2
    have hc := balanced_typeOfExpression h depth c hns.1
    simp only [typeOfLast]
    split_ifs
    · exact hc
    · exact hrest

theorem balanced_parametersOfCallable (h : BalancedTypes context answers) :
    ∀ (depth : Nat) (ns : List Node), EverywhereBelow (Intact context answers) ns →
      ∀ p ∈ Id.run (parametersOfCallable context (fun id => pure (answers id)) depth ns),
        Balanced p.toList
  | _, [], _ => fun _ hp => absurd hp List.not_mem_nil
  | depth, ⟨info, children⟩ :: cs, hns => by
    have hrest := balanced_parametersOfCallable h depth cs hns.2
    have hwritten := balanced_writtenParameters h depth children hns.1.2
    simp only [parametersOfCallable]
    split_ifs
    · exact hwritten
    · exact hrest

theorem balanced_writtenParameters (h : BalancedTypes context answers) :
    ∀ (depth : Nat) (ns : List Node), EverywhereBelow (Intact context answers) ns →
      ∀ p ∈ Id.run (writtenParameters context (fun id => pure (answers id)) depth ns),
        Balanced p.toList
  | _, [], _ => fun _ hp => absurd hp List.not_mem_nil
  | depth, ⟨info, children⟩ :: cs, hns => by
    have hrest := balanced_writtenParameters h depth cs hns.2
    have hvalue := balanced_typeOfChild? h "value" (depth + 1) children hns.1.2
    have hpattern : Balanced (((Node.child? ⟨info, children⟩ "pattern").map
        (·.plainText context.source)).getD "").toList := by
      cases hchild : Node.child? ⟨info, children⟩ "pattern" with
      | none => exact .nil
      | some pattern => exact hns.1.1.texts.part (by decide) hchild
    have hmark : Balanced (if info.kind == "optional_parameter" then "?" else "").toList := by
      split_ifs <;> decide
    have hname := balanced_append (balanced_append hpattern hmark) (t := ": ") (by decide)
    simp only [writtenParameters]
    by_cases hparameter : (info.isNamed && isParameterKind info.kind) = true
    · rw [if_pos hparameter]
      cases hstated : Node.child? ⟨info, children⟩ "type" with
      | some stated =>
        have htype := hns.1.1.texts.annotation (by decide) hstated
        exact List.forall_mem_cons.mpr ⟨balanced_append hname htype, hrest⟩
      | none =>
        have htype := balanced_getD hvalue
        exact List.forall_mem_cons.mpr ⟨balanced_append hname htype, hrest⟩
    · rw [if_neg hparameter]
      exact hrest

theorem balanced_typeOfBody (h : BalancedTypes context answers) :
    ∀ (depth : Nat) (ns : List Node), EverywhereBelow (Intact context answers) ns →
      Balanced (Id.run (typeOfBody context (fun id => pure (answers id)) depth ns)).toList
  | _, [], _ => balanced_unknownType
  | depth, ⟨info, children⟩ :: cs, hns => by
    have hrest := balanced_typeOfBody h depth cs hns.2
    have hexpression := balanced_typeOfExpression h (depth + 1) ⟨info, children⟩ hns.1
    have hreturn := balanced_firstReturnBelow? h depth children hns.1.2
    simp only [typeOfBody]
    split_ifs
    · cases hfirst : firstReturnBelow? context (fun id => (pure (answers id) : Id String)) depth
        children with
      | some type => exact hreturn type hfirst
      | none => decide
    · exact hexpression
    · exact hrest

theorem balanced_firstReturn? (h : BalancedTypes context answers) :
    ∀ (depth : Nat) (n : Node), n.Everywhere (Intact context answers) →
      ∀ type : Id String,
        firstReturn? context (fun id => pure (answers id)) depth n = some type →
          Balanced (Id.run type).toList
  | depth, ⟨info, children⟩, hn => by
    have hreturned := balanced_returned? h depth children hn.2
    have hbelow := balanced_firstReturnBelow? h depth children hn.2
    intro type htype
    simp only [firstReturn?] at htype
    split_ifs at htype
    · exact hreturned type htype
    · exact hbelow type htype

theorem balanced_firstReturnBelow? (h : BalancedTypes context answers) :
    ∀ (depth : Nat) (ns : List Node), EverywhereBelow (Intact context answers) ns →
      ∀ type : Id String,
        firstReturnBelow? context (fun id => pure (answers id)) depth ns = some type →
          Balanced (Id.run type).toList
  | _, [], _ => fun _ htype => nomatch htype
  | depth, c :: cs, hns => by
    have hrest := balanced_firstReturnBelow? h depth cs hns.2
    have hc := balanced_firstReturn? h depth c hns.1
    intro type htype
    simp only [firstReturnBelow?] at htype
    split_ifs at htype
    · split at htype
      next first hfirst =>
        obtain rfl := Option.some.inj htype
        exact hc _ hfirst
      next => exact hrest type htype
    · exact hrest type htype

theorem balanced_returned? (h : BalancedTypes context answers) :
    ∀ (depth : Nat) (ns : List Node), EverywhereBelow (Intact context answers) ns →
      ∀ type : Id String,
        returned? context (fun id => pure (answers id)) depth ns = some type →
          Balanced (Id.run type).toList
  | _, [], _ => fun _ htype => nomatch htype
  | depth, c :: cs, hns => by
    have hrest := balanced_returned? h depth cs hns.2
    have hc := balanced_typeOfExpression h (depth + 1) c hns.1
    intro type htype
    simp only [returned?] at htype
    split_ifs at htype
    · obtain rfl := Option.some.inj htype
      exact hc
    · exact hrest type htype

end

theorem balanced_typeOfCallable (h : BalancedTypes context answers) (depth : Nat)
    (hn : n.Everywhere (Intact context answers)) :
    Balanced (Id.run (typeOfCallable context (fun id => pure (answers id)) depth n)).toList := by
  apply balanced_signatureFrom hn.self.texts
  · exact balanced_parametersOfCallable h depth n.children hn.below
  · exact balanced_typeOfBody h depth n.children hn.below
  · exact fun hasync hstated => hn.self.cuts.promised hasync hstated depth

end UtsInsight
