import Mathlib.Tactic.SplitIfs
import UtsInsight.Syntax.Everywhere
import UtsInsight.Typing.Resolution

/-!
# Evaluations as questions

The evaluation of an expression learns about declarations only through its look-up, and no answer
decides what is asked next: that is settled by the tree and by what the names in it refer to. So an
evaluation comes to putting one question, which is a list of declarations and a conclusion from
their types. What a look-up with effects does to an evaluation is then what it does along a list.

The main statement compares two bindings. If names refer to the same values in both and the methods
that are called give the same types, the evaluations come to the same question.
-/
namespace UtsInsight

/-- The declarations whose types are asked for, in order, and what follows from the answers. -/
structure Question (α : Type) where
  ids : List DeclId
  conclude : List String → α

namespace Question

variable {α β γ : Type} {m : Type → Type} [Monad m]

/-- Puts a question to a look-up. -/
def put (q : Question α) (lookup : DeclId → m String) : m α := do
  return q.conclude (← q.ids.mapM lookup)

/-- The question that asks nothing. -/
def known (a : α) : Question α :=
  ⟨[], fun _ => a⟩

/-- The question for one type. -/
def ask (id : DeclId) : Question String :=
  ⟨[id], fun answers => answers.headD ""⟩

def map (f : α → β) (q : Question α) : Question β :=
  ⟨q.ids, fun answers => f (q.conclude answers)⟩

/-- One question after another. -/
def map₂ (f : α → β → γ) (q : Question α) (r : Question β) : Question γ :=
  ⟨q.ids ++ r.ids, fun answers =>
    f (q.conclude (answers.take q.ids.length)) (r.conclude (answers.drop q.ids.length))⟩

variable [LawfulMonad m] (lookup : DeclId → m String)

omit [LawfulMonad m] in
/-- Going through a list gives as many answers as there are entries. -/
theorem bind_mapM_congr [LawfulMonad m] {f g : List String → m α} {ids : List DeclId}
    (h : ∀ answers, answers.length = ids.length → f answers = g answers) :
    ids.mapM lookup >>= f = ids.mapM lookup >>= g := by
  induction ids generalizing f g with
  | nil => simp only [List.mapM_nil, pure_bind, h [] rfl]
  | cons id ids ih =>
    simp only [List.mapM_cons, bind_assoc, pure_bind]
    refine bind_congr fun answer => ih fun answers hlength => h (answer :: answers) ?_
    rw [List.length_cons, List.length_cons, hlength]

theorem put_known (a : α) : (known a).put lookup = pure a := by
  simp only [put, known, List.mapM_nil, pure_bind]

theorem put_ask (id : DeclId) : (ask id).put lookup = lookup id := by
  simp only [put, ask, List.mapM_cons, List.mapM_nil, bind_assoc, pure_bind, List.headD_cons,
    bind_pure]

theorem put_map (f : α → β) (q : Question α) :
    (q.map f).put lookup = do return f (← q.put lookup) := by
  simp only [put, map, bind_assoc, pure_bind]

theorem put_map₂ (f : α → β → γ) (q : Question α) (r : Question β) :
    (q.map₂ f r).put lookup = do
      let a ← q.put lookup
      let b ← r.put lookup
      return f a b := by
  simp only [put, map₂, List.mapM_append, bind_assoc, pure_bind]
  refine bind_mapM_congr lookup fun answers hlength => ?_
  refine bind_mapM_congr lookup fun more _ => ?_
  rw [List.take_left' hlength, List.drop_left' hlength]

end Question

/-- A name refers to a declaration that there is. -/
theorem Bindings.lt_length_of_resolve {b : Bindings} {name : String} {offset : Nat} {space : Space}
    {id : DeclId} (h : b.resolve name offset space = some id) : id < b.declarations.length := by
  obtain ⟨scope, _, hin⟩ := List.exists_of_findSome?_eq_some h
  unfold resolveIn at hin
  split at hin
  next =>
    have hadmitted := List.find?_some hin
    obtain ⟨d, hd, _⟩ := (Option.any_eq_true _ _).mp hadmitted
    exact (List.getElem?_eq_some_iff.mp hd).1
  next => cases hin

/-- A computation for every look-up. -/
abbrev Evaluation (α : Type) : Type 1 :=
  (m : Type → Type) → [Monad m] → (DeclId → m String) → m α

/-- Both evaluations come to putting one and the same question, about declarations of the bindings.
-/
def AskAlike {α : Type} (b : Bindings) (e₁ e₂ : Evaluation α) : Prop :=
  ∃ q : Question α, (∀ id ∈ q.ids, id < b.declarations.length) ∧
    ∀ (m : Type → Type) [Monad m] [LawfulMonad m] (lookup : DeclId → m String),
      e₁ m lookup = q.put lookup ∧ e₂ m lookup = q.put lookup

namespace AskAlike

variable {α β γ : Type} {b : Bindings} {e₁ e₂ : Evaluation α} {r₁ r₂ : Evaluation β}

theorem pure (a : α) : AskAlike b (fun _ _ _ => pure a) (fun _ _ _ => pure a) :=
  ⟨.known a, fun _ h => absurd h List.not_mem_nil, fun _ _ _ lookup =>
    ⟨(Question.put_known lookup a).symm, (Question.put_known lookup a).symm⟩⟩

/-- A name asks for the declaration that it refers to. -/
theorem ask {name : String} {offset : Nat} {space : Space} {id : DeclId}
    (h : b.resolve name offset space = some id) :
    AskAlike b (fun _ _ lookup => lookup id) (fun _ _ lookup => lookup id) := by
  refine ⟨.ask id, fun i hi => ?_, fun _ _ _ lookup =>
    ⟨(Question.put_ask lookup id).symm, (Question.put_ask lookup id).symm⟩⟩
  rw [List.mem_singleton.mp hi]
  exact Bindings.lt_length_of_resolve h

theorem map (h : AskAlike b e₁ e₂) (f : α → β) :
    AskAlike b (fun m _ lookup => do return f (← e₁ m lookup))
      (fun m _ lookup => do return f (← e₂ m lookup)) := by
  obtain ⟨q, hids, hq⟩ := h
  refine ⟨q.map f, hids, fun m _ _ lookup => ?_⟩
  simp only [Question.put_map, (hq m lookup).1, (hq m lookup).2, and_self]

/-- What an evaluation is for every lawful look-up is all that counts. -/
theorem congr (h : AskAlike b e₁ e₂) {e₁' e₂' : Evaluation α}
    (h₁ : ∀ (m : Type → Type) [Monad m] [LawfulMonad m] lookup, e₁' m lookup = e₁ m lookup)
    (h₂ : ∀ (m : Type → Type) [Monad m] [LawfulMonad m] lookup, e₂' m lookup = e₂ m lookup) :
    AskAlike b e₁' e₂' := by
  obtain ⟨q, hids, hq⟩ := h
  refine ⟨q, hids, fun m _ _ lookup => ?_⟩
  rw [h₁, h₂]
  exact hq m lookup

theorem map₂ (h : AskAlike b e₁ e₂) (h' : AskAlike b r₁ r₂) (f : α → β → γ) :
    AskAlike b (fun m _ lookup => do return f (← e₁ m lookup) (← r₁ m lookup))
      (fun m _ lookup => do return f (← e₂ m lookup) (← r₂ m lookup)) := by
  obtain ⟨q, hids, hq⟩ := h
  obtain ⟨r, hids', hr⟩ := h'
  refine ⟨q.map₂ f r, fun id hid => ?_, fun m _ _ lookup => ?_⟩
  · exact (List.mem_append.mp hid).elim (hids id) (hids' id)
  simp only [Question.put_map₂, (hq m lookup).1, (hq m lookup).2, (hr m lookup).1,
    (hr m lookup).2, and_self]

end AskAlike

/-- A computation for every look-up, if there is one. -/
abbrev PartialEvaluation (α : Type) : Type 1 :=
  (m : Type → Type) → [Monad m] → (DeclId → m String) → Option (m α)

/-- Either neither computation exists for any look-up, or both do and ask alike. -/
def AskAlike? {α : Type} (b : Bindings) (e₁ e₂ : PartialEvaluation α) : Prop :=
  (∀ (m : Type → Type) [Monad m] lookup, e₁ m lookup = none ∧ e₂ m lookup = none) ∨
    ∃ r₁ r₂ : Evaluation α, AskAlike b r₁ r₂ ∧ ∀ (m : Type → Type) [Monad m] lookup,
      e₁ m lookup = some (r₁ m lookup) ∧ e₂ m lookup = some (r₂ m lookup)

/-! ### Expressions -/

/-- Names refer to the same values in both bindings. -/
def Bindings.SameValues (b₁ b₂ : Bindings) : Prop :=
  ∀ name offset, b₁.resolve name offset .value = b₂.resolve name offset .value

/-- If the node is a member that is not built in, calling it on any receiver gives the same type
over both bindings. -/
def SameMethod (source : List Char) (b₁ b₂ : Bindings) (n : Node) : Prop :=
  n.kind = "member_expression" → Vocabulary.signature? (n.plainText source) = none →
    ∀ property, n.child? "property" = some property → ∀ receiver,
      (TypingContext.mk source b₁).methodReturnType receiver (property.text source) n.start =
        (TypingContext.mk source b₂).methodReturnType receiver (property.text source) n.start

variable {source : List Char} {b₁ b₂ : Bindings}

theorem signatureFrom_askAlike (node : Node) {p₁ p₂ : Evaluation (List String)}
    {t₁ t₂ : Evaluation String} (hp : AskAlike b₂ p₁ p₂) (ht : AskAlike b₂ t₁ t₂) :
    AskAlike b₂ (fun m _ lookup => signatureFrom ⟨source, b₁⟩ node (p₁ m lookup) (t₁ m lookup))
      (fun m _ lookup => signatureFrom ⟨source, b₂⟩ node (p₂ m lookup) (t₂ m lookup)) := by
  simp only [signatureFrom]
  by_cases hparameters : (node.child? "parameters").isSome
  · simp only [if_pos hparameters]
    cases node.child? "return_type" with
    | some stated => exact hp.map _
    | none => exact hp.map₂ ht _
  · simp only [if_neg hparameters]
    cases node.child? "return_type" with
    | some stated => cases node.child? "parameter" <;> exact (AskAlike.pure _).map _
    | none => cases node.child? "parameter" <;> exact (AskAlike.pure _).map₂ ht _

mutual

theorem typeOfExpression_askAlike (h : b₁.SameValues b₂) : ∀ (depth : Nat) (n : Node),
    n.Everywhere (SameMethod source b₁ b₂) →
      AskAlike b₂ (fun _ _ lookup => typeOfExpression ⟨source, b₁⟩ lookup depth n)
        (fun _ _ lookup => typeOfExpression ⟨source, b₂⟩ lookup depth n)
  | depth, ⟨info, children⟩, hn => by
    simp only [typeOfExpression]
    by_cases hdepth : maxExpressionDepth < depth
    · simp only [if_pos hdepth]
      exact .pure _
    simp only [if_neg hdepth]
    cases expressionForm info.kind with
    | literal type => exact .pure _
    | array => exact (typesOfElements_askAlike h _ _ hn.2).map _
    | identifier =>
      simp only [h _ _]
      cases hname : b₂.resolve _ _ _ with
      | some id => exact .ask hname
      | none => exact .pure _
    | construction =>
      cases Node.child? ⟨info, children⟩ "constructor" with
      | some constructor => exact .pure _
      | none => exact .pure _
    | call => exact typeOfCall_askAlike h _ _ hn.2
    | function =>
      exact signatureFrom_askAlike _ (parametersOfCallable_askAlike h _ _ hn.2)
        (typeOfBody_askAlike h _ _ hn.2)
    | group => exact typeOfLast_askAlike h _ _ hn.2
    | cast =>
      rcases Node.namedChildren ⟨info, children⟩ with _ | ⟨_, _ | ⟨target, _ | _⟩⟩
      · exact .pure _
      · exact (typeOfFirst?_askAlike h _ _ hn.2).map _
      · exact .pure _
      · exact .pure _
    | await => exact (typeOfFirst?_askAlike h _ _ hn.2).map _
    | assignment => exact (typeOfChild?_askAlike h _ _ _ hn.2).map _
    | unary => exact .pure _
    | ternary =>
      have hboth := (typeOfChild?_askAlike h "consequence" (depth + 1) _ hn.2).map₂
        (typeOfChild?_askAlike h "alternative" (depth + 1) _ hn.2) fun a b =>
          match a, b with
          | some a, some b => unionType [a, b]
          | _, _ => unknownType
      refine hboth.congr (fun m _ _ lookup => ?_) (fun m _ _ lookup => ?_)
      all_goals
        refine bind_congr fun a => bind_congr fun b => ?_
        cases a <;> cases b <;> rfl
    | binary =>
      cases binaryForm ((TypingContext.kindOfChild ⟨info, children⟩ "operator").getD "") with
      | fixed type => exact .pure _
      | sum =>
        exact (typeOfChild?_askAlike h _ _ _ hn.2).map₂ (typeOfChild?_askAlike h _ _ _ hn.2) _
      | choice =>
        exact (typeOfChild?_askAlike h _ _ _ hn.2).map₂ (typeOfChild?_askAlike h _ _ _ hn.2) _
    | other => exact .pure _

theorem typesOfElements_askAlike (h : b₁.SameValues b₂) : ∀ (depth : Nat) (ns : List Node),
    EverywhereBelow (SameMethod source b₁ b₂) ns →
      AskAlike b₂ (fun _ _ lookup => typesOfElements ⟨source, b₁⟩ lookup depth ns)
        (fun _ _ lookup => typesOfElements ⟨source, b₂⟩ lookup depth ns)
  | _, [], _ => .pure []
  | depth, c :: cs, hns => by
    have hrest := typesOfElements_askAlike h depth cs hns.2
    simp only [typesOfElements]
    split_ifs
    · exact hrest
    · exact (AskAlike.pure _).map₂ hrest _
    · exact (typeOfExpression_askAlike h _ c hns.1).map₂ hrest _

theorem typeOfChild?_askAlike (h : b₁.SameValues b₂) (role : String) :
    ∀ (depth : Nat) (ns : List Node), EverywhereBelow (SameMethod source b₁ b₂) ns →
      AskAlike b₂ (fun _ _ lookup => typeOfChild? ⟨source, b₁⟩ lookup role depth ns)
        (fun _ _ lookup => typeOfChild? ⟨source, b₂⟩ lookup role depth ns)
  | _, [], _ => .pure none
  | depth, c :: cs, hns => by
    simp only [typeOfChild?]
    split_ifs
    · exact (typeOfExpression_askAlike h _ c hns.1).map _
    · exact typeOfChild?_askAlike h role depth cs hns.2

theorem typeOfFirst?_askAlike (h : b₁.SameValues b₂) : ∀ (depth : Nat) (ns : List Node),
    EverywhereBelow (SameMethod source b₁ b₂) ns →
      AskAlike b₂ (fun _ _ lookup => typeOfFirst? ⟨source, b₁⟩ lookup depth ns)
        (fun _ _ lookup => typeOfFirst? ⟨source, b₂⟩ lookup depth ns)
  | _, [], _ => .pure none
  | depth, c :: cs, hns => by
    simp only [typeOfFirst?]
    split_ifs
    · exact (typeOfExpression_askAlike h _ c hns.1).map _
    · exact typeOfFirst?_askAlike h depth cs hns.2

theorem typeOfLast_askAlike (h : b₁.SameValues b₂) : ∀ (depth : Nat) (ns : List Node),
    EverywhereBelow (SameMethod source b₁ b₂) ns →
      AskAlike b₂ (fun _ _ lookup => typeOfLast ⟨source, b₁⟩ lookup depth ns)
        (fun _ _ lookup => typeOfLast ⟨source, b₂⟩ lookup depth ns)
  | _, [], _ => .pure _
  | depth, c :: cs, hns => by
    simp only [typeOfLast]
    split_ifs
    · exact typeOfExpression_askAlike h _ c hns.1
    · exact typeOfLast_askAlike h depth cs hns.2

theorem typeOfCall_askAlike (h : b₁.SameValues b₂) : ∀ (depth : Nat) (ns : List Node),
    EverywhereBelow (SameMethod source b₁ b₂) ns →
      AskAlike b₂ (fun _ _ lookup => typeOfCall ⟨source, b₁⟩ lookup depth ns)
        (fun _ _ lookup => typeOfCall ⟨source, b₂⟩ lookup depth ns)
  | _, [], _ => .pure _
  | depth, c :: cs, hns => by
    simp only [typeOfCall]
    split_ifs
    · exact typeOfCallee_askAlike h _ c hns.1
    · exact typeOfCall_askAlike h depth cs hns.2

/-- The only place where the members of declarations are read. -/
theorem typeOfCallee_askAlike (h : b₁.SameValues b₂) : ∀ (depth : Nat) (n : Node),
    n.Everywhere (SameMethod source b₁ b₂) →
      AskAlike b₂ (fun _ _ lookup => typeOfCallee ⟨source, b₁⟩ lookup depth n)
        (fun _ _ lookup => typeOfCallee ⟨source, b₂⟩ lookup depth n)
  | depth, ⟨info, children⟩, hn => by
    simp only [typeOfCallee]
    split_ifs with hidentifier hmember
    · simp only [h _ _]
      cases hname : b₂.resolve _ _ _ with
      | some id => exact (AskAlike.ask hname).map _
      | none =>
        cases Vocabulary.signature? _ with
        | some signature => exact .pure _
        | none => exact .pure _
    · cases hsignature : Vocabulary.signature? (Node.plainText ⟨info, children⟩ source) with
      | some signature => exact .pure _
      | none =>
        cases hproperty : Node.child? ⟨info, children⟩ "property" with
        | none => exact .pure _
        | some property =>
          have hsame := hn.1 hmember hsignature property hproperty
          have hobject := (typeOfChild?_askAlike h "object" (depth + 1) _ hn.2).map fun receiver =>
            match receiver with
            | some receiver =>
              (TypingContext.mk source b₂).methodReturnType receiver (property.text source)
                info.start
            | none => unknownType
          refine hobject.congr (fun m _ _ lookup => ?_) (fun m _ _ lookup => ?_)
          · refine bind_congr fun receiver => ?_
            cases receiver with
            | some receiver => exact congrArg pure (hsame receiver)
            | none => rfl
          · refine bind_congr fun receiver => ?_
            cases receiver <;> rfl
    · exact .pure _

theorem parametersOfCallable_askAlike (h : b₁.SameValues b₂) : ∀ (depth : Nat) (ns : List Node),
    EverywhereBelow (SameMethod source b₁ b₂) ns →
      AskAlike b₂ (fun _ _ lookup => parametersOfCallable ⟨source, b₁⟩ lookup depth ns)
        (fun _ _ lookup => parametersOfCallable ⟨source, b₂⟩ lookup depth ns)
  | _, [], _ => .pure _
  | depth, ⟨info, children⟩ :: cs, hns => by
    simp only [parametersOfCallable]
    split_ifs
    · exact writtenParameters_askAlike h _ _ hns.1.2
    · exact parametersOfCallable_askAlike h depth cs hns.2

theorem writtenParameters_askAlike (h : b₁.SameValues b₂) : ∀ (depth : Nat) (ns : List Node),
    EverywhereBelow (SameMethod source b₁ b₂) ns →
      AskAlike b₂ (fun _ _ lookup => writtenParameters ⟨source, b₁⟩ lookup depth ns)
        (fun _ _ lookup => writtenParameters ⟨source, b₂⟩ lookup depth ns)
  | _, [], _ => .pure _
  | depth, ⟨info, children⟩ :: cs, hns => by
    have hrest := writtenParameters_askAlike h depth cs hns.2
    simp only [writtenParameters]
    by_cases hparameter : (info.isNamed && isParameterKind info.kind) = true
    · simp only [if_pos hparameter]
      cases Node.child? ⟨info, children⟩ "type" with
      | some stated => exact (AskAlike.pure _).map₂ hrest _
      | none =>
        have hvalue := typeOfChild?_askAlike h "value" (depth + 1) children hns.1.2
        apply (hvalue.map₂ hrest _).congr
        · intro m _ _ lookup
          exact bind_congr fun type => pure_bind _ _
        · intro m _ _ lookup
          exact bind_congr fun type => pure_bind _ _
    · simp only [if_neg hparameter]
      exact hrest

theorem typeOfBody_askAlike (h : b₁.SameValues b₂) : ∀ (depth : Nat) (ns : List Node),
    EverywhereBelow (SameMethod source b₁ b₂) ns →
      AskAlike b₂ (fun _ _ lookup => typeOfBody ⟨source, b₁⟩ lookup depth ns)
        (fun _ _ lookup => typeOfBody ⟨source, b₂⟩ lookup depth ns)
  | _, [], _ => .pure _
  | depth, ⟨info, children⟩ :: cs, hns => by
    simp only [typeOfBody]
    split_ifs
    · rcases firstReturnBelow?_askAlike h depth children hns.1.2 with hnone | ⟨_, _, hr, hsome⟩
      · refine (AskAlike.pure "void").congr (fun m _ _ lookup => ?_) (fun m _ _ lookup => ?_)
        · simp only [(hnone m lookup).1]
        · simp only [(hnone m lookup).2]
      · refine hr.congr (fun m _ _ lookup => ?_) (fun m _ _ lookup => ?_)
        · simp only [(hsome m lookup).1]
        · simp only [(hsome m lookup).2]
    · exact typeOfExpression_askAlike h _ ⟨info, children⟩ hns.1
    · exact typeOfBody_askAlike h depth cs hns.2

theorem firstReturn?_askAlike (h : b₁.SameValues b₂) : ∀ (depth : Nat) (n : Node),
    n.Everywhere (SameMethod source b₁ b₂) →
      AskAlike? b₂ (fun _ _ lookup => firstReturn? ⟨source, b₁⟩ lookup depth n)
        (fun _ _ lookup => firstReturn? ⟨source, b₂⟩ lookup depth n)
  | depth, ⟨info, children⟩, hn => by
    simp only [firstReturn?]
    split_ifs
    · exact returned?_askAlike h depth children hn.2
    · exact .inl fun _ _ _ => ⟨rfl, rfl⟩
    · exact firstReturnBelow?_askAlike h depth children hn.2

theorem firstReturnBelow?_askAlike (h : b₁.SameValues b₂) : ∀ (depth : Nat) (ns : List Node),
    EverywhereBelow (SameMethod source b₁ b₂) ns →
      AskAlike? b₂ (fun _ _ lookup => firstReturnBelow? ⟨source, b₁⟩ lookup depth ns)
        (fun _ _ lookup => firstReturnBelow? ⟨source, b₂⟩ lookup depth ns)
  | _, [], _ => .inl fun _ _ _ => ⟨rfl, rfl⟩
  | depth, c :: cs, hns => by
    have hrest := firstReturnBelow?_askAlike h depth cs hns.2
    simp only [firstReturnBelow?]
    split_ifs
    · rcases firstReturn?_askAlike h depth c hns.1 with hnone | ⟨r₁, r₂, hr, hsome⟩
      · simp only [hnone]
        exact hrest
      · refine .inr ⟨r₁, r₂, hr, fun m _ lookup => ?_⟩
        simp only [(hsome m lookup).1, (hsome m lookup).2, and_self]
    · exact hrest

theorem returned?_askAlike (h : b₁.SameValues b₂) : ∀ (depth : Nat) (ns : List Node),
    EverywhereBelow (SameMethod source b₁ b₂) ns →
      AskAlike? b₂ (fun _ _ lookup => returned? ⟨source, b₁⟩ lookup depth ns)
        (fun _ _ lookup => returned? ⟨source, b₂⟩ lookup depth ns)
  | _, [], _ => .inl fun _ _ _ => ⟨rfl, rfl⟩
  | depth, c :: cs, hns => by
    simp only [returned?]
    split_ifs
    · exact .inr ⟨_, _, typeOfExpression_askAlike h (depth + 1) c hns.1, fun _ _ _ => ⟨rfl, rfl⟩⟩
    · exact returned?_askAlike h depth cs hns.2

end

theorem typeOfCallable_askAlike (h : b₁.SameValues b₂) (depth : Nat) (n : Node)
    (hn : n.Everywhere (SameMethod source b₁ b₂)) :
    AskAlike b₂ (fun _ _ lookup => typeOfCallable ⟨source, b₁⟩ lookup depth n)
      (fun _ _ lookup => typeOfCallable ⟨source, b₂⟩ lookup depth n) :=
  signatureFrom_askAlike n (parametersOfCallable_askAlike h depth _ hn.below)
    (typeOfBody_askAlike h depth _ hn.below)

/-! ### Sources of types -/

/-- The node that a type is computed from, if it is. -/
def TypeSource.node? (root : Node) : TypeSource → Option Node
  | .fixed _ => none
  | .expression ref | .callable ref => (ref.resolve? root).map (·.node)

theorem typeOfSource_askAlike (h : b₁.SameValues b₂) (root : Node) (s : TypeSource)
    (hs : ∀ n, s.node? root = some n → n.Everywhere (SameMethod source b₁ b₂)) :
    AskAlike b₂ (fun _ _ lookup => typeOfSource ⟨source, b₁⟩ root lookup s)
      (fun _ _ lookup => typeOfSource ⟨source, b₂⟩ root lookup s) := by
  cases s with
  | fixed type => exact .pure type
  | expression ref =>
    simp only [TypeSource.node?] at hs
    simp only [typeOfSource]
    cases hplace : ref.resolve? root with
    | none => exact .pure _
    | some place =>
      exact typeOfExpression_askAlike h 0 place.node (hs _ (by rw [hplace, Option.map_some]))
  | callable ref =>
    simp only [TypeSource.node?] at hs
    simp only [typeOfSource]
    cases hplace : ref.resolve? root with
    | none => exact .pure _
    | some place =>
      exact typeOfCallable_askAlike h 0 place.node (hs _ (by rw [hplace, Option.map_some]))

/-- The type that a source gives is one question to the look-up, about declarations that there are.
-/
theorem typeOfSource_question (context : TypingContext) (root : Node) (s : TypeSource) :
    ∃ q : Question String, (∀ id ∈ q.ids, id < context.bindings.declarations.length) ∧
      ∀ (m : Type → Type) [Monad m] [LawfulMonad m] (lookup : DeclId → m String),
        typeOfSource context root lookup s = q.put lookup := by
  have hsame : ∀ n : Node,
      n.Everywhere (SameMethod context.source context.bindings context.bindings) :=
    Node.everywhere_of_forall fun _ _ _ _ _ _ => rfl
  obtain ⟨q, hids, hq⟩ := typeOfSource_askAlike (fun _ _ => rfl) root s fun n _ => hsame n
  exact ⟨q, hids, fun m _ _ lookup => (hq m lookup).1⟩

end UtsInsight
