import UtsInsight.Proofs.Syntax.WellFormed
import UtsInsight.Proofs.Typing.Finished

/-!
# Types written and types looked up

The same evaluation runs twice, first while the types of declarations are filled in, then over the
finished bindings. The first run cannot see the types of members, because they are computed last.
So the type that is written for an initializer is the one that the finished bindings give once the
types of their members are taken away again, and this is all that the two runs differ in.

An initializer that calls no method of the document therefore has the type that is looked up later.
One that is such a call has the unknown type, whatever the method returns.
-/
namespace UtsInsight

/-! ### Methods without types -/

/-- No method of that name has a type. -/
def Bindings.Withholds (b : Bindings) (name : String) : Prop :=
  ∀ d ∈ b.declarations, ∀ m ∈ d.members, m.name = name → m.kind = .method → m.type = ""

/-- The bindings with the types of members taken away. -/
def Bindings.withoutMemberTypes (b : Bindings) : Bindings :=
  { b with
    declarations := b.declarations.map fun d =>
      { d with members := d.members.map (·.withType "") } }

namespace TypingContext

theorem methodReturnType_eq_unknown {context : TypingContext} {property : String}
    (h : context.bindings.Withholds property) (receiver : String) (offset : Nat) :
    context.methodReturnType receiver property offset = unknownType := by
  unfold methodReturnType
  dsimp only [bind]
  cases context.bindings.resolve (instanceName receiver) offset .type with
  | none => rfl
  | some id =>
    cases hd : context.bindings.declaration? id with
    | none => simp only [Option.bind_some, hd, Option.bind_none]
    | some d =>
      cases hm : d.members.find? (·.name == property) with
      | none => simp only [Option.bind_some, hd, hm, Option.bind_none]
      | some m =>
        have hname := List.find?_some hm
        have huntyped : ¬ (m.kind = .method ∧ m.type ≠ "") := fun hmethod =>
          hmethod.2 (h d (List.mem_of_getElem? hd) m (List.mem_of_find?_eq_some hm)
            (eq_of_beq hname) hmethod.1)
        simp only [Option.bind_some, hd, hm, if_neg huntyped]

end TypingContext

theorem Bindings.withoutMemberTypes_withholds (b : Bindings) (name : String) :
    b.withoutMemberTypes.Withholds name := by
  intro d hd m hm _ _
  obtain ⟨d', _, rfl⟩ := List.mem_map.mp hd
  obtain ⟨m', _, rfl⟩ := List.mem_map.mp hm
  rfl

theorem Bindings.withoutMemberTypes_resolve (b : Bindings) (name : String) (offset : Nat)
    (space : Space) :
    b.withoutMemberTypes.resolve name offset space = b.resolve name offset space := by
  have hscopes : b.withoutMemberTypes.scopes = b.scopes := rfl
  refine resolve_congr hscopes (fun id => ?_) name offset space
  unfold declaration? withoutMemberTypes
  rw [List.getElem?_map, Option.map_map]
  rfl

/-! ### The look-up of finished types -/

/-- The type that finished bindings have for a declaration. -/
def Bindings.typeOf (b : Bindings) (id : DeclId) : String :=
  ((b.declaration? id).map (·.type)).getD unknownType

theorem Bindings.withoutMemberTypes_typeOf (b : Bindings) (id : DeclId) :
    b.withoutMemberTypes.typeOf id = b.typeOf id := by
  unfold typeOf declaration? withoutMemberTypes
  rw [List.getElem?_map, Option.map_map]
  rfl

theorem Bindings.resolveTypes_typeOf (b : Bindings) (root : Node) (source : List Char)
    (id : DeclId) :
    (b.resolveTypes root source).typeOf id =
      ((typesRun ⟨source, b⟩ root).1[id]?).getD unknownType := by
  unfold typeOf
  rw [resolveTypes_type]

theorem AskAlike.eq {α : Type} {b : Bindings} {e₁ e₂ : Evaluation α} (h : AskAlike b e₁ e₂)
    {m : Type → Type}
    [Monad m] [LawfulMonad m] (lookup : DeclId → m String) : e₁ m lookup = e₂ m lookup := by
  obtain ⟨q, _, hq⟩ := h
  rw [(hq m lookup).1, (hq m lookup).2]

/-- The type of an expression nested so deep, over bindings that have their types. -/
def TypingContext.typeAt (context : TypingContext) (depth : Nat) (node : Node) : String :=
  Id.run (typeOfExpression context (fun id => pure (context.bindings.typeOf id)) depth node)

theorem TypingContext.typeOf_eq_typeAt (context : TypingContext) (node : Node) :
    context.typeOf node = context.typeAt 0 node :=
  rfl

/-! ### Calls of methods -/

/-- The node calls a property of an object, and no built-in function has that name. -/
structure CallsMethod (source : List Char) (node callee object property : Node) : Prop where
  isCall : node.kind = "call_expression"
  hasCallee : node.child? "function" = some callee
  isMember : callee.kind = "member_expression"
  isUnlisted : Vocabulary.signature? (callee.plainText source) = none
  hasObject : callee.child? "object" = some object
  hasProperty : callee.child? "property" = some property

section

variable {m : Type → Type} [Monad m] (context : TypingContext) (lookup : DeclId → m String)

theorem typeOfCall_eq_typeOfCallee (depth : Nat) {children : List Node} {callee : Node}
    (h : children.find? (·.field == some "function") = some callee) :
    typeOfCall context lookup depth children = typeOfCallee context lookup depth callee := by
  induction children with
  | nil => cases h
  | cons c cs ih =>
    rw [List.find?_cons] at h
    unfold typeOfCall
    split at h
    next hfield => rw [if_pos hfield, Option.some.inj h]
    next hfield => rw [if_neg (by rw [hfield]; exact Bool.false_ne_true), ih h]

theorem typeOfChild?_eq_typeOfExpression (role : String) (depth : Nat) {children : List Node}
    {child : Node} (h : children.find? (·.field == some role) = some child) :
    typeOfChild? context lookup role depth children =
      do return some (← typeOfExpression context lookup depth child) := by
  induction children with
  | nil => cases h
  | cons c cs ih =>
    rw [List.find?_cons] at h
    unfold typeOfChild?
    split at h
    next hfield => rw [if_pos hfield, Option.some.inj h]
    next hfield => rw [if_neg (by rw [hfield]; exact Bool.false_ne_true), ih h]

end

/-- A call of a method has the return type that the method has in the bindings. -/
theorem TypingContext.typeOf_callsMethod {context : TypingContext}
    {node callee object property : Node}
    (h : CallsMethod context.source node callee object property) :
    context.typeOf node = context.methodReturnType (context.typeAt 1 object)
      (property.text context.source) callee.start := by
  rw [typeOf_eq_typeAt]
  unfold typeAt
  obtain ⟨info, children⟩ := node
  obtain ⟨calleeInfo, calleeChildren⟩ := callee
  have hcall : info.kind = "call_expression" := h.isCall
  have hmember : calleeInfo.kind = "member_expression" := h.isMember
  have hidentifier : ¬ calleeInfo.kind = "identifier" := by
    rw [hmember]
    decide
  have hdepth : ¬ maxExpressionDepth < 0 := by decide
  have hform : expressionForm "call_expression" = .call := by decide
  simp only [typeOfExpression, hcall, hform, if_neg hdepth]
  rw [typeOfCall_eq_typeOfCallee _ _ _ h.hasCallee]
  simp only [typeOfCallee, if_neg hidentifier, if_pos hmember, h.isUnlisted, h.hasProperty]
  rw [typeOfChild?_eq_typeOfExpression _ _ _ _ h.hasObject]
  rfl

/-! ### Initializers -/

/-- The type that was computed for an initializer is its type over the finished types, as seen from
bindings whose members have none. -/
theorem resolveTypes_expression {b : Bindings} {root : Node} {source : List Char}
    (hacyclic : Acyclic ⟨source, b⟩ root) {id : DeclId} {d : Declaration} {ref : NodeRef}
    {place : Place} (hd : (b.resolveTypes root source).declaration? id = some d)
    (hsource : d.source = .expression ref) (hplace : ref.resolve? root = some place) :
    d.type = Id.run (typeOfExpression ⟨source, b⟩
      (fun j => pure ((b.resolveTypes root source).typeOf j)) 0 place.node) := by
  obtain ⟨d₀, type, members, hd₀, htype, rfl⟩ := Bindings.declaration?_of_resolveTypes hd
  have htypes := typesRun_source hacyclic hd₀
  have hsource₀ : d₀.source = .expression ref := hsource
  rw [htype, hsource₀] at htypes
  simp only [typeOfSource, hplace] at htypes
  simp only [Bindings.resolveTypes_typeOf]
  exact Option.some.inj htypes

/-- If the node is a member that is not built in, its property is the name of no method of the
bindings. -/
def NamesNoMethod (b : Bindings) (source : List Char) (n : Node) : Prop :=
  n.kind = "member_expression" → Vocabulary.signature? (n.plainText source) = none →
    ∀ property, n.child? "property" = some property →
      ∀ d ∈ b.declarations, ∀ m ∈ d.members, m.name = property.text source → m.kind ≠ .method

section

variable {root : Node} {source : List Char} {id : DeclId} {d : Declaration} {ref : NodeRef}
variable {place : Place}

theorem bind_withholds (root : Node) (source : List Char) (name : String) :
    (Binder.bind root source).Withholds name :=
  fun d hd m hm _ _ => (Binder.bind_untyped root source d hd).2 m hm

/-- Bindings that no type can be read from at the called methods give the same types. -/
theorem typeOfExpression_bind {b : Bindings} (root : Node) (source : List Char)
    (hresolve : ∀ name offset space,
      b.resolve name offset space = (Binder.bind root source).resolve name offset space)
    {n : Node}
    (hn : n.Everywhere fun n => n.kind = "member_expression" →
      Vocabulary.signature? (n.plainText source) = none →
        ∀ property, n.child? "property" = some property → b.Withholds (property.text source))
    (lookup : DeclId → Id String) :
    typeOfExpression ⟨source, Binder.bind root source⟩ lookup 0 n =
      typeOfExpression ⟨source, b⟩ lookup 0 n := by
  have hsame : n.Everywhere (SameMethod source (Binder.bind root source) b) := by
    refine hn.mono fun n hn hmember hunlisted property hproperty receiver => ?_
    rw [TypingContext.methodReturnType_eq_unknown (bind_withholds root source _),
      TypingContext.methodReturnType_eq_unknown (hn hmember hunlisted property hproperty)]
  exact (typeOfExpression_askAlike (fun name offset => (hresolve name offset .value).symm) 0 n
    hsame).eq lookup

/-- The type of an initializer in a document without cycles is the type that the finished bindings
give once the types of their members are taken away. It is the type that the finished bindings give
if no method of the document is called; and for a call of a method it is the unknown type, which
the finished bindings give only if the method has no other. -/
theorem resolveTypes_initializer (hacyclic : Acyclic ⟨source, Binder.bind root source⟩ root)
    (hd : ((Binder.bind root source).resolveTypes root source).declaration? id = some d)
    (hsource : d.source = .expression ref) (hplace : ref.resolve? root = some place) :
    let finished := (Binder.bind root source).resolveTypes root source
    d.type = TypingContext.typeOf ⟨source, finished.withoutMemberTypes⟩ place.node ∧
    (place.node.Everywhere (NamesNoMethod finished source) →
      d.type = TypingContext.typeOf ⟨source, finished⟩ place.node) ∧
    ∀ callee object property, CallsMethod source place.node callee object property →
      d.type = unknownType ∧
      (d.type = TypingContext.typeOf ⟨source, finished⟩ place.node ↔
        TypingContext.methodReturnType ⟨source, finished⟩
          (TypingContext.typeAt ⟨source, finished⟩ 1 object) (property.text source)
          callee.start = unknownType) := by
  intro finished
  have hresolve : ∀ name offset space, finished.resolve name offset space =
      (Binder.bind root source).resolve name offset space :=
    Bindings.resolveTypes_resolve
  have htype := resolveTypes_expression hacyclic hd hsource hplace
  have hwithout : d.type =
      TypingContext.typeOf ⟨source, finished.withoutMemberTypes⟩ place.node := by
    rw [htype, TypingContext.typeOf_eq_typeAt, TypingContext.typeAt]
    simp only [Bindings.withoutMemberTypes_typeOf]
    refine congrArg Id.run (typeOfExpression_bind root source (fun name offset space => ?_)
      (Node.everywhere_of_forall (fun n _ _ property _ => ?_) _) _)
    · rw [Bindings.withoutMemberTypes_resolve, hresolve]
    · exact finished.withoutMemberTypes_withholds _
  refine ⟨hwithout, fun hnone => ?_, fun callee object property hcall => ?_⟩
  · rw [htype, TypingContext.typeOf_eq_typeAt, TypingContext.typeAt]
    refine congrArg Id.run (typeOfExpression_bind root source hresolve (hnone.mono ?_) _)
    intro n hn hmember hunlisted property hproperty d hd m hm hname hmethod
    exact absurd hmethod (hn hmember hunlisted property hproperty d hd m hm hname)
  · have hunknown : d.type = unknownType := by
      have h : CallsMethod (TypingContext.mk source finished.withoutMemberTypes).source place.node
        callee object property := hcall
      rw [hwithout, TypingContext.typeOf_callsMethod h]
      exact TypingContext.methodReturnType_eq_unknown (finished.withoutMemberTypes_withholds _) _ _
    refine ⟨hunknown, ?_⟩
    have h : CallsMethod (TypingContext.mk source finished).source place.node callee object
      property := hcall
    rw [hunknown, TypingContext.typeOf_callsMethod h]
    exact eq_comm

end

/-! ### A method that is called -/

section

open Node

/-- `class C{m():string{}}let p:C;let x=p.m();` with the call that is the value of `x`. -/
def methodCallText : List Char :=
  "class C\x7bm():string\x7b\x7d\x7dlet p:C;let x=p.m();".toList

def methodCallee : Node :=
  construct "member_expression" 35 38 (some "function")
    [construct "identifier" 35 36 (some "object") [], token "." 36 37 none,
      construct "property_identifier" 37 38 (some "property") []]

def methodCall : Node :=
  construct "call_expression" 35 40 (some "value")
    [methodCallee,
      construct "arguments" 38 40 (some "arguments") [token "(" 38 39 none, token ")" 39 40 none]]

def calledMethod : Node :=
  construct "method_definition" 8 20 none
    [construct "property_identifier" 8 9 (some "name") [],
      construct "formal_parameters" 9 11 (some "parameters")
        [token "(" 9 10 none, token ")" 10 11 none],
      construct "type_annotation" 11 18 (some "return_type")
        [token ":" 11 12 none,
          construct "predefined_type" 12 18 none [token "string" 12 18 none]],
      construct "statement_block" 18 20 (some "body")
        [token "\x7b" 18 19 none, token "\x7d" 19 20 none]]

def methodCallTree : Node :=
  construct "program" 0 41 none
    [construct "class_declaration" 0 21 none
      [token "class" 0 5 none,
        construct "type_identifier" 6 7 (some "name") [],
        construct "class_body" 7 21 (some "body")
          [token "\x7b" 7 8 none, calledMethod, token "\x7d" 20 21 none]],
    construct "lexical_declaration" 21 29 none
      [token "let" 21 24 (some "kind"),
        construct "variable_declarator" 25 28 none
          [construct "identifier" 25 26 (some "name") [],
            construct "type_annotation" 26 28 (some "type")
              [token ":" 26 27 none, construct "type_identifier" 27 28 none []]],
        token ";" 28 29 none],
    construct "lexical_declaration" 29 41 none
      [token "let" 29 32 (some "kind"),
        construct "variable_declarator" 33 40 none
          [construct "identifier" 33 34 (some "name") [], token "=" 34 35 none, methodCall],
        token ";" 40 41 none]]

def methodCallBindings : Bindings :=
  (Binder.bind methodCallTree methodCallText).resolveTypes methodCallTree methodCallText

/-- The called method returns a string, but the variable that holds what it returns has the unknown
type. -/
theorem resolveTypes_initializer_methodCall :
    ∃ d, methodCallBindings.declaration? 2 = some d ∧
      d.source = .expression (NodeRef.of methodCall) ∧ d.type = unknownType ∧
      TypingContext.typeOf ⟨methodCallText, methodCallBindings⟩ methodCall = "string" := by
  have hacyclic : Acyclic ⟨methodCallText, Binder.bind methodCallTree methodCallText⟩
      methodCallTree := acyclic_of_lt (by decide +kernel)
  obtain ⟨d, hd⟩ : ∃ d, methodCallBindings.declaration? 2 = some d :=
    Option.isSome_iff_exists.mp (by decide +kernel)
  have hsource : (methodCallBindings.declaration? 2).map (·.source) =
      some (.expression (NodeRef.of methodCall)) := by decide +kernel
  rw [hd] at hsource
  obtain ⟨steps, hplace⟩ : ∃ steps,
      (NodeRef.of methodCall).resolve? methodCallTree = some ⟨methodCall, steps⟩ := ⟨_, rfl⟩
  have hcall : CallsMethod methodCallText methodCall methodCallee
      (construct "identifier" 35 36 (some "object") [])
      (construct "property_identifier" 37 38 (some "property") []) :=
    ⟨rfl, rfl, rfl, by decide +kernel, rfl, rfl⟩
  have h := resolveTypes_initializer hacyclic hd (Option.some.inj hsource) hplace
  exact ⟨d, hd, Option.some.inj hsource, (h.2.2 _ _ _ hcall).1, by decide +kernel⟩

end

end UtsInsight
