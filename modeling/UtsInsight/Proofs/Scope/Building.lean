import Mathlib.Data.List.Basic
import Mathlib.Tactic.SplitIfs
import UtsInsight.Scope.Binder

/-!
# What entering a place does

Entering a place adds declarations to scopes that exist, opens at most one scope, and adds more
declarations. Whether a scope is opened and whether the walk goes on below the place is said by the
place alone. This one description of a step is what all later statements about the walk use.
-/
namespace UtsInsight

/-! ### Scopes around a scope -/

namespace Bindings

variable {b : Bindings}

theorem le_of_mem_outwards {id s : ScopeId} (h : s ∈ b.outwards id) : s ≤ id := by
  induction id using Nat.strongRecOn with
  | ind id ih =>
    unfold outwards at h
    split at h
    next around _ =>
      split at h
      next hlt =>
        rcases List.mem_cons.mp h with rfl | h
        · exact Nat.le_refl _
        · exact Nat.le_trans (ih around hlt h) (Nat.le_of_lt hlt)
      next => exact Nat.le_of_eq (List.mem_singleton.mp h)
    next => exact Nat.le_of_eq (List.mem_singleton.mp h)

theorem mem_outwards_self (b : Bindings) (id : ScopeId) : id ∈ b.outwards id := by
  unfold outwards
  split
  · split
    · exact List.mem_cons_self
    · exact List.mem_singleton_self id
  · exact List.mem_singleton_self id

theorem functionScope_le (id : ScopeId) : b.functionScope id ≤ id := by
  unfold functionScope
  simp only
  split
  next s hs => exact le_of_mem_outwards (List.mem_of_find?_eq_some hs)
  next =>
    cases hlast : (b.outwards id).getLast? with
    | some s => exact le_of_mem_outwards (List.mem_of_getLast? hlast)
    | none => exact Nat.le_refl _

/-- Only the parents of a scope and of earlier ones count for the scopes around it. -/
theorem outwards_congr {b₁ b₂ : Bindings} {id : ScopeId}
    (h : ∀ s ≤ id, (b₁.scope? s).bind (·.parent) = (b₂.scope? s).bind (·.parent)) :
    b₁.outwards id = b₂.outwards id := by
  induction id using Nat.strongRecOn with
  | ind id ih =>
    unfold outwards
    rw [h id (Nat.le_refl id)]
    split
    next around _ =>
      split
      next hlt => rw [ih around hlt fun s hs => h s (Nat.le_trans hs (Nat.le_of_lt hlt))]
      next => rfl
    next => rfl

end Bindings

/-! ### Declaring -/

theorem Bindings.scope?_declare (b : Bindings) (d : Declaration) (id : ScopeId) :
    (b.declare d).scope? id = (b.scope? id).map fun s =>
      if d.scope = id then
        { s with
          declarations := s.declarations ++ [b.declarations.length]
          names := s.names.add d.name b.declarations.length }
      else s :=
  List.getElem?_modify _ _ _ _

/-- No signature is read off a comment. -/
def TypeSource.PastComments : TypeSource → Prop
  | .callable ref => ref.kind ≠ "comment"
  | .fixed _ | .expression _ => True

theorem TypeSource.PastComments.fixed (type : String) : (TypeSource.fixed type).PastComments :=
  trivial

theorem TypeSource.PastComments.callable {n : Node} (h : n.kind ≠ "comment") :
    (TypeSource.callable (NodeRef.of n)).PastComments :=
  h

/-- A declaration as the walk adds it to bindings: its scope exists, and nothing has a type yet. -/
structure Declaration.Fresh (d : Declaration) (b : Bindings) : Prop where
  scope : d.scope < b.scopes.length
  type : d.type = ""
  members : ∀ m ∈ d.members, m.type = ""
  source : d.source.PastComments
  memberSources : ∀ m ∈ d.members, m.source.PastComments

/-- The second bindings are the first with more declarations. -/
inductive Declares (b : Bindings) : Bindings → Prop
  | refl : Declares b b
  | declare {b' : Bindings} {d : Declaration} (h : Declares b b') (hd : d.Fresh b') :
    Declares b (b'.declare d)

namespace Declares

variable {b b' b'' : Bindings}

theorem trans (h : Declares b b') (h' : Declares b' b'') : Declares b b'' := by
  induction h' with
  | refl => exact h
  | declare _ hd ih => exact ih.declare hd

theorem one {d : Declaration} (hd : d.Fresh b) : Declares b (b.declare d) :=
  refl.declare hd

theorem length_scopes (h : Declares b b') : b'.scopes.length = b.scopes.length := by
  induction h with
  | refl => rfl
  | declare _ _ ih => rw [← ih, Bindings.declare, List.length_modify]

/-- Declaring changes nothing about scopes but what they hold. -/
theorem scope?_map {α : Type} (f : Scope → α)
    (hf : ∀ (s : Scope) declarations names, f { s with declarations, names } = f s)
    (h : Declares b b') (id : ScopeId) : (b'.scope? id).map f = (b.scope? id).map f := by
  induction h with
  | refl => rfl
  | declare _ _ ih =>
    rw [← ih, Bindings.scope?_declare, Option.map_map]
    congr 1
    funext s
    rw [Function.comp_apply]
    split
    · exact hf s _ _
    · rfl

theorem outwards (h : Declares b b') (id : ScopeId) : b'.outwards id = b.outwards id :=
  Bindings.outwards_congr fun s _ => by
    have hparent := congrArg Option.join (h.scope?_map (·.parent) (fun _ _ _ => rfl) s)
    rwa [← Option.bind_id_eq_join, ← Option.bind_id_eq_join, Option.bind_map, Option.bind_map]
      at hparent

/-- Declarations that are added for the entries of a list, one after another. -/
theorem foldl {α : Type} {f : Bindings → α → Bindings} {n : Nat}
    (hf : ∀ b x, n < b.scopes.length → Declares b (f b x)) (xs : List α) :
    ∀ b : Bindings, n < b.scopes.length → Declares b (xs.foldl f b) := by
  induction xs with
  | nil => exact fun _ _ => refl
  | cons x xs ih =>
    intro b hn
    have hx := hf b x hn
    exact hx.trans (ih (f b x) (by rwa [hx.length_scopes]))

end Declares

namespace Binder

variable {source : List Char} {scope : ScopeId} {b : Bindings}

theorem declarationOf_fresh (hscope : scope < b.scopes.length) (name : Node)
    (kind : DeclarationKind) {type : TypeSource} (htype : type.PastComments) :
    (declarationOf source scope name kind type).Fresh b :=
  ⟨hscope, rfl, fun _ h => absurd h List.not_mem_nil, htype, fun _ h => absurd h List.not_mem_nil⟩

theorem declares_all (hscope : scope < b.scopes.length) (kind : DeclarationKind)
    {type : TypeSource} (htype : type.PastComments) (names : List Place) :
    Declares b (declareAll source scope kind type b names) :=
  Declares.foldl (fun _ p h => .one (declarationOf_fresh h p.node kind htype)) names b hscope

theorem declares_pattern (hscope : scope < b.scopes.length) (kind : DeclarationKind)
    {type : TypeSource} (htype : type.PastComments) (pattern : Node) :
    Declares b (declarePattern source scope kind type b pattern) := by
  apply declares_all hscope
  split
  · exact htype
  · trivial

theorem statedType_pastComments (node : Node) : (statedType source node).PastComments := by
  unfold statedType
  split <;> trivial

theorem declares_typeParameters (hscope : scope < b.scopes.length) (node : Node) :
    Declares b (declareTypeParameters source scope b node) := by
  unfold declareTypeParameters
  split
  · exact .refl
  · exact Declares.foldl (fun _ name h => .one (declarationOf_fresh h name _ (.fixed _))) _ b hscope

theorem declares_parameter (hscope : scope < b.scopes.length) (parameter : Node) :
    Declares b (declareParameter source scope b parameter) := by
  unfold declareParameter
  split
  · split
    · exact declares_pattern hscope _ (statedType_pastComments _) _
    · exact .refl
  · exact .refl

theorem variableScope_lt (hscope : scope < b.scopes.length) (kind : DeclarationKind) :
    variableScope b kind scope < b.scopes.length := by
  unfold variableScope
  split
  · exact Nat.lt_of_le_of_lt (Bindings.functionScope_le scope) hscope
  · exact hscope

theorem declares_variables (hscope : scope < b.scopes.length) (node : Node) :
    Declares b (declareVariables source scope b node) := by
  unfold declareVariables
  extract_lets kind target
  have htarget : target < b.scopes.length := variableScope_lt hscope kind
  refine Declares.foldl (fun b declarator h => ?_) _ b htarget
  split
  · exact declares_pattern h _ (statedType_pastComments _) _
  · exact .refl

theorem declares_loopVariables (hscope : scope < b.scopes.length) (node : Node) :
    Declares b (declareLoopVariables source scope b node) := by
  unfold declareLoopVariables
  split
  · exact declares_all (variableScope_lt hscope _) _ (.fixed _) _
  · exact .refl

theorem declares_caught (hscope : scope < b.scopes.length) (node : Node) :
    Declares b (declareCaught source scope b node) := by
  unfold declareCaught
  split
  · exact declares_all hscope _ (.fixed _) _
  · exact .refl

theorem declares_named {declaration : Node → Declaration} (node : Node)
    (h : ∀ name, (declaration name).Fresh b) : Declares b (declareNamed b node declaration) := by
  unfold declareNamed
  split
  · exact .one (h _)
  · exact .refl

theorem declares_head (hscope : scope < b.scopes.length) (node : Node) :
    Declares b (declareHead source scope b node) := by
  unfold declareHead
  extract_lets b₁ b₂ b₃
  have h₁ : Declares b b₁ := by
    unfold b₁
    split
    · rename_i hkind
      have hpast : node.kind ≠ "comment" := by
        intro hcomment
        rw [hcomment] at hkind
        exact absurd hkind (by decide)
      exact declares_named node fun name => declarationOf_fresh hscope name _ (.callable hpast)
    · exact .refl
  have hscope₁ : scope < b₁.scopes.length := by rwa [h₁.length_scopes]
  have h₂ : Declares b b₂ := h₁.trans (declares_typeParameters hscope₁ node)
  have hscope₂ : scope < b₂.scopes.length := by rwa [h₂.length_scopes]
  have h₃ : Declares b b₃ := by
    unfold b₃
    split
    · exact h₂.declare (declarationOf_fresh hscope₂ _ _ (.fixed _))
    · exact h₂
  have hscope₃ : scope < b₃.scopes.length := by rwa [h₃.length_scopes]
  split
  · exact h₃.trans (Declares.foldl (fun _ p h => declares_parameter h p) _ b₃ hscope₃)
  · exact h₃

/-- A member has no type yet, and a method is no comment. -/
theorem of_mem_membersOf {node : Node} {m : Member} (h : m ∈ membersOf source node) :
    m.type = "" ∧ m.source.PastComments := by
  unfold membersOf at h
  split at h
  · obtain ⟨item, _, hitem⟩ := List.mem_filterMap.mp h
    unfold memberOf? at hitem
    split at hitem
    · cases hitem
    simp only at hitem
    split_ifs at hitem with _ hmethod
    · cases hitem
      refine ⟨rfl, fun hcomment : item.kind = "comment" => ?_⟩
      rw [hcomment] at hmethod
      exact absurd hmethod (by decide)
    · cases hitem
      exact ⟨rfl, statedType_pastComments item⟩
  · exact absurd h List.not_mem_nil

/-- Declarations with the members of a node. -/
theorem fresh_withMembers (hscope : scope < b.scopes.length) (name node : Node)
    (kind : DeclarationKind) {type : TypeSource} (htype : type.PastComments) :
    { declarationOf source scope name kind type with members := membersOf source node }.Fresh b :=
  ⟨hscope, rfl, fun _ h => (of_mem_membersOf h).1, htype, fun _ h => (of_mem_membersOf h).2⟩

theorem declares_class (source : List Char) (hscope : scope < b.scopes.length) (node : Node) :
    Declares b (declareClass source scope b node) :=
  declares_named node fun name => fresh_withMembers hscope name node _ (.fixed _)

/-! ### Entering -/

/-- The kind of the scope that is opened for a place, if one is. The body of a function or of a
catch clause has none of its own. -/
def opening? (p : Place) : Option ScopeKind :=
  match form p.node.kind with
  | .function _ | .anonymousFunction => some .function
  | .classDeclaration | .classExpression | .interface | .typeAlias | .header | .forIn | .catch =>
    some .block
  | .block =>
    if p.ancestors.head?.any fun n => isFunctionKind n.kind || n.kind == "catch_clause" then none
    else some .block
  | .variables | .enum | .namespace _ | .imports | .other => none

/-- Whether the constructs below a node of a form are walked. -/
def Form.descends : Form → Bool
  | .interface | .typeAlias | .enum | .imports => false
  | _ => true

/-- Whether the name of a node of a form is passed over. -/
def Form.passesName : Form → Bool
  | .function _ | .anonymousFunction => true
  | _ => false

/-- What entering a node that opens no scope does. -/
structure Stays (f : Form) (scope : ScopeId) (b : Bindings) (entered : Descent) : Prop where
  declares : Declares b entered.bindings
  scope : entered.scope = if f.descends then some scope else none
  skipsName : entered.skipsName = f.passesName

/-- What entering a node that opens a scope does. -/
structure Opens (f : Form) (kind : ScopeKind) (scope : ScopeId) (node : Node) (b : Bindings)
    (entered : Descent) : Prop where
  declares : ∃ b', Declares b b' ∧ Declares (openFor b' kind scope node) entered.bindings
  scope : entered.scope = if f.descends then some b.scopes.length else none
  skipsName : entered.skipsName = f.passesName

theorem length_scopes_openFor (b : Bindings) (kind : ScopeKind) (around : ScopeId) (node : Node) :
    (openFor b kind around node).scopes.length = b.scopes.length + 1 := by
  rw [openFor, Bindings.openScope, List.length_append, List.length_singleton]

theorem lt_length_openFor (b : Bindings) (kind : ScopeKind) (around : ScopeId) (node : Node) :
    b.scopes.length < (openFor b kind around node).scopes.length := by
  rw [length_scopes_openFor]
  exact Nat.lt_succ_self _

theorem enter_stays (source : List Char) {p : Place} (hscope : scope < b.scopes.length)
    (h : opening? p = none) :
    Stays (form p.node.kind) scope b (enter source p scope b) := by
  unfold opening? at h
  unfold enter
  dsimp only
  generalize form p.node.kind = f at h ⊢
  cases f with
  | «variables» => exact ⟨declares_variables hscope _, rfl, rfl⟩
  | «enum» =>
    exact ⟨declares_named _ fun name => declarationOf_fresh hscope name _ (.fixed _), rfl, rfl⟩
  | «namespace» kind =>
    refine ⟨?_, rfl, rfl⟩
    simp only
    split
    · exact .one (declarationOf_fresh hscope _ _ (.fixed _))
    · exact .refl
  | «imports» => exact ⟨declares_all hscope _ (.fixed _) _, rfl, rfl⟩
  | block =>
    simp only at h ⊢
    split_ifs at h ⊢
    exact ⟨.refl, rfl, rfl⟩
  | other => exact ⟨.refl, rfl, rfl⟩
  | function | anonymousFunction | classDeclaration | classExpression | interface | typeAlias
  | header | forIn | «catch» => cases h

theorem enterFunction_opens (f : Form) (hf : f.descends = true) (hname : f.passesName = true)
    {b' : Bindings} (h : Declares b b') (node : Node) :
    Opens f .function scope node b (enterFunction source scope b' node) := by
  refine ⟨⟨b', h, declares_head (lt_length_openFor _ _ _ _) node⟩, ?_, hname.symm⟩
  rw [hf, if_pos rfl, ← h.length_scopes]
  rfl

theorem enter_opens (source : List Char) {p : Place} {kind : ScopeKind}
    (hscope : scope < b.scopes.length) (h : opening? p = some kind) :
    Opens (form p.node.kind) kind scope p.node b (enter source p scope b) := by
  unfold opening? at h
  unfold enter
  dsimp only
  have hcomment : p.node.kind = "comment" → form p.node.kind = .other := by
    intro hkind
    rw [hkind]
    rfl
  generalize form p.node.kind = f at h hcomment ⊢
  cases f with
  | function kind =>
    cases h
    have hpast : p.node.kind ≠ "comment" := fun hkind => nomatch hcomment hkind
    exact enterFunction_opens _ rfl rfl
      (declares_named _ fun name => ⟨hscope, rfl, fun _ h => absurd h List.not_mem_nil,
        .callable hpast, fun _ h => absurd h List.not_mem_nil⟩) _
  | anonymousFunction =>
    cases h
    exact enterFunction_opens _ rfl rfl .refl _
  | classDeclaration =>
    cases h
    have hclass : Declares b (declareClass source scope b p.node) :=
      declares_class source hscope _
    refine ⟨⟨_, hclass, declares_typeParameters (lt_length_openFor _ _ _ _) _⟩, ?_, rfl⟩
    rw [← hclass.length_scopes]
    rfl
  | classExpression =>
    cases h
    have hclass := declares_class source (lt_length_openFor b .block scope p.node) p.node
    refine ⟨⟨b, .refl, hclass.trans (declares_typeParameters ?_ _)⟩, rfl, rfl⟩
    rw [hclass.length_scopes]
    exact lt_length_openFor _ _ _ _
  | interface =>
    cases h
    exact ⟨⟨_, declares_named _ fun name => fresh_withMembers hscope name p.node _ (.fixed _),
      declares_typeParameters (lt_length_openFor _ _ _ _) _⟩, rfl, rfl⟩
  | typeAlias =>
    cases h
    exact ⟨⟨_, declares_named _ fun name => declarationOf_fresh hscope name _ (.fixed _),
      declares_typeParameters (lt_length_openFor _ _ _ _) _⟩, rfl, rfl⟩
  | block =>
    simp only at h ⊢
    split_ifs at h ⊢
    cases h
    exact ⟨⟨b, .refl, .refl⟩, rfl, rfl⟩
  | header =>
    cases h
    exact ⟨⟨b, .refl, .refl⟩, rfl, rfl⟩
  | forIn =>
    cases h
    exact ⟨⟨b, .refl, declares_loopVariables (lt_length_openFor _ _ _ _) _⟩, rfl, rfl⟩
  | «catch» =>
    cases h
    exact ⟨⟨b, .refl, declares_caught (lt_length_openFor _ _ _ _) _⟩, rfl, rfl⟩
  | «variables» | «enum» | «namespace» | «imports» | other => cases h

end Binder

/-! ### Walking -/

/-- The second bindings are the first with more scopes and declarations. -/
inductive Builds (b : Bindings) : Bindings → Prop
  | refl : Builds b b
  | declare {b' : Bindings} {d : Declaration} (h : Builds b b') (hd : d.Fresh b') :
    Builds b (b'.declare d)
  | openScope {b' : Bindings} {kind : ScopeKind} {around : ScopeId} {range : ByteSpan}
    (h : Builds b b') (haround : around < b'.scopes.length) :
    Builds b (b'.openScope kind (some around) range)

namespace Builds

variable {b b' b'' : Bindings}

theorem trans (h : Builds b b') (h' : Builds b' b'') : Builds b b'' := by
  induction h' with
  | refl => exact h
  | declare _ hd ih => exact ih.declare hd
  | openScope _ haround ih => exact ih.openScope haround

theorem of_declares (h : Declares b b') : Builds b b' := by
  induction h with
  | refl => exact refl
  | declare _ hd ih => exact ih.declare hd

theorem length_scopes_le (h : Builds b b') : b.scopes.length ≤ b'.scopes.length := by
  induction h with
  | refl => exact Nat.le_refl _
  | declare _ _ ih => rwa [Bindings.declare, List.length_modify]
  | openScope _ _ ih =>
    rw [Bindings.openScope, List.length_append]
    exact Nat.le_add_right_of_le ih

/-- What holds of every declaration that is added holds of all declarations. -/
theorem declarations {P : Declaration → Prop} (hP : ∀ {b : Bindings} {d}, d.Fresh b → P d)
    (h : Builds b b') (hb : ∀ d ∈ b.declarations, P d) : ∀ d ∈ b'.declarations, P d := by
  induction h with
  | refl => exact hb
  | declare _ hd ih =>
    intro d hmem
    rcases List.mem_append.mp hmem with hmem | hmem
    · exact ih d hmem
    · rw [List.mem_singleton.mp hmem]
      exact hP hd
  | openScope _ _ ih => exact ih

end Builds

namespace Binder

variable {source : List Char}

theorem enter_builds (source : List Char) (p : Place) {scope : ScopeId} {b : Bindings}
    (hscope : scope < b.scopes.length) :
    Builds b (enter source p scope b).bindings ∧
      ∀ inner, (enter source p scope b).scope = some inner →
        inner < (enter source p scope b).bindings.scopes.length := by
  cases hopening : opening? p with
  | none =>
    have h := enter_stays source hscope hopening
    refine ⟨.of_declares h.declares, fun inner hinner => ?_⟩
    rw [h.scope] at hinner
    obtain ⟨_, hinner⟩ := Option.ite_none_right_eq_some.mp hinner
    rw [h.declares.length_scopes, ← Option.some.inj hinner]
    exact hscope
  | some kind =>
    have h := enter_opens source hscope hopening
    obtain ⟨b', hbefore, hafter⟩ := h.declares
    have hscope' : scope < b'.scopes.length := by rwa [hbefore.length_scopes]
    refine ⟨((Builds.of_declares hbefore).openScope hscope').trans (.of_declares hafter),
      fun inner hinner => ?_⟩
    rw [h.scope] at hinner
    obtain ⟨_, hinner⟩ := Option.ite_none_right_eq_some.mp hinner
    rw [hafter.length_scopes, ← Option.some.inj hinner, ← hbefore.length_scopes]
    exact lt_length_openFor _ _ _ _

mutual

theorem walk_builds : ∀ (node : Node) (steps : List Step) (scope : ScopeId) (b : Bindings),
    scope < b.scopes.length → Builds b (walk source steps scope b node)
  | ⟨info, children⟩, steps, scope, b, hscope => by
    obtain ⟨hbuilds, hinner⟩ := enter_builds source ⟨⟨info, children⟩, steps⟩ hscope
    unfold walk
    dsimp only
    split
    next inner hsome =>
      exact hbuilds.trans (walkBelow_builds children _ _ _ _ _ _ (hinner inner hsome))
    next => exact hbuilds

theorem walkBelow_builds : ∀ (children : List Node) (steps : List Step) (parent : Node)
    (index : Nat) (scope : ScopeId) (skipsName : Bool) (b : Bindings),
    scope < b.scopes.length →
      Builds b (walkBelow source steps parent index scope skipsName b children)
  | [], _, _, _, _, _, _, _ => .refl
  | c :: cs, steps, parent, index, scope, skipsName, b, hscope => by
    unfold walkBelow
    extract_lets isName b'
    have hb' : Builds b b' := by
      unfold b'
      split
      · exact walk_builds c _ scope b hscope
      · exact .refl
    exact hb'.trans (walkBelow_builds cs _ _ _ _ _ _
      (Nat.lt_of_lt_of_le hscope hb'.length_scopes_le))

end

/-- The bindings of the empty document around which the walk builds. -/
def programScope (root : Node) : Bindings :=
  Bindings.empty.openScope .program none root.range

theorem bind_builds (root : Node) (source : List Char) :
    Builds (programScope root) (bind root source) :=
  walkBelow_builds root.children _ _ _ _ _ _ Nat.zero_lt_one

/-- Nothing that the walk declares has a type. -/
theorem bind_untyped (root : Node) (source : List Char) :
    ∀ d ∈ (bind root source).declarations, d.type = "" ∧ ∀ m ∈ d.members, m.type = "" :=
  (bind_builds root source).declarations (fun hd => ⟨hd.type, hd.members⟩)
    fun _ hd => absurd hd List.not_mem_nil

/-- No signature that the walk notes is that of a comment. -/
theorem bind_pastComments (root : Node) (source : List Char) :
    ∀ d ∈ (bind root source).declarations,
      d.source.PastComments ∧ ∀ m ∈ d.members, m.source.PastComments :=
  (bind_builds root source).declarations (fun hd => ⟨hd.source, hd.memberSources⟩)
    fun _ hd => absurd hd List.not_mem_nil

end Binder

end UtsInsight
