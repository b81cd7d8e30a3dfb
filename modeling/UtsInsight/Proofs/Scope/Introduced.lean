import UtsInsight.Proofs.Scope.Declared

/-!
# Where declarations come from

Every declaration of a document was added when the walk entered a place. What a place adds is a name
without members, or the name of a class or interface with the members of its body, and the type of
what it adds is a word of the language, a text of the tree, or still to be computed.
-/
namespace UtsInsight.Binder

/-! ### What a place adds -/

/-- Whether nodes of a form have members. -/
def Form.hasMembers : Form → Bool
  | .classDeclaration | .classExpression | .interface => true
  | _ => false

/-- How a node can say what type something has that is declared at it. -/
inductive States (source : List Char) (n : Node) : TypeSource → Prop
  | word {type : String} (h : type ∈ ["any", "string", "unknown"]) : States source n (.fixed type)
  /-- The stated type of a variable. -/
  | variable {c : Node} (h : c ∈ n.namedChildren) : States source n (statedType source c)
  /-- The stated type of a parameter. -/
  | parameter {list c : Node} (hlist : n.child? "parameters" = some list)
      (h : c ∈ list.namedChildren) : States source n (statedType source c)
  | stated {c : Node} (h : n.child? "type" = some c) :
      States source n (.fixed (c.annotationText source))
  | typeParameter {list c name : Node} (hlist : n.child? "type_parameters" = some list)
      (hc : c ∈ list.namedChildren) (h : c.child? "name" = some name) :
      States source n (.fixed (name.text source))
  /-- The name of an interface. -/
  | name {c : Node} (hform : form n.kind = .interface) (h : n.child? "name" = some c) :
      States source n (.fixed (c.text source))
  /-- The name of a class or an enum, which stands for the class or enum itself. -/
  | typeofName {c : Node} (hform : form n.kind ∈ [.classDeclaration, .classExpression, .enum])
      (h : n.child? "name" = some c) : States source n (.fixed ("typeof " ++ c.text source))
  | typeofNamespace {kind : DeclarationKind} {c name : Node} (hform : form n.kind = .namespace kind)
      (hc : n.child? "name" = some c) (h : firstIdentifier? c = some name) :
      States source n (.fixed ("typeof " ++ name.text source))
  | aliased {c : Node} (hform : form n.kind = .typeAlias) (h : n.child? "value" = some c) :
      States source n (.fixed (c.plainText source))
  | callable : States source n (.callable (NodeRef.of n))

/-- The declaration is one that entering a node adds. -/
inductive Introduces (source : List Char) (n : Node) (d : Declaration) : Prop
  | plain (hmembers : d.members = []) (hsource : States source n d.source)
  | owner {name : Node} (hform : (form n.kind).hasMembers = true)
      (hname : n.child? "name" = some name) (hrange : d.nameRange = name.range)
      (hmembers : d.members = membersOf source n) (hsource : States source n d.source)

theorem Introduces.states {source : List Char} {n : Node} {d : Declaration}
    (h : Introduces source n d) : States source n d.source := by
  cases h with
  | plain _ hsource => exact hsource
  | owner _ _ _ _ hsource => exact hsource

/-- The second bindings have the declarations of the first and then others with a property. -/
def Adds (P : Declaration → Prop) (b b' : Bindings) : Prop :=
  ∃ ds, b'.declarations = b.declarations ++ ds ∧ ∀ d ∈ ds, P d

namespace Adds

variable {P Q : Declaration → Prop} {b b' b'' : Bindings}

theorem refl : Adds P b b :=
  ⟨[], (List.append_nil _).symm, fun _ h => absurd h List.not_mem_nil⟩

theorem trans (h : Adds P b b') (h' : Adds P b' b'') : Adds P b b'' := by
  obtain ⟨ds, hds, hP⟩ := h
  obtain ⟨ds', hds', hP'⟩ := h'
  refine ⟨ds ++ ds', by rw [hds', hds, List.append_assoc], fun d hd => ?_⟩
  exact (List.mem_append.mp hd).elim (hP d) (hP' d)

theorem one {d : Declaration} (h : P d) : Adds P b (b.declare d) := by
  refine ⟨[d], rfl, fun d' hd' => ?_⟩
  rw [List.mem_singleton.mp hd']
  exact h

theorem mono (hPQ : ∀ d, P d → Q d) (h : Adds P b b') : Adds Q b b' := by
  obtain ⟨ds, hds, hP⟩ := h
  exact ⟨ds, hds, fun d hd => hPQ d (hP d hd)⟩

theorem foldl {α : Type} {f : Bindings → α → Bindings} {xs : List α}
    (hf : ∀ x ∈ xs, ∀ b, Adds P b (f b x)) : Adds P b (xs.foldl f b) := by
  induction xs generalizing b with
  | nil => exact refl
  | cons x xs ih =>
    exact (hf x List.mem_cons_self b).trans (ih fun y hy => hf y (List.mem_cons_of_mem x hy))

theorem mem (h : Adds P b b') {d : Declaration} (hd : d ∈ b.declarations) :
    d ∈ b'.declarations := by
  obtain ⟨ds, hds, -⟩ := h
  rw [hds]
  exact List.mem_append_left ds hd

theorem of_mem (h : Adds P b b') {d : Declaration} (hd : d ∈ b'.declarations) :
    d ∈ b.declarations ∨ P d := by
  obtain ⟨ds, hds, hP⟩ := h
  rw [hds] at hd
  exact (List.mem_append.mp hd).imp_right (hP d)

end Adds

/-! ### Entering -/

section

variable {source : List Char} {scope : ScopeId} {kind : DeclarationKind} {type : TypeSource}
  {n : Node}

/-- A name that is declared with a type that the node states. -/
theorem introduces_name (h : States source n type) (name : Node) :
    Introduces source n (declarationOf source scope name kind type) :=
  .plain rfl h

theorem adds_all (h : States source n type) (names : List Place) (b : Bindings) :
    Adds (Introduces source n) b (declareAll source scope kind type b names) :=
  Adds.foldl fun p _ _ => .one (introduces_name h p.node)

theorem adds_pattern (h : States source n type) (pattern : Node) (b : Bindings) :
    Adds (Introduces source n) b (declarePattern source scope kind type b pattern) := by
  apply adds_all
  split
  · exact h
  · exact .word (by decide)

theorem adds_named {declaration : Node → Declaration} (b : Bindings)
    (h : ∀ name, n.child? "name" = some name → Introduces source n (declaration name)) :
    Adds (Introduces source n) b (declareNamed b n declaration) := by
  unfold declareNamed
  split
  next name hname => exact .one (h name hname)
  next => exact .refl

theorem mem_declareNamed {name : Node} {declaration : Node → Declaration}
    (h : n.child? "name" = some name) (b : Bindings) :
    declaration name ∈ (declareNamed b n declaration).declarations := by
  rw [declareNamed, h]
  exact List.mem_append_right _ List.mem_cons_self

theorem adds_typeParameters (b : Bindings) :
    Adds (Introduces source n) b (declareTypeParameters source scope b n) := by
  unfold declareTypeParameters
  split
  next => exact .refl
  next list hlist =>
    apply Adds.foldl
    intro name hname b
    obtain ⟨c, hc, hchild⟩ := List.mem_filterMap.mp hname
    exact .one (introduces_name (.typeParameter hlist hc hchild) name)

theorem adds_variables (b : Bindings) :
    Adds (Introduces source n) b (declareVariables source scope b n) := by
  unfold declareVariables
  apply Adds.foldl
  intro declarator hdeclarator b
  split
  · exact adds_pattern (.variable (List.mem_of_mem_filter hdeclarator)) _ b
  · exact .refl

theorem adds_loopVariables (b : Bindings) :
    Adds (Introduces source n) b (declareLoopVariables source scope b n) := by
  unfold declareLoopVariables
  split
  · apply adds_all
    apply States.word
    split <;> decide
  · exact .refl

theorem adds_caught (b : Bindings) :
    Adds (Introduces source n) b (declareCaught source scope b n) := by
  unfold declareCaught
  split
  · apply adds_all
    split
    next hstated => exact .stated hstated
    next => exact .word (by decide)
  · exact .refl

theorem adds_parameters {list : Node} (hlist : n.child? "parameters" = some list) (b : Bindings) :
    Adds (Introduces source n) b
      (list.namedChildren.foldl (declareParameter source scope) b) := by
  apply Adds.foldl
  intro parameter hparameter b
  unfold declareParameter
  split_ifs
  · split
    · exact adds_pattern (.parameter hlist hparameter) _ b
    · exact .refl
  · exact .refl

theorem adds_head (b : Bindings) :
    Adds (Introduces source n) b (declareHead source scope b n) := by
  unfold declareHead
  extract_lets b₁ b₂ b₃
  have h₁ : Adds (Introduces source n) b b₁ := by
    unfold b₁
    split_ifs
    · exact adds_named b fun name _ => introduces_name .callable name
    · exact .refl
  have h₃ : Adds (Introduces source n) b₂ b₃ := by
    unfold b₃
    split
    · exact .one (introduces_name (.word (by decide)) _)
    · exact .refl
  apply ((h₁.trans (adds_typeParameters b₁)).trans h₃).trans
  split
  next hlist => exact adds_parameters hlist b₃
  next => exact .refl

theorem adds_class (hform : form n.kind ∈ [.classDeclaration, .classExpression]) (b : Bindings) :
    Adds (Introduces source n) b (declareClass source scope b n) := by
  apply adds_named
  intro name hname
  have hmembers : (form n.kind).hasMembers = true := by
    rcases List.mem_pair.mp hform with hform | hform <;> rw [hform] <;> rfl
  refine .owner hmembers hname rfl rfl (.typeofName ?_ hname)
  rcases List.mem_pair.mp hform with hform | hform <;> rw [hform] <;> decide

/-- Opening a scope adds nothing. -/
theorem adds_openFor {P : Declaration → Prop} {b b' : Bindings} (scopeKind : ScopeKind)
    (around : ScopeId) (h : Adds P (openFor b scopeKind around n) b') : Adds P b b' :=
  h

/-- Entering a place adds declarations that it introduces. -/
theorem enter_introduces (p : Place) (scope : ScopeId) (b : Bindings) :
    Adds (Introduces source p.node) b (enter source p scope b).bindings := by
  unfold enter
  dsimp only
  cases hform : form p.node.kind with
  | «variables» => exact adds_variables b
  | function kind =>
    have hnamed : Adds (Introduces source p.node) b (declareNamed b p.node fun name =>
        { declarationOf source scope name kind (.callable (NodeRef.of p.node)) with
          hasBody := (p.node.child? "body").isSome
          isGeneric := (p.node.child? "type_parameters").isSome }) :=
      adds_named b fun _ _ => .plain rfl .callable
    exact hnamed.trans (adds_openFor .function scope (adds_head _))
  | anonymousFunction => exact adds_openFor .function scope (adds_head _)
  | classDeclaration =>
    have hclass : Adds (Introduces source p.node) b (declareClass source scope b p.node) :=
      adds_class (by rw [hform]; decide) b
    exact hclass.trans (adds_openFor .block scope (adds_typeParameters _))
  | classExpression =>
    have hclass : Adds (Introduces source p.node) (openFor b .block scope p.node)
        (declareClass source b.scopes.length (openFor b .block scope p.node) p.node) :=
      adds_class (by rw [hform]; decide) _
    exact adds_openFor .block scope (hclass.trans (adds_typeParameters _))
  | interface =>
    have hnamed : Adds (Introduces source p.node) b (declareNamed b p.node fun name =>
        { declarationOf source scope name .interface (.fixed (name.text source)) with
          members := membersOf source p.node }) :=
      adds_named b fun name hname =>
        .owner (by rw [hform]; rfl) hname rfl rfl (.name hform hname)
    exact hnamed.trans (adds_openFor .block scope (adds_typeParameters _))
  | typeAlias =>
    apply Adds.trans _ (adds_openFor .block scope (adds_typeParameters _))
    apply adds_named
    intro name hname
    apply introduces_name
    split
    next hvalue => exact .aliased hform hvalue
    next => exact .word (by decide)
  | «enum» =>
    exact adds_named b fun name hname =>
      introduces_name (.typeofName (by rw [hform]; decide) hname) name
  | «namespace» kind =>
    simp only
    split
    next name hfound =>
      obtain ⟨c, hc, hfirst⟩ := Option.bind_eq_some_iff.mp hfound
      have hname := (Option.ite_none_right_eq_some.mp hfirst).2
      exact .one (introduces_name (.typeofNamespace hform hc hname) name)
    next => exact .refl
  | «imports» => exact adds_all (.word (by decide)) _ b
  | block =>
    simp only
    split_ifs
    · exact .refl
    · exact adds_openFor .block scope .refl
  | header => exact adds_openFor .block scope .refl
  | forIn => exact adds_openFor .block scope (adds_loopVariables _)
  | «catch» => exact adds_openFor .block scope (adds_caught _)
  | other => exact .refl

/-- Whether the walk goes on below a place is said by its form. -/
theorem enter_descends (source : List Char) (p : Place) (scope : ScopeId) (b : Bindings) :
    (enter source p scope b).scope.isSome = (form p.node.kind).descends ∧
      (enter source p scope b).skipsName = (form p.node.kind).passesName := by
  unfold enter
  dsimp only
  generalize form p.node.kind = f
  cases f with
  | block =>
    simp only
    split_ifs <;> exact ⟨rfl, rfl⟩
  | _ => exact ⟨rfl, rfl⟩

end

/-! ### Walking -/

section

variable {source : List Char}

/-- Walking from the first bindings to the second enters some places: what is added is introduced at
one of them, and what entering one of them declares is kept. -/
structure Enters (source : List Char) (ps : List Place) (b b' : Bindings) : Prop where
  adds : Adds (fun d => ∃ p ∈ ps, Introduces source p.node d) b b'
  keeps : ∀ p ∈ ps, ∃ scope before, ∀ d ∈ (enter source p scope before).bindings.declarations,
    d ∈ b'.declarations

namespace Enters

variable {ps qs : List Place} {b b' b'' : Bindings} {p : Place}

theorem refl : Enters source [] b b :=
  ⟨.refl, fun _ h => absurd h List.not_mem_nil⟩

theorem trans (h : Enters source ps b b') (h' : Enters source qs b' b'') :
    Enters source (ps ++ qs) b b'' := by
  constructor
  · apply (h.adds.mono _).trans (h'.adds.mono _)
    · rintro d ⟨p, hp, hd⟩
      exact ⟨p, List.mem_append_left qs hp, hd⟩
    · rintro d ⟨p, hp, hd⟩
      exact ⟨p, List.mem_append_right ps hp, hd⟩
  · intro p hp
    rcases List.mem_append.mp hp with hp | hp
    · obtain ⟨scope, before, hkept⟩ := h.keeps p hp
      exact ⟨scope, before, fun d hd => h'.adds.mem (hkept d hd)⟩
    · exact h'.keeps p hp

theorem enter (source : List Char) (p : Place) (scope : ScopeId) (b : Bindings) :
    Enters source [p] b (enter source p scope b).bindings := by
  constructor
  · exact (enter_introduces p scope b).mono fun d hd => ⟨p, List.mem_singleton_self p, hd⟩
  · intro q hq
    rw [List.mem_singleton.mp hq]
    exact ⟨scope, b, fun _ hd => hd⟩

end Enters

mutual

theorem walk_enters : ∀ (n : Node) (steps : List Step) (scope : ScopeId) (b : Bindings),
    Enters source (walkedPlaces steps n) b (walk source steps scope b n)
  | ⟨info, children⟩, steps, scope, b => by
    have henter := Enters.enter source ⟨⟨info, children⟩, steps⟩ scope b
    obtain ⟨hdescends, hskips⟩ := enter_descends source ⟨⟨info, children⟩, steps⟩ scope b
    unfold walk walkedPlaces
    dsimp only at hdescends hskips ⊢
    cases hinner : (Binder.enter source ⟨⟨info, children⟩, steps⟩ scope b).scope with
    | some inner =>
      rw [hinner] at hdescends
      rw [← hdescends, Option.isSome_some, if_pos rfl, hskips]
      exact henter.trans (walkBelow_enters children steps _ 0 inner _ _)
    | none =>
      rw [hinner] at hdescends
      rw [← hdescends, Option.isSome_none, if_neg Bool.false_ne_true]
      exact henter

theorem walkBelow_enters : ∀ (cs : List Node) (steps : List Step) (parent : Node) (index : Nat)
    (scope : ScopeId) (skipsName : Bool) (b : Bindings),
    Enters source (walkedPlacesBelow steps parent index skipsName cs) b
      (walkBelow source steps parent index scope skipsName b cs)
  | [], _, _, _, _, _, _ => .refl
  | c :: cs, steps, parent, index, scope, skipsName, b => by
    unfold walkBelow walkedPlacesBelow
    dsimp only
    apply Enters.trans _ (walkBelow_enters cs steps parent (index + 1) scope _ _)
    split_ifs
    · exact walk_enters c _ scope b
    · exact .refl

end

variable {root : Node} {d : Declaration}

theorem bind_enters (root : Node) (source : List Char) :
    Enters source (walkedPlacesBelow [] root 0 false root.children) (programScope root)
      (bind root source) :=
  walkBelow_enters root.children [] root 0 0 false _

theorem below_of_mem_entered {p : Place}
    (hp : p ∈ walkedPlacesBelow [] root 0 false root.children) :
    Place.Below (.ofRoot root) p := by
  obtain ⟨c, hc, hbelow⟩ := exists_child_of_mem_walkedPlacesBelow root.children [] root 0 false hp
  exact (Place.below_of_mem_children (p := .ofRoot root) hc).trans hbelow

/-- Every declaration of a document was introduced at a place that was entered. -/
theorem exists_introduces (hd : d ∈ (bind root source).declarations) :
    ∃ p ∈ walkedPlacesBelow [] root 0 false root.children, Introduces source p.node d :=
  ((bind_enters root source).adds.of_mem hd).resolve_left List.not_mem_nil

/-- The class or interface at a place that is entered is declared with the members of its body. -/
theorem exists_owner (source : List Char) {p : Place}
    (hp : p ∈ walkedPlacesBelow [] root 0 false root.children)
    (hform : (form p.node.kind).hasMembers = true) {name : Node}
    (hname : p.node.child? "name" = some name) :
    ∃ d ∈ (bind root source).declarations, d.nameRange = name.range ∧
      d.members = membersOf source p.node := by
  obtain ⟨scope, b, hkept⟩ := (bind_enters root source).keeps p hp
  have hdeclared : ∃ d ∈ (Binder.enter source p scope b).bindings.declarations,
      d.nameRange = name.range ∧ d.members = membersOf source p.node := by
    unfold Binder.enter
    dsimp only
    generalize form p.node.kind = f at hform ⊢
    cases f with
    | classDeclaration | classExpression | interface =>
      exact ⟨_, (adds_typeParameters _).mem (mem_declareNamed hname _), rfl, rfl⟩
    | _ => cases hform
  obtain ⟨d, hd, hsame⟩ := hdeclared
  exact ⟨d, hkept d hd, hsame⟩

end

end UtsInsight.Binder
