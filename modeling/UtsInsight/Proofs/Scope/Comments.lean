import UtsInsight.Proofs.Scope.Naming
import UtsInsight.Proofs.Syntax.Comments

/-!
# Bindings without comments

The walk goes over comments like over any other construct, and they declare nothing and open no
scope. So a tree and the tree without comments have the same bindings, unless a comment is taken for
the type of an annotation or for the first part of a dotted name.
-/
namespace UtsInsight

open Node (CommentsAside)

variable {n c : Node} {source : List Char} {scope : ScopeId} {b : Bindings}

/-! ### Names of patterns and imports -/

/-- The nodes that a pattern binds, by the form of the pattern. -/
theorem map_node_boundNames_eq (n : Node) (steps : List Step) :
    (n.boundNames steps).map (·.node) =
      match patternForm n.kind with
      | .name => [n]
      | .role role => (n.child? role).toList.flatMap fun c => (c.boundNames []).map (·.node)
      | .parts => n.namedChildren.flatMap fun c => (c.boundNames []).map (·.node)
      | .none => [] := by
  have hplace := Place.boundNames_eq ⟨n, steps⟩
  rw [Place.boundNames] at hplace
  rw [hplace]
  dsimp only
  cases patternForm n.kind with
  | name => rfl
  | role role =>
    dsimp only
    rw [← Place.map_node_toList_child? ⟨n, steps⟩, List.map_flatMap, List.flatMap_map]
    exact List.flatMap_congr fun p _ => Place.map_node_boundNames p.node p.steps
  | parts =>
    dsimp only
    rw [← Place.map_node_constructs ⟨n, steps⟩, List.map_flatMap, List.flatMap_map]
    exact List.flatMap_congr fun p _ => Place.map_node_boundNames p.node p.steps
  | none => rfl

/-- A pattern binds the same names without comments. -/
theorem boundNames_bare (n : Node) (h : n.Everywhere CommentsAside) (steps steps' : List Step) :
    (n.bare.boundNames steps').map (·.node) =
      ((n.boundNames steps).map (·.node)).map Node.bare := by
  induction n using Node.induction generalizing steps steps' with
  | h n ih =>
    rw [map_node_boundNames_eq, map_node_boundNames_eq, Node.bare_toNodeInfo]
    cases patternForm n.kind with
    | name => rfl
    | role role =>
      dsimp only
      rw [Node.child?_bare h.plain]
      cases hc : n.child? role with
      | none => rfl
      | some c =>
        have hmem : c ∈ n.children := List.mem_of_find?_eq_some hc
        simpa using ih c hmem (h.child? hc) [] []
    | parts =>
      dsimp only
      rw [Node.namedChildren_bare, List.map_flatMap]
      apply flatMap_bareBelow
      · intro c hc _
        exact ih c (List.mem_of_mem_filter hc) (h.of_mem_namedChildren hc) [] []
      · intro c _ hcomment
        have hkind : patternForm c.kind = .none := by
          rw [beq_iff_eq.mp hcomment]
          rfl
        rw [map_node_boundNames_eq, hkind]
        rfl
    | none => rfl

namespace Binder

mutual

theorem importedNames_bare : ∀ (n : Node), n.Everywhere CommentsAside →
    ∀ steps steps', (importedNames steps' n.bare).map (·.node) =
      ((importedNames steps n).map (·.node)).map Node.bare
  | ⟨info, children⟩, h, steps, steps' => by
    have hchild := Node.child?_bare h.plain
    simp only [Node.bare] at hchild ⊢
    unfold importedNames
    simp only [hchild, ← Option.map_or]
    split_ifs
    · cases (Node.child? ⟨info, children⟩ "alias").or (Node.child? ⟨info, children⟩ "name") with
      | none => rfl
      | some name => by_cases hname : name.kind = "identifier" <;> simp [hname]
    · rfl
    · rfl
    · exact importedNamesBelow_bare children h.2 _ _ _ _ _ _

theorem importedNamesBelow_bare : ∀ (cs : List Node), EverywhereBelow CommentsAside cs →
    ∀ steps steps' parent parent' index index',
      (importedNamesBelow steps' parent' index' (bareBelow cs)).map (·.node) =
        ((importedNamesBelow steps parent index cs).map (·.node)).map Node.bare
  | [], _, _, _, _, _, _, _ => rfl
  | c :: cs, h, steps, steps', parent, parent', index, index' => by
    have hrest := importedNamesBelow_bare cs h.2 steps steps' parent parent' (index + 1)
    cases hc : c.isComment with
    | true =>
      have hnone : ∀ steps, importedNames steps c = [] := by
        obtain ⟨info, rfl, hkind, _⟩ := h.1.self.1.exists_leaf hc
        intro steps
        simp [importedNames, importedNamesBelow, hkind]
      simp [bareBelow, hc, importedNamesBelow, hnone, hrest]
    | false =>
      have hhead := importedNames_bare c h.1 (⟨parent, index⟩ :: steps)
        (⟨parent', index'⟩ :: steps')
      cases hnamed : c.isNamed <;> simp [bareBelow, hc, importedNamesBelow, hnamed, hrest, hhead]

end

mutual

theorem firstIdentifier?_bare : ∀ (n : Node), n.leadsToComment = false →
    firstIdentifier? n.bare = (firstIdentifier? n).map Node.bare
  | ⟨info, children⟩, h => by
    simp only [Node.bare]
    unfold firstIdentifier?
    by_cases hkind : info.kind = "identifier"
    · rw [if_pos hkind, if_pos hkind]
      rfl
    · rw [if_neg hkind, if_neg hkind]
      apply firstIdentifierBelow?_bare
      simpa [Node.leadsToComment, hkind] using h

theorem firstIdentifierBelow?_bare : ∀ (cs : List Node), leadsToCommentBelow cs = false →
    firstIdentifierBelow? (bareBelow cs) = (firstIdentifierBelow? cs).map Node.bare
  | [], _ => rfl
  | c :: cs, h => by
    cases hnamed : c.isNamed with
    | true =>
      simp only [leadsToCommentBelow, hnamed, if_true, Bool.or_eq_false_iff] at h
      simp [bareBelow, firstIdentifierBelow?, hnamed, h.1, firstIdentifier?_bare c h.2]
    | false =>
      simp only [leadsToCommentBelow, hnamed, Bool.false_eq_true, if_false] at h
      have hrest := firstIdentifierBelow?_bare cs h
      cases hc : c.isComment <;> simp [bareBelow, firstIdentifierBelow?, hnamed, hc, hrest]

end

/-! ### Declaring -/

@[simp] theorem declarationOf_bare (source : List Char) (scope : ScopeId) (n : Node)
    (kind : DeclarationKind) (type : TypeSource) :
    declarationOf source scope n.bare kind type = declarationOf source scope n kind type := by
  simp [declarationOf]

/-- Only the nodes of names count for what is declared. -/
theorem declareAll_bare (kind : DeclarationKind) (type : TypeSource) (b : Bindings)
    {names names' : List Place}
    (h : names'.map (·.node) = (names.map (·.node)).map Node.bare) :
    declareAll source scope kind type b names' = declareAll source scope kind type b names := by
  have hnodes : ∀ names : List Place, declareAll source scope kind type b names =
      (names.map (·.node)).foldl
        (fun b n => b.declare (declarationOf source scope n kind type)) b := by
    intro names
    rw [List.foldl_map]
    rfl
  rw [hnodes, hnodes, h, List.foldl_map]
  simp only [declarationOf_bare]

theorem statedType_bare (h : n.Everywhere CommentsAside) :
    statedType source n.bare = statedType source n := by
  unfold statedType
  rw [Node.child?_bare h.plain, Node.child?_bare h.plain]
  cases htype : n.child? "type" with
  | some stated => simp [Node.annotationText_bare (h.child? htype).self.2]
  | none => cases n.child? "value" <;> simp

theorem declarePattern_bare (h : n.Everywhere CommentsAside) (kind : DeclarationKind)
    (type : TypeSource) (b : Bindings) :
    declarePattern source scope kind type b n.bare = declarePattern source scope kind type b n := by
  unfold declarePattern
  rw [Node.bare_toNodeInfo]
  exact declareAll_bare _ _ b (boundNames_bare n h [] [])

theorem memberOf?_bare (h : n.Everywhere CommentsAside) :
    memberOf? source n.bare = memberOf? source n := by
  unfold memberOf?
  rw [Node.child?_bare h.plain, statedType_bare h]
  cases n.child? "name" <;> simp

/-- A comment has no name. -/
theorem child?_of_comment (h : c.PlainIfComment) (hc : c.isComment = true) (role : String) :
    c.child? role = none := by
  rw [Node.child?, (h hc).1, List.find?_nil]

theorem membersOf_bare (h : n.Everywhere CommentsAside) :
    membersOf source n.bare = membersOf source n := by
  unfold membersOf
  rw [Node.child?_bare h.plain]
  cases hbody : n.child? "body" with
  | none => rfl
  | some body =>
    have hplain := h.child? hbody
    simp only [Option.map_some, Node.namedChildren_bare, List.filterMap_eq_flatMap_toList]
    apply flatMap_bareBelow
    · intro item hitem _
      rw [memberOf?_bare (hplain.of_mem_namedChildren hitem)]
    · intro item hitem hcomment
      have hitem := (hplain.of_mem_namedChildren hitem).self.1
      rw [memberOf?, child?_of_comment hitem hcomment]
      rfl

theorem declareTypeParameters_bare (h : n.Everywhere CommentsAside) (b : Bindings) :
    declareTypeParameters source scope b n.bare = declareTypeParameters source scope b n := by
  unfold declareTypeParameters
  rw [Node.child?_bare h.plain]
  cases hparameters : n.child? "type_parameters" with
  | none => rfl
  | some parameters =>
    have hplain := h.child? hparameters
    have hnames : (parameters.bare.namedChildren.filterMap (·.child? "name")) =
        (parameters.namedChildren.filterMap (·.child? "name")).map Node.bare := by
      rw [Node.namedChildren_bare, List.map_filterMap]
      simp only [List.filterMap_eq_flatMap_toList]
      apply flatMap_bareBelow
      · intro c hc _
        rw [Node.child?_bare (hplain.of_mem_namedChildren hc).plain]
      · intro c hc hcomment
        rw [child?_of_comment (hplain.of_mem_namedChildren hc).self.1 hcomment]
        rfl
    simp only [Option.map_some, hnames, List.foldl_map, declarationOf_bare, Node.text_bare]

theorem declareParameter_bare (h : n.Everywhere CommentsAside) (b : Bindings) :
    declareParameter source scope b n.bare = declareParameter source scope b n := by
  unfold declareParameter
  rw [Node.bare_toNodeInfo, Node.child?_bare h.plain, statedType_bare h]
  cases hpattern : n.child? "pattern" with
  | none => rfl
  | some pattern => simp only [Option.map_some, declarePattern_bare (h.child? hpattern)]

theorem declareVariables_bare (h : n.Everywhere CommentsAside) (b : Bindings) :
    declareVariables source scope b n.bare = declareVariables source scope b n := by
  have hdeclarators : n.bare.namedChildren.filter (·.kind == "variable_declarator") =
      bareBelow (n.namedChildren.filter (·.kind == "variable_declarator")) := by
    rw [Node.namedChildren_bare]
    apply filter_bareBelow
    simp
  have hdeclarator : ∀ d ∈ n.namedChildren.filter (·.kind == "variable_declarator"),
      d.Everywhere CommentsAside := fun d hd =>
    h.of_mem_namedChildren (List.mem_of_mem_filter hd)
  unfold declareVariables
  rw [hdeclarators, Node.bare_toNodeInfo, Node.child?_bare h.plain]
  extract_lets kind target kind' target'
  have hkind : kind' = kind := by
    unfold kind' kind
    cases n.child? "kind" <;> simp
  have htarget : target' = target := by
    unfold target' target
    rw [hkind]
  rw [hkind, htarget]
  apply foldl_bareBelow
  · intro d hd _ b
    rw [Node.child?_bare (hdeclarator d hd).plain, statedType_bare (hdeclarator d hd)]
    cases hname : d.child? "name" with
    | none => rfl
    | some name => exact declarePattern_bare ((hdeclarator d hd).child? hname) _ _ b
  · intro d hd hcomment b
    rw [child?_of_comment (hdeclarator d hd).self.1 hcomment]

theorem declareLoopVariables_bare (h : n.Everywhere CommentsAside) (b : Bindings) :
    declareLoopVariables source scope b n.bare = declareLoopVariables source scope b n := by
  unfold declareLoopVariables
  rw [Node.child?_bare h.plain, Node.child?_bare h.plain, Node.child?_bare h.plain]
  cases n.child? "kind" with
  | none => rfl
  | some keyword =>
    cases hleft : n.child? "left" with
    | none => rfl
    | some left =>
      have hkeyword : variableKind (some keyword.bare) = variableKind (some keyword) := by
        simp [variableKind]
      have hoperator : ((n.child? "operator").map Node.bare).any (·.kind == "in") =
          (n.child? "operator").any (·.kind == "in") := by
        cases n.child? "operator" <;> simp
      simp only [Option.map_some, hkeyword, hoperator]
      exact declareAll_bare _ _ b (boundNames_bare left (h.child? hleft) [] [])

theorem declareCaught_bare (h : n.Everywhere CommentsAside) (b : Bindings) :
    declareCaught source scope b n.bare = declareCaught source scope b n := by
  unfold declareCaught
  rw [Node.child?_bare h.plain, Node.child?_bare h.plain]
  cases hparameter : n.child? "parameter" with
  | none => rfl
  | some parameter =>
    have hnames := boundNames_bare parameter (h.child? hparameter) [] []
    cases htype : n.child? "type" with
    | none => exact declareAll_bare _ _ b hnames
    | some stated =>
      simp only [Option.map_some, Node.annotationText_bare (h.child? htype).self.2]
      exact declareAll_bare _ _ b hnames

theorem declareNamed_bare (h : n.Everywhere CommentsAside) (b : Bindings)
    {declaration declaration' : Node → Declaration}
    (hsame : ∀ name : Node, declaration' name.bare = declaration name) :
    declareNamed b n.bare declaration' = declareNamed b n declaration := by
  unfold declareNamed
  rw [Node.child?_bare h.plain]
  cases n.child? "name" <;> simp [hsame]

/-- A comment among parameters declares nothing. -/
theorem declareParameters_bare (h : n.Everywhere CommentsAside) (b : Bindings) :
    n.bare.namedChildren.foldl (declareParameter source scope) b =
      n.namedChildren.foldl (declareParameter source scope) b := by
  rw [Node.namedChildren_bare]
  apply foldl_bareBelow
  · intro c hc _ b
    exact declareParameter_bare (h.of_mem_namedChildren hc) b
  · intro c _ hcomment b
    have hkind : isParameterKind c.kind = false := by
      rw [beq_iff_eq.mp hcomment]
      rfl
    simp [declareParameter, hkind]

theorem declareHead_bare (h : n.Everywhere CommentsAside) (b : Bindings) :
    declareHead source scope b n.bare = declareHead source scope b n := by
  have hname : ∀ b : Bindings,
      (declareNamed b n.bare fun name =>
        declarationOf source scope name .function (.callable (NodeRef.of n))) =
      declareNamed b n fun name =>
        declarationOf source scope name .function (.callable (NodeRef.of n)) :=
    fun b => declareNamed_bare h b fun name => declarationOf_bare source scope name _ _
  unfold declareHead
  simp only [Node.bare_toNodeInfo, NodeRef.of_bare, hname, declareTypeParameters_bare h,
    Node.child?_bare h.plain]
  cases hparameters : n.child? "parameters" with
  | none => cases n.child? "parameter" <;> simp
  | some parameters =>
    have hplain := h.child? hparameters
    cases n.child? "parameter" <;> simp [declareParameters_bare hplain]

theorem declareClass_bare (h : n.Everywhere CommentsAside) (b : Bindings) :
    declareClass source scope b n.bare = declareClass source scope b n := by
  unfold declareClass
  apply declareNamed_bare h
  intro name
  simp [membersOf_bare h]

/-! ### The walk -/

@[simp] theorem openFor_bare (b : Bindings) (kind : ScopeKind) (around : ScopeId) (n : Node) :
    openFor b kind around n.bare = openFor b kind around n := by
  simp [openFor]

theorem enterFunction_bare (h : n.Everywhere CommentsAside) (b : Bindings) :
    enterFunction source scope b n.bare = enterFunction source scope b n := by
  simp only [enterFunction, openFor_bare, declareHead_bare h]

/-- The first part of a dotted name is the same without comments. -/
theorem namespaceName_bare (h : n.Everywhere CommentsAside) (hkind : n.kind ∈ dottedTakers) :
    ((n.bare.child? "name").bind fun name =>
      if name.kind = "identifier" ∨ name.kind = "nested_identifier" then firstIdentifier? name
      else none) =
      ((n.child? "name").bind fun name =>
        if name.kind = "identifier" ∨ name.kind = "nested_identifier" then firstIdentifier? name
        else none).map Node.bare := by
  rw [Node.child?_bare h.plain]
  cases hname : n.child? "name" with
  | none => rfl
  | some name =>
    simp only [Option.map_some, Option.bind_some, Node.bare_toNodeInfo]
    split
    · rename_i hdotted
      apply firstIdentifier?_bare
      rcases hdotted with hidentifier | hdotted
      · obtain ⟨info, children⟩ := name
        have hkind : info.kind = "identifier" := hidentifier
        simp [Node.leadsToComment, hkind]
      · exact Node.leadsToComment_of_dotted hkind h.self.2 hname hdotted
    · rfl

theorem mem_dottedTakers_of_form {kind : String} {as : DeclarationKind}
    (h : form kind = .namespace as) : kind ∈ dottedTakers := by
  revert h
  unfold form
  repeat'
    refine iteInduction (motive := fun f => f = Form.namespace as → kind ∈ dottedTakers)
      (fun hkind => ?_) fun _ => ?_
  all_goals simp_all [dottedTakers]

/-- Entering a node does the same without comments, below a parent of the same kind. -/
theorem enter_bare (h : n.Everywhere CommentsAside) {steps steps' : List Step}
    (hparent : steps'.head?.map (·.parent.kind) = steps.head?.map (·.parent.kind))
    (scope : ScopeId) (b : Bindings) :
    enter source ⟨n.bare, steps'⟩ scope b = enter source ⟨n, steps⟩ scope b := by
  unfold enter
  simp only [Node.bare_toNodeInfo, openFor_bare]
  have hdotted := @mem_dottedTakers_of_form n.kind
  generalize form n.kind = f at hdotted
  cases f with
  | «variables» => simp only [declareVariables_bare h]
  | function kind =>
    have hbody : (n.bare.child? "body").isSome = (n.child? "body").isSome := by
      rw [Node.child?_bare h.plain, Option.isSome_map]
    have htypes : (n.bare.child? "type_parameters").isSome =
        (n.child? "type_parameters").isSome := by
      rw [Node.child?_bare h.plain, Option.isSome_map]
    simp only [hbody, htypes, NodeRef.of_bare, enterFunction_bare h]
    rw [declareNamed_bare h b fun name => by rw [declarationOf_bare]]
  | anonymousFunction => exact enterFunction_bare h b
  | classDeclaration => simp only [declareClass_bare h, declareTypeParameters_bare h]
  | classExpression => simp only [declareClass_bare h, declareTypeParameters_bare h]
  | interface =>
    simp only [membersOf_bare h, declareTypeParameters_bare h]
    rw [declareNamed_bare h b fun name => by rw [declarationOf_bare, Node.text_bare]]
  | typeAlias =>
    dsimp only
    rw [Node.child?_bare h.plain]
    cases n.child? "value" with
    | none =>
      simp only [Option.map_none, declareTypeParameters_bare h]
      rw [declareNamed_bare h b fun name => by rw [declarationOf_bare]]
    | some value =>
      simp only [Option.map_some, Node.plainText_bare, declareTypeParameters_bare h]
      rw [declareNamed_bare h b fun name => by rw [declarationOf_bare]]
  | «enum» =>
    dsimp only
    rw [declareNamed_bare h b fun name => by rw [declarationOf_bare, Node.text_bare]]
  | «namespace» kind =>
    simp only [namespaceName_bare h (hdotted rfl)]
    cases (n.child? "name").bind fun name =>
        if name.kind = "identifier" ∨ name.kind = "nested_identifier" then firstIdentifier? name
        else none with
    | none => rfl
    | some name => simp
  | «imports» =>
    dsimp only
    rw [declareAll_bare _ _ b (importedNames_bare n h [] [])]
  | block =>
    -- only the kind of the parent counts
    have hshares : ∀ (n : Node) (steps : List Step), (Place.mk n steps).ancestors.head?.any
          (fun p => isFunctionKind p.kind || p.kind == "catch_clause") =
        (steps.head?.map (·.parent.kind)).any
          fun kind => isFunctionKind kind || kind == "catch_clause" := by
      intro n steps
      cases steps <;> rfl
    simp only [hshares, hparent]
  | header => rfl
  | forIn => simp only [declareLoopVariables_bare h]
  | «catch» => simp only [declareCaught_bare h]
  | other => rfl

/-- Walking over a comment does nothing. -/
theorem walk_comment (hplain : c.PlainIfComment) (hc : c.isComment = true) (steps : List Step)
    (scope : ScopeId) (b : Bindings) : walk source steps scope b c = b := by
  obtain ⟨info, rfl, hkind, _⟩ := hplain.exists_leaf hc
  have hform : form info.kind = .other := by
    rw [hkind]
    rfl
  simp [walk, enter, hform, walkBelow]

mutual

theorem walk_bare : ∀ (n : Node), n.Everywhere CommentsAside →
    ∀ {steps steps' : List Step},
      steps'.head?.map (·.parent.kind) = steps.head?.map (·.parent.kind) →
      ∀ (scope : ScopeId) (b : Bindings),
        walk source steps' scope b n.bare = walk source steps scope b n
  | ⟨info, children⟩, h, steps, steps', hparent, scope, b => by
    have henter : enter source ⟨Node.bare ⟨info, children⟩, steps'⟩ scope b =
        enter source ⟨⟨info, children⟩, steps⟩ scope b := enter_bare h hparent scope b
    simp only [Node.bare] at henter ⊢
    unfold walk
    dsimp only
    rw [henter]
    split
    · refine walkBelow_bare children h.2 ?_ _ _ _
      rfl
    · rfl

theorem walkBelow_bare : ∀ (cs : List Node), EverywhereBelow CommentsAside cs →
    ∀ {steps steps' : List Step} {parent parent' : Node} {index index' : Nat},
      parent'.kind = parent.kind → ∀ (scope : ScopeId) (skipsName : Bool) (b : Bindings),
        walkBelow source steps' parent' index' scope skipsName b (bareBelow cs) =
          walkBelow source steps parent index scope skipsName b cs
  | [], _, _, _, _, _, _, _, _, _, _, _ => rfl
  | c :: cs, h, steps, steps', parent, parent', index, index', hparent, scope, skipsName, b => by
    have hrest : ∀ index index' skipsName b,
        walkBelow source steps' parent' index' scope skipsName b (bareBelow cs) =
          walkBelow source steps parent index scope skipsName b cs :=
      fun _ _ => walkBelow_bare cs h.2 hparent scope
    cases hc : c.isComment with
    | true =>
      have hplain := h.1.self.1
      have hname : (c.field == some "name") = false := by simp [(hplain hc).2.1]
      simp only [bareBelow, hc, if_true, walkBelow, walk_comment hplain hc, hname, Bool.and_false,
        Bool.not_false, Bool.and_true, ite_self]
      exact hrest _ _ _ _
    | false =>
      have hwalk : walk source (⟨parent', index'⟩ :: steps') scope b c.bare =
          walk source (⟨parent, index⟩ :: steps) scope b c :=
        walk_bare c h.1 (by simp [hparent]) scope b
      simp only [bareBelow, hc, Bool.false_eq_true, if_false, walkBelow, Node.bare_toNodeInfo,
        hwalk]
      exact hrest _ _ _ _

end

/-- A tree has the same bindings without its comments, if none is taken for a construct. -/
theorem bind_bare {root : Node} (h : root.Everywhere CommentsAside) (source : List Char) :
    bind root.bare source = bind root source := by
  unfold bind
  rw [Node.range_bare, Node.bare_children]
  exact walkBelow_bare root.children h.below (by rw [Node.bare_toNodeInfo]) 0 false _

end Binder

end UtsInsight
