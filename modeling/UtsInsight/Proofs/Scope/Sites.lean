import UtsInsight.Proofs.Scope.Declared
import UtsInsight.Syntax.Grammar

/-!
# Where names stand

A name stands below the place at which it is declared. On the way from the place down to the name a
pattern leads through nothing that means anything for scopes, so the scopes around the name are
those around the place. For the other names the same needs what the grammar says about the
constructs that hold names, since a tree comes from outside.
-/
namespace UtsInsight

mutual

/-- Whether a dotted name consists of constructs that mean nothing for scopes, down to its first
identifier. -/
def Node.isDotted : Node → Bool
  | ⟨info, children⟩ =>
    info.kind == "identifier" || (Binder.form info.kind == .other && isDottedBelow children)

def isDottedBelow : List Node → Bool
  | [] => true
  | c :: cs => if c.isNamed then c.isDotted else isDottedBelow cs

end

/-- The names of a construct stand in constructs that mean nothing for scopes themselves. The
grammar of the language says so: type parameters and parameters are listed by constructs made for
that, and a name with dots begins with another or with an identifier. -/
def Node.HoldsNames (n : Node) : Prop :=
  (∀ t ∈ n.child? "type_parameters", Binder.form t.kind = .other ∧
    ∀ c ∈ t.namedChildren, (c.child? "name").isSome → Binder.form c.kind = .other) ∧
  (∀ t ∈ n.child? "parameters", Binder.form t.kind = .other) ∧
  ∀ q ∈ n.child? "name", q.kind = "nested_identifier" → q.isDotted

instance (n : Node) : Decidable n.HoldsNames :=
  inferInstanceAs (Decidable (_ ∧ _ ∧ _))

mutual

theorem Node.isDotted_of_isDottedName : ∀ {n : Node}, n.isDottedName = true → n.isDotted = true
  | ⟨info, children⟩, h => by
    rw [Node.isDottedName, Bool.or_eq_true, Bool.and_eq_true, Bool.or_eq_true] at h
    rw [Node.isDotted, Bool.or_eq_true, Bool.and_eq_true]
    refine h.imp_right fun ⟨hkind, hbelow⟩ => ⟨?_, isDottedBelow_of_isDottedNameBelow hbelow⟩
    rcases hkind with hkind | hkind
    · rw [beq_iff_eq.mp hkind]
      rfl
    · rw [beq_iff_eq.mp hkind]
      rfl

theorem isDottedBelow_of_isDottedNameBelow :
    ∀ {cs : List Node}, isDottedNameBelow cs = true → isDottedBelow cs = true
  | [], _ => rfl
  | c :: cs, h => by
    rw [isDottedNameBelow] at h
    rw [isDottedBelow]
    split
    next hnamed =>
      rw [if_pos hnamed] at h
      exact Node.isDotted_of_isDottedName h
    next hnamed =>
      rw [if_neg hnamed] at h
      exact isDottedBelow_of_isDottedNameBelow h

end

/-- Names in a tree of the grammar stand where they mean nothing else. -/
theorem Node.holdsNames_of_grammatical {n : Node} (h : n.Everywhere Grammatical) :
    n.HoldsNames := by
  refine ⟨fun t ht => ?_, fun t ht => ?_, fun q hq hkind => ?_⟩
  · have hlist := h.self.typeParameters t ht
    refine ⟨by rw [hlist]; rfl, fun c hc hname => ?_⟩
    rcases (h.of_child ht).self.typeParameter hlist c hc hname with hkind | hkind
    · rw [hkind]
      rfl
    · rw [hkind]
      rfl
  · rw [h.self.parameters t ht]
    rfl
  · exact isDotted_of_isDottedName ((h.of_child hq).self.dottedName hkind)

theorem SyntaxTree.holdsNames (tree : SyntaxTree) : tree.root.Everywhere Node.HoldsNames :=
  tree.grammatical.imp fun _ => Node.holdsNames_of_grammatical

def bindingKinds : List String :=
  "identifier" :: "shorthand_property_identifier_pattern" :: patternKinds

theorem mem_bindingKinds {kind : String} (h : patternForm kind ≠ .none) : kind ∈ bindingKinds := by
  by_contra hmem
  simp only [bindingKinds, patternKinds, List.mem_cons, List.not_mem_nil, or_false, not_or] at hmem
  refine h ?_
  simp only [patternForm, isPatternKind, patternKinds, List.contains_cons, List.contains_nil,
    beq_iff_eq, hmem, Bool.or_false, Bool.or_eq_true, or_self, if_false]

/-- What takes part in a pattern means nothing for scopes. -/
theorem form_of_patternForm {kind : String} (h : patternForm kind ≠ .none) :
    Binder.form kind = .other := by
  have hforms : ∀ k ∈ bindingKinds, Binder.form k = .other := by decide
  exact hforms kind (mem_bindingKinds h)

namespace Place

/-- The names of a pattern are found by going down through parts of patterns. -/
theorem found_boundNames (p : Place) :
    Found (fun n => Binder.form n.kind = .other) p p.boundNames := by
  induction p using Place.induction with
  | h p ih =>
    rw [boundNames_eq]
    have hform := @form_of_patternForm p.node.kind
    generalize patternForm p.node.kind = f at hform ⊢
    cases f with
    | name => exact .here
    | role role =>
      exact .onward (hform nofun) (p.toList_child?_sublist role) fun q hq =>
        ih q (mem_children_of_child? (Option.mem_toList.mp hq))
    | parts =>
      exact .onward (hform nofun) p.constructs_sublist fun q hq =>
        ih q (mem_children_of_mem_constructs hq)
    | none => exact .nothing

theorem patternForm_of_mem_boundNames {p q : Place} (hq : q ∈ p.boundNames) :
    patternForm q.node.kind = .name := by
  induction p using Place.induction with
  | h p ih =>
    rw [boundNames_eq] at hq
    cases hpattern : patternForm p.node.kind with
    | name =>
      rw [hpattern] at hq
      rw [List.mem_singleton.mp hq, hpattern]
    | role role =>
      rw [hpattern] at hq
      obtain ⟨c, hc, hq⟩ := List.mem_flatMap.mp hq
      exact ih c (mem_children_of_child? (Option.mem_toList.mp hc)) hq
    | parts =>
      rw [hpattern] at hq
      obtain ⟨c, hc, hq⟩ := List.mem_flatMap.mp hq
      exact ih c (mem_children_of_mem_constructs hc) hq
    | none =>
      rw [hpattern] at hq
      exact absurd hq List.not_mem_nil

theorem node_mem_child? {p q : Place} {role : String} (h : p.child? role = some q) :
    q.node ∈ p.node.child? role := by
  rw [← map_node_child?, h]
  rfl

end Place

namespace Binder

theorem mem_namingsOf {kind : DeclarationKind} {home : List Nat} {places : List Place}
    {n : Naming} : n ∈ namingsOf kind home places ↔
      n.place ∈ places ∧ n.kind = kind ∧ n.home = home := by
  unfold namingsOf
  rw [List.mem_map]
  constructor
  · rintro ⟨p, hp, rfl⟩
    exact ⟨hp, rfl, rfl⟩
  · rintro ⟨hp, rfl, rfl⟩
    exact ⟨n.place, hp, rfl⟩

/-! ### Variables -/

theorem found_variableNames (p : Place) :
    Place.FoundBelow (fun n => form n.kind = .other) p (variableNames p) := by
  refine .children (List.filter_sublist.trans p.constructs_sublist) fun d hd => ?_
  have hkind : d.node.kind = "variable_declarator" := beq_iff_eq.mp (List.mem_filter.mp hd).2
  refine .onward ?_ (d.toList_child?_sublist "name") fun q _ => q.found_boundNames
  rw [hkind]
  rfl

theorem found_loopNames (p : Place) :
    Place.FoundBelow (fun n => form n.kind = .other) p (loopNames p) := by
  unfold loopNames
  split
  · exact .children (p.toList_child?_sublist "left") fun q _ => q.found_boundNames
  · exact .nothing

theorem form_of_mem_variableNames {p q : Place} (hq : q ∈ variableNames p ∨ q ∈ loopNames p) :
    form q.node.kind = .other := by
  have hname : ∃ c : Place, q ∈ c.boundNames := by
    rcases hq with hq | hq
    · obtain ⟨_, _, hq⟩ := List.mem_flatMap.mp hq
      obtain ⟨c, _, hq⟩ := List.mem_flatMap.mp hq
      exact ⟨c, hq⟩
    · unfold loopNames at hq
      split at hq
      · obtain ⟨c, _, hq⟩ := List.mem_flatMap.mp hq
        exact ⟨c, hq⟩
      · exact absurd hq List.not_mem_nil
  obtain ⟨c, hc⟩ := hname
  refine form_of_patternForm ?_
  rw [Place.patternForm_of_mem_boundNames hc]
  exact nofun

theorem ne_var_of_mem_headNames {p : Place} {n : Naming} (hn : n ∈ headNames p) :
    n.kind ≠ .var := by
  unfold headNames at hn
  simp only [List.mem_append, List.mem_ite_nil_right] at hn
  obtain ((⟨_, hn⟩ | hn) | hn) | hn := hn
  all_goals
    rw [(mem_namingsOf.mp hn).2.1]
    exact nofun

/-- A `var` is declared by a statement or by the head of a loop. -/
theorem var_of_mem_namesAt {p : Place} {n : Naming} (hn : n ∈ namesAt p) (hvar : n.kind = .var) :
    (form p.node.kind = .variables ∧ n.place ∈ variableNames p ∧ n.home = p.path.tail) ∨
      (form p.node.kind = .forIn ∧ n.place ∈ loopNames p ∧ n.home = p.path) := by
  have hnoVar := form_declaresNoVar p.node.kind
  unfold namesAt outerNames innerNames at hn
  generalize form p.node.kind = f at hn hnoVar ⊢
  have hkinds : ∀ {kind home places}, n ∈ namingsOf kind home places → kind = .var := by
    intro kind home places hn
    rw [← (mem_namingsOf.mp hn).2.1, hvar]
  rcases List.mem_append.mp hn with hn | hn
  · cases f with
    | «variables» =>
      obtain ⟨hplace, _, hhome⟩ := mem_namingsOf.mp hn
      exact .inl ⟨rfl, hplace, hhome⟩
    | function kind | «namespace» kind =>
      obtain rfl := hkinds hn
      exact absurd (by decide) hnoVar
    | classDeclaration | interface | typeAlias | «enum» | «imports» => cases hkinds hn
    | anonymousFunction | classExpression | block | header | forIn | «catch» | other =>
      exact absurd hn List.not_mem_nil
  · cases f with
    | forIn =>
      obtain ⟨hplace, _, hhome⟩ := mem_namingsOf.mp hn
      exact .inr ⟨rfl, hplace, hhome⟩
    | function | anonymousFunction => exact absurd hvar (ne_var_of_mem_headNames hn)
    | classExpression =>
      rcases List.mem_append.mp hn with hn | hn
      · cases hkinds hn
      · cases hkinds hn
    | classDeclaration | interface | typeAlias | «catch» => cases hkinds hn
    | «variables» | «enum» | «namespace» | «imports» | block | header | other =>
      exact absurd hn List.not_mem_nil

/-! ### Scopes around names -/

section

variable {root : Node} {p q : Place}

/-- Between two places that only what means nothing for scopes stands between, no scope is opened.
-/
theorem scopesAround_of_below (hp : Place.Below (.ofRoot root) p) (h : Place.Below p q)
    (hform : ∀ r, Place.Below p r → Place.Below r q → p ≠ r → form r.node.kind = .other) :
    scopesAround (scopeOwners root) q.path = scopesAround (scopeOwners root) p.path := by
  induction h with
  | refl => rfl
  | @child q i c h hc ih =>
    have hne : p ≠ ⟨c, ⟨q.node, i⟩ :: q.steps⟩ := fun heq =>
      h.path_ne_cons i (congrArg Place.path heq)
    have hopening : opening? ⟨c, ⟨q.node, i⟩ :: q.steps⟩ = none := by
      have hother := hform _ (h.child hc) .refl hne
      unfold opening?
      rw [hother]
    rw [scopesAround_tail ((hp.trans h).child hc) (List.cons_ne_nil _ _) hopening]
    exact ih fun r hpr hrq hne => hform r hpr (hrq.child hc) hne

/-- The scopes around a `var` are those around the path from which it is declared. -/
theorem var_scopesAround (hp : Place.Below (.ofRoot root) p) (hpath : p.path ≠ []) {n : Naming}
    (hn : n ∈ namesAt p) (hvar : n.kind = .var) :
    Place.Below p n.place ∧
      scopesAround (scopeOwners root) n.place.path = scopesAround (scopeOwners root) n.home := by
  have hway : ∀ {qs : List Place}, Place.FoundBelow (fun n => form n.kind = .other) p qs →
      n.place ∈ qs → form n.place.node.kind = .other → Place.Below p n.place ∧
      scopesAround (scopeOwners root) n.place.path = scopesAround (scopeOwners root) p.path := by
    intro qs hfound hmem hother
    have hbelow := (hfound.below hmem).1
    refine ⟨hbelow, scopesAround_of_below hp hbelow fun r hpr hrq hne => ?_⟩
    by_cases hlast : r = n.place
    · rw [hlast, hother]
    · exact hfound.between hmem hpr hrq hne hlast
  rcases var_of_mem_namesAt hn hvar with ⟨hform, hmem, hhome⟩ | ⟨hform, hmem, hhome⟩
  · have hopening : opening? p = none := by
      unfold opening?
      rw [hform]
    rw [hhome, ← scopesAround_tail hp hpath hopening]
    exact hway (found_variableNames p) hmem (form_of_mem_variableNames (.inl hmem))
  · rw [hhome]
    exact hway (found_loopNames p) hmem (form_of_mem_variableNames (.inr hmem))

end

section

variable {p q : Place}

/-! ### Names found from a place -/

theorem firstIdentifierPlace?_eq (p : Place) :
    firstIdentifierPlace? p.steps p.node =
      if p.node.kind = "identifier" then some p
      else p.constructs.head?.bind fun q => firstIdentifierPlace? q.steps q.node := by
  have hbelow : ∀ (steps : List Step) (parent : Node) (index : Nat) (cs : List Node),
      firstIdentifierPlaceBelow? steps parent index cs =
        ((placesFrom steps parent index cs).filter (·.node.isNamed)).head?.bind
          fun q => firstIdentifierPlace? q.steps q.node := by
    intro steps parent index cs
    induction cs generalizing index with
    | nil => rfl
    | cons c cs ih =>
      rw [firstIdentifierPlaceBelow?, ih, placesFrom, List.filter_cons]
      dsimp only
      split
      · rfl
      · rfl
  obtain ⟨⟨info, children⟩, steps⟩ := p
  rw [firstIdentifierPlace?, hbelow]
  rfl

theorem isDotted_eq (n : Node) :
    n.isDotted =
      (n.kind == "identifier" ||
        (form n.kind == .other && n.namedChildren.head?.all (·.isDotted))) := by
  have hbelow : ∀ cs : List Node,
      isDottedBelow cs = (cs.filter (·.isNamed)).head?.all (·.isDotted) := by
    intro cs
    induction cs with
    | nil => rfl
    | cons c cs ih =>
      rw [isDottedBelow, ih, List.filter_cons]
      split
      · rfl
      · rfl
  obtain ⟨info, children⟩ := n
  rw [Node.isDotted, hbelow]
  rfl

theorem found_firstIdentifierPlace? (h : p.node.isDotted) :
    Place.Found (fun n => form n.kind = .other) p
      (firstIdentifierPlace? p.steps p.node).toList := by
  induction p using Place.induction with
  | h p ih =>
    rw [firstIdentifierPlace?_eq]
    split
    next => exact .here
    next hkind =>
      rw [isDotted_eq, beq_false_of_ne hkind, Bool.false_or, Bool.and_eq_true, beq_iff_eq] at h
      obtain ⟨hform, hhead⟩ := h
      rw [← p.map_node_constructs, List.head?_map] at hhead
      cases hq : p.constructs.head? with
      | none => exact .nothing
      | some q =>
        have hmem := List.mem_of_head? hq
        have hchild := Place.mem_children_of_mem_constructs hmem
        rw [hq] at hhead
        exact .child hform hchild (ih q hchild hhead)

theorem found_typeParameters (h : p.node.HoldsNames) {t : Place}
    (ht : p.child? "type_parameters" = some t) :
    Place.Found (fun n => form n.kind = .other) t
      (t.constructs.flatMap fun c => (c.child? "name").toList) := by
  obtain ⟨hform, hnames⟩ := h.1 t.node (Place.node_mem_child? ht)
  refine .onward hform t.constructs_sublist fun c hc => .child? "name" fun hname => ?_
  refine hnames c.node ?_ ?_
  · rw [← t.map_node_constructs]
    exact List.mem_map_of_mem hc
  · rwa [← c.map_node_child?, Option.isSome_map]

theorem found_parameters (h : p.node.HoldsNames) {t : Place}
    (ht : p.child? "parameters" = some t) :
    Place.Found (fun n => form n.kind = .other) t (t.constructs.flatMap parameterNames) := by
  refine .onward (h.2.1 t.node (Place.node_mem_child? ht)) t.constructs_sublist fun c _ => ?_
  unfold parameterNames
  split
  next hkind =>
    refine .onward ?_ (c.toList_child?_sublist "pattern") fun q _ => q.found_boundNames
    unfold isParameterKind at hkind
    rw [Bool.or_eq_true, beq_iff_eq, beq_iff_eq] at hkind
    rcases hkind with hkind | hkind
    · rw [hkind]; rfl
    · rw [hkind]; rfl
  next => exact .nothing

theorem importedPlaces_eq (p : Place) :
    importedPlaces p.steps p.node =
      if p.node.kind = "import_specifier" then
        (((p.child? "alias").or (p.child? "name")).filter (·.node.kind == "identifier")).toList
      else if p.node.kind = "identifier" then [p]
      else if p.node.kind = "string" then []
      else p.constructs.flatMap fun q => importedPlaces q.steps q.node := by
  have hbelow : ∀ (steps : List Step) (parent : Node) (index : Nat) (cs : List Node),
      importedPlacesBelow steps parent index cs =
        ((placesFrom steps parent index cs).filter (·.node.isNamed)).flatMap
          fun q => importedPlaces q.steps q.node := by
    intro steps parent index cs
    induction cs generalizing index with
    | nil => rfl
    | cons c cs ih =>
      rw [importedPlacesBelow, ih, placesFrom, List.filter_cons]
      dsimp only
      split
      · rw [List.flatMap_cons]
      · rw [List.nil_append]
  obtain ⟨⟨info, children⟩, steps⟩ := p
  rw [importedPlaces, hbelow]
  rfl

theorem found_importedPlaces (p : Place) :
    Place.Found (fun _ => True) p (importedPlaces p.steps p.node) := by
  induction p using Place.induction with
  | h p ih =>
    rw [importedPlaces_eq]
    split
    · cases hname : ((p.child? "alias").or (p.child? "name")).filter
          (·.node.kind == "identifier") with
      | none => exact .nothing
      | some q =>
        refine .child trivial ?_ .here
        rcases Option.or_eq_some_iff.mp (Option.filter_eq_some_iff.mp hname).1 with h | ⟨_, h⟩
        · exact Place.mem_children_of_child? h
        · exact Place.mem_children_of_child? h
    split
    · exact .here
    split
    · exact .nothing
    · exact .onward trivial p.constructs_sublist fun q hq =>
        ih q (Place.mem_children_of_mem_constructs hq)

/-! ### Names declared at a place -/

theorem place_namingsOf (kind : DeclarationKind) (home : List Nat) (places : List Place) :
    (namingsOf kind home places).map (·.place) = places := by
  rw [namingsOf, List.map_map]
  exact List.map_id places

theorem kind_of_form_imports {kind : String} (h : form kind = .imports) :
    kind = "import_statement" := by
  revert h
  unfold form
  repeat'
    refine iteInduction (motive := fun f => f = Form.imports → kind = "import_statement")
      (fun hkind => ?_) fun _ => ?_
  all_goals first | exact fun _ => hkind | exact nofun

/-- A function that is declared under its name does not hold it in its own scope as well. -/
theorem kind_of_form_function {kind : String} {as : DeclarationKind}
    (h : form kind = .function as) :
    ["function_expression", "function", "generator_function"].contains kind = false := by
  have hkinds : kind = "function_declaration" ∨ kind = "generator_function_declaration" ∨
      kind = "function_signature" := by
    revert h
    unfold form
    repeat'
      refine iteInduction (motive := fun f => f = Form.function as →
        kind = "function_declaration" ∨ kind = "generator_function_declaration" ∨
          kind = "function_signature") (fun hkind => ?_) fun _ => ?_
    all_goals
      first
      | exact fun _ => hkind.imp_right .inl
      | exact fun _ => .inr (.inr hkind)
      | exact nofun
  rcases hkinds with rfl | rfl | rfl
  · rfl
  · rfl
  · rfl

/-- The roles in which names of a function stand, and what is found in each. -/
def functionRoles (isExpression : Bool) : List (String × (Place → List Place)) :=
  [("name", fun q => if isExpression then [q] else []),
    ("type_parameters", fun t => t.constructs.flatMap fun c => (c.child? "name").toList),
    ("parameter", fun q => [q]),
    ("parameters", fun t => t.constructs.flatMap parameterNames)]

/-- The roles in which names of a class, an interface or a type alias stand. -/
def typeRoles : List (String × (Place → List Place)) :=
  [("name", fun q => [q]),
    ("type_parameters", fun t => t.constructs.flatMap fun c => (c.child? "name").toList)]

theorem flatMap_functionRoles (p : Place) (isExpression : Bool) :
    (functionRoles isExpression).flatMap (fun part => (p.child? part.1).toList.flatMap part.2) =
      (if isExpression then (p.child? "name").toList else []) ++ (typeParameterNames p
        ++ ((p.child? "parameter").toList ++ parametersNames p)) := by
  have hname : ((p.child? "name").toList.flatMap fun q => if isExpression then [q] else []) =
      if isExpression then (p.child? "name").toList else [] := by
    split
    · exact List.flatMap_singleton' _
    · exact List.flatMap_eq_nil_iff.mpr fun _ _ => rfl
  simp only [functionRoles, List.flatMap_cons, List.flatMap_nil, List.append_nil, hname,
    List.flatMap_singleton', typeParameterNames, parametersNames]

theorem flatMap_typeRoles (p : Place) :
    typeRoles.flatMap (fun part => (p.child? part.1).toList.flatMap part.2) =
      (p.child? "name").toList ++ typeParameterNames p := by
  simp only [typeRoles, List.flatMap_cons, List.flatMap_nil, List.append_nil,
    List.flatMap_singleton', typeParameterNames]

theorem foundBelow_functionRoles (h : p.node.HoldsNames) (isExpression : Bool) :
    Place.FoundBelow (fun n => form n.kind = .other) p ((functionRoles isExpression).flatMap
      fun part => (p.child? part.1).toList.flatMap part.2) := by
  have hroles : (["name", "type_parameters", "parameter", "parameters"] : List String).Nodup := by
    decide
  refine .roles (functionRoles isExpression) hroles fun part hpart q hq => ?_
  simp only [functionRoles, List.mem_cons, List.not_mem_nil, or_false] at hpart
  obtain rfl | rfl | rfl | rfl := hpart
  · dsimp only
    split
    · exact .here
    · exact .nothing
  · exact found_typeParameters h hq
  · exact .here
  · exact found_parameters h hq

theorem foundBelow_typeRoles (h : p.node.HoldsNames) :
    Place.FoundBelow (fun n => form n.kind = .other) p
      ((p.child? "name").toList ++ typeParameterNames p) := by
  rw [← flatMap_typeRoles]
  refine .roles typeRoles (by decide) fun part hpart q hq => ?_
  simp only [typeRoles, List.mem_cons, List.not_mem_nil, or_false] at hpart
  obtain rfl | rfl := hpart
  · exact .here
  · exact found_typeParameters h hq

theorem place_headNames (p : Place) :
    (headNames p).map (·.place) =
      (functionRoles (["function_expression", "function", "generator_function"].contains
        p.node.kind)).flatMap fun part => (p.child? part.1).toList.flatMap part.2 := by
  rw [flatMap_functionRoles, headNames]
  simp only [List.map_append, place_namingsOf, List.append_assoc]
  congr 1
  split
  · exact place_namingsOf _ _ _
  · rfl

/-- The names that are declared at a place are found below it. If the walk goes on below the place,
it meets nothing on the way to a name that declares names itself. -/
theorem foundBelow_namesAt (h : p.node.HoldsNames) :
    Place.FoundBelow (fun n => (form p.node.kind).descends → form n.kind = .other) p
      ((namesAt p).map (·.place)) := by
  have hpassive : ∀ {qs}, Place.FoundBelow (fun n => form n.kind = .other) p qs →
      Place.FoundBelow (fun n => (form p.node.kind).descends → form n.kind = .other) p qs :=
    fun hfound => hfound.mono fun _ hn _ => hn
  have hname : Place.FoundBelow (fun n => form n.kind = .other) p (p.child? "name").toList := by
    rw [← List.flatMap_singleton' (p.child? "name").toList]
    exact .children (p.toList_child?_sublist "name") fun _ _ => .here
  have himports := @kind_of_form_imports p.node.kind
  have hfunction := @kind_of_form_function p.node.kind
  rw [namesAt, List.map_append]
  unfold outerNames innerNames
  generalize form p.node.kind = f at himports hfunction hpassive ⊢
  cases f with
  | «variables» =>
    rw [place_namingsOf, List.map_nil, List.append_nil]
    exact hpassive (found_variableNames p)
  | function kind =>
    have hhead := foundBelow_functionRoles h true
    simp only
    rw [place_namingsOf, place_headNames, flatMap_functionRoles, hfunction rfl]
    rw [flatMap_functionRoles] at hhead
    exact hpassive hhead
  | anonymousFunction =>
    simp only [List.map_nil, List.nil_append]
    rw [place_headNames]
    exact hpassive (foundBelow_functionRoles h _)
  | classDeclaration | interface | typeAlias =>
    rw [place_namingsOf, place_namingsOf]
    exact hpassive (foundBelow_typeRoles h)
  | classExpression =>
    simp only
    rw [List.map_nil, List.nil_append, List.map_append, place_namingsOf, place_namingsOf]
    exact hpassive (foundBelow_typeRoles h)
  | «enum» =>
    rw [place_namingsOf, List.map_nil, List.append_nil]
    exact hpassive hname
  | «namespace» kind =>
    rw [place_namingsOf, List.map_nil, List.append_nil]
    refine hpassive (.children (p.toList_child?_sublist "name") fun q hq => ?_)
    split
    next hkind =>
      refine found_firstIdentifierPlace? ?_
      rcases hkind with hkind | hkind
      · rw [isDotted_eq, hkind, beq_self_eq_true, Bool.true_or]
      · exact h.2.2 q.node (Place.node_mem_child? (Option.mem_toList.mp hq)) hkind
    next => exact .nothing
  | «imports» =>
    have hkind := himports rfl
    rw [place_namingsOf, List.map_nil, List.append_nil, importedPlaces_eq, hkind,
      if_neg (by decide), if_neg (by decide), if_neg (by decide)]
    refine .children p.constructs_sublist fun q _ => ?_
    exact (found_importedPlaces q).mono fun _ _ => nofun
  | forIn =>
    rw [place_namingsOf, List.map_nil, List.nil_append]
    exact hpassive (found_loopNames p)
  | «catch» =>
    rw [place_namingsOf, List.map_nil, List.nil_append]
    exact hpassive (.children (p.toList_child?_sublist "parameter") fun q _ => q.found_boundNames)
  | block | header | other => exact .nothing

/-! ### Names below places -/

theorem below_of_mem_child? {role : String} (hq : q ∈ (p.child? role).toList) : Place.Below p q :=
  Place.below_of_mem_children (Place.mem_children_of_child? (Option.mem_toList.mp hq))

theorem below_of_mem_constructs (hq : q ∈ p.constructs) : Place.Below p q :=
  Place.below_of_mem_children (Place.mem_children_of_mem_constructs hq)

theorem below_of_mem_typeParameterNames (hq : q ∈ typeParameterNames p) : Place.Below p q := by
  obtain ⟨t, ht, hq⟩ := List.mem_flatMap.mp hq
  obtain ⟨c, hc, hq⟩ := List.mem_flatMap.mp hq
  exact (below_of_mem_child? ht).trans
    ((below_of_mem_constructs hc).trans (below_of_mem_child? hq))

theorem below_of_mem_parametersNames (hq : q ∈ parametersNames p) : Place.Below p q := by
  obtain ⟨t, ht, hq⟩ := List.mem_flatMap.mp hq
  obtain ⟨c, hc, hq⟩ := List.mem_flatMap.mp hq
  refine (below_of_mem_child? ht).trans ((below_of_mem_constructs hc).trans ?_)
  unfold parameterNames at hq
  split at hq
  · obtain ⟨pattern, hpattern, hq⟩ := List.mem_flatMap.mp hq
    exact (below_of_mem_child? hpattern).trans (pattern.found_boundNames.atOrBelow q hq)
  · exact absurd hq List.not_mem_nil

theorem below_of_mem_firstIdentifierPlace? (hq : q ∈ firstIdentifierPlace? p.steps p.node) :
    Place.Below p q := by
  induction p using Place.induction with
  | h p ih =>
    rw [firstIdentifierPlace?_eq] at hq
    split at hq
    · exact Option.some.inj hq ▸ .refl
    · obtain ⟨c, hc, hq⟩ := Option.bind_eq_some_iff.mp hq
      have hchild := Place.mem_children_of_mem_constructs (List.mem_of_head? hc)
      exact (Place.below_of_mem_children hchild).trans (ih c hchild hq)

theorem below_of_mem_headNames {n : Naming} (hn : n ∈ headNames p) : Place.Below p n.place := by
  unfold headNames at hn
  simp only [List.mem_append, List.mem_ite_nil_right, mem_namingsOf] at hn
  rcases hn with ((⟨_, hn, _⟩ | ⟨hn, _⟩) | ⟨hn, _⟩) | ⟨hn, _⟩
  · exact below_of_mem_child? hn
  · exact below_of_mem_typeParameterNames hn
  · exact below_of_mem_child? hn
  · exact below_of_mem_parametersNames hn

/-- Whatever the grammar, a name stands at or below the place at which it is declared. -/
theorem below_of_mem_namesAt {n : Naming} (hn : n ∈ namesAt p) : Place.Below p n.place := by
  unfold namesAt outerNames innerNames at hn
  generalize form p.node.kind = f at hn
  rcases List.mem_append.mp hn with hn | hn
  · cases f with
    | «variables» => exact ((found_variableNames p).below (mem_namingsOf.mp hn).1).1
    | function | classDeclaration | interface | typeAlias | «enum» =>
      exact below_of_mem_child? (mem_namingsOf.mp hn).1
    | «namespace» =>
      obtain ⟨q, hq, hname⟩ := List.mem_flatMap.mp (mem_namingsOf.mp hn).1
      refine (below_of_mem_child? hq).trans ?_
      split at hname
      · exact below_of_mem_firstIdentifierPlace? (Option.mem_toList.mp hname)
      · exact absurd hname List.not_mem_nil
    | «imports» => exact (found_importedPlaces p).atOrBelow _ (mem_namingsOf.mp hn).1
    | anonymousFunction | classExpression | block | header | forIn | «catch» | other =>
      exact absurd hn List.not_mem_nil
  · cases f with
    | function | anonymousFunction => exact below_of_mem_headNames hn
    | classDeclaration | interface | typeAlias =>
      exact below_of_mem_typeParameterNames (mem_namingsOf.mp hn).1
    | classExpression =>
      rcases List.mem_append.mp hn with hn | hn
      · exact below_of_mem_child? (mem_namingsOf.mp hn).1
      · exact below_of_mem_typeParameterNames (mem_namingsOf.mp hn).1
    | forIn => exact ((found_loopNames p).below (mem_namingsOf.mp hn).1).1
    | «catch» =>
      obtain ⟨q, hq, hname⟩ := List.mem_flatMap.mp (mem_namingsOf.mp hn).1
      exact (below_of_mem_child? hq).trans (q.found_boundNames.atOrBelow _ hname)
    | «variables» | «enum» | «namespace» | «imports» | block | header | other =>
      exact absurd hn List.not_mem_nil

theorem at?_of_mem_declaredNames {root : Node} {n : Naming} (hn : n ∈ declaredNames root) :
    root.at? n.place.path = some n.place.node := by
  obtain ⟨p, hp, _, hmem⟩ := exists_site hn
  exact (hp.trans (below_of_mem_namesAt hmem)).at? rfl

end

end Binder

end UtsInsight
