import Mathlib.Data.List.Find
import Mathlib.Data.List.Forall2
import UtsInsight.Proofs.Scope.Owners
import UtsInsight.Proofs.Syntax.Children

/-!
# The names that the walk declares

Which names a document declares, as what and in which order can be read off the tree, without a
scope or a binding: entering a place declares some names below it in the scope in which the place
stands and others in the scope that is opened for it. The declarations of the bindings are these
names one by one. A `var` goes to the nearest scope that is not a block, every other name to the
innermost scope around the path from which it is declared.
-/
namespace UtsInsight

/-! ### Places of names -/

namespace Place

/-- The places of the names that a pattern binds. -/
def boundNames (p : Place) : List Place :=
  p.node.boundNames p.steps

theorem namesOfParts_eq (steps : List Step) (parent : Node) (index : Nat) (cs : List Node) :
    namesOfParts steps parent index cs =
      ((placesFrom steps parent index cs).filter (·.node.isNamed)).flatMap (·.boundNames) := by
  induction cs generalizing index with
  | nil => rfl
  | cons c cs ih =>
    rw [namesOfParts, ih, placesFrom, List.filter_cons]
    dsimp only
    split
    · rw [List.flatMap_cons]
      rfl
    · rw [List.nil_append]

theorem namesOfChild_eq (role : String) (steps : List Step) (parent : Node) (index : Nat)
    (cs : List Node) :
    namesOfChild role steps parent index cs =
      ((placesFrom steps parent index cs).find? (·.node.field == some role)).toList.flatMap
        (·.boundNames) := by
  induction cs generalizing index with
  | nil => rfl
  | cons c cs ih =>
    rw [namesOfChild, placesFrom, List.find?_cons]
    by_cases h : c.field = some role
    · rw [if_pos h, beq_iff_eq.mpr h]
      exact (List.append_nil _).symm
    · rw [if_neg h, beq_false_of_ne h, ih]

/-- A pattern is a name, or its names are those of its parts. -/
theorem boundNames_eq (p : Place) :
    p.boundNames =
      match patternForm p.node.kind with
      | .name => [p]
      | .role role => (p.child? role).toList.flatMap (·.boundNames)
      | .parts => p.constructs.flatMap (·.boundNames)
      | .none => [] := by
  obtain ⟨⟨info, children⟩, steps⟩ := p
  rw [boundNames, Node.boundNames]
  cases patternForm info.kind with
  | name => rfl
  | role role => exact namesOfChild_eq role steps _ 0 children
  | parts => exact namesOfParts_eq steps _ 0 children
  | none => rfl

/-- Where a pattern stands makes no difference to the nodes that it binds. -/
theorem map_node_boundNames (n : Node) :
    ∀ steps, (n.boundNames steps).map (·.node) = (n.boundNames []).map (·.node) := by
  induction n using Node.induction with
  | h n ih =>
    -- the names below some children are those of the children's nodes
    have hbelow : ∀ (ps : List Place), (∀ p ∈ ps, p.node ∈ n.children) →
        (ps.flatMap (·.boundNames)).map (·.node) =
          (ps.map (·.node)).flatMap fun c => (c.boundNames []).map (·.node) := by
      intro ps hps
      rw [List.map_flatMap, List.flatMap_map]
      exact List.flatMap_congr fun p hp => ih p.node (hps p hp) p.steps
    have hparts : ∀ steps, ((⟨n, steps⟩ : Place).constructs.flatMap (·.boundNames)).map (·.node) =
        n.namedChildren.flatMap fun c => (c.boundNames []).map (·.node) := by
      intro steps
      rw [hbelow _ fun p hp => node_mem_of_mem_children (mem_children_of_mem_constructs hp),
        map_node_constructs]
    have hrole : ∀ role steps,
        (((⟨n, steps⟩ : Place).child? role).toList.flatMap (·.boundNames)).map (·.node) =
          (n.child? role).toList.flatMap fun c => (c.boundNames []).map (·.node) := by
      intro role steps
      rw [hbelow _ fun p hp => node_mem_of_mem_children
        (mem_children_of_child? (Option.mem_toList.mp hp)), map_node_toList_child?]
    intro steps
    have hplace := boundNames_eq ⟨n, steps⟩
    have hroot := boundNames_eq ⟨n, []⟩
    rw [boundNames] at hplace hroot
    dsimp only at hplace hroot
    rw [hplace, hroot]
    cases patternForm n.kind with
    | name => rfl
    | role role => rw [hrole, hrole]
    | parts => rw [hparts, hparts]
    | none => rfl

end Place

namespace Binder

mutual

/-- The places of the local names that an import introduces, in source order. -/
def importedPlaces (steps : List Step) : Node → List Place
  | ⟨info, children⟩ =>
    let p : Place := ⟨⟨info, children⟩, steps⟩
    if info.kind = "import_specifier" then
      (((p.child? "alias").or (p.child? "name")).filter (·.node.kind == "identifier")).toList
    else if info.kind = "identifier" then [p]
    else if info.kind = "string" then []
    else importedPlacesBelow steps p.node 0 children

def importedPlacesBelow (steps : List Step) (parent : Node) (index : Nat) :
    List Node → List Place
  | [] => []
  | c :: cs =>
    (if c.isNamed then importedPlaces (⟨parent, index⟩ :: steps) c else [])
      ++ importedPlacesBelow steps parent (index + 1) cs

end

mutual

theorem map_node_importedPlaces : ∀ (n : Node) (steps steps' : List Step),
    (importedPlaces steps n).map (·.node) = (importedNames steps' n).map (·.node)
  | ⟨info, children⟩, steps, steps' => by
    unfold importedPlaces importedNames
    dsimp only
    split
    · rw [← Place.map_node_child? ⟨⟨info, children⟩, steps⟩,
        ← Place.map_node_child? ⟨⟨info, children⟩, steps⟩, ← Option.map_or]
      cases (Place.child? ⟨⟨info, children⟩, steps⟩ "alias").or
          (Place.child? ⟨⟨info, children⟩, steps⟩ "name") with
      | none => rfl
      | some p =>
        by_cases h : p.node.kind = "identifier"
        · rw [Option.filter_some, if_pos (beq_iff_eq.mpr h), Option.map_some]
          simp only [if_pos h]
          rfl
        · rw [Option.filter_some, if_neg (mt beq_iff_eq.mp h), Option.map_some]
          simp only [if_neg h]
          rfl
    · split
      · rfl
      · split
        · rfl
        · exact map_node_importedPlacesBelow children steps steps' _ _ 0 0

theorem map_node_importedPlacesBelow : ∀ (cs : List Node) (steps steps' : List Step)
    (parent parent' : Node) (index index' : Nat),
    (importedPlacesBelow steps parent index cs).map (·.node) =
      (importedNamesBelow steps' parent' index' cs).map (·.node)
  | [], _, _, _, _, _, _ => rfl
  | c :: cs, steps, steps', parent, parent', index, index' => by
    unfold importedPlacesBelow importedNamesBelow
    rw [List.map_append, List.map_append, map_node_importedPlacesBelow cs steps steps']
    congr 1
    split
    · exact map_node_importedPlaces c _ _
    · rfl

end

mutual

/-- The place of the first identifier of a dotted name. -/
def firstIdentifierPlace? (steps : List Step) : Node → Option Place
  | ⟨info, children⟩ =>
    if info.kind = "identifier" then some ⟨⟨info, children⟩, steps⟩
    else firstIdentifierPlaceBelow? steps ⟨info, children⟩ 0 children

def firstIdentifierPlaceBelow? (steps : List Step) (parent : Node) (index : Nat) :
    List Node → Option Place
  | [] => none
  | c :: cs =>
    if c.isNamed then firstIdentifierPlace? (⟨parent, index⟩ :: steps) c
    else firstIdentifierPlaceBelow? steps parent (index + 1) cs

end

mutual

theorem map_node_firstIdentifierPlace? : ∀ (n : Node) (steps : List Step),
    (firstIdentifierPlace? steps n).map (·.node) = firstIdentifier? n
  | ⟨info, children⟩, steps => by
    unfold firstIdentifierPlace? firstIdentifier?
    split
    · rfl
    · exact map_node_firstIdentifierPlaceBelow? children steps _ 0

theorem map_node_firstIdentifierPlaceBelow? : ∀ (cs : List Node) (steps : List Step)
    (parent : Node) (index : Nat),
    (firstIdentifierPlaceBelow? steps parent index cs).map (·.node) = firstIdentifierBelow? cs
  | [], _, _, _ => rfl
  | c :: cs, steps, parent, index => by
    unfold firstIdentifierPlaceBelow? firstIdentifierBelow?
    split
    · exact map_node_firstIdentifierPlace? c _
    · exact map_node_firstIdentifierPlaceBelow? cs steps parent (index + 1)

end

/-! ### Names declared at a place -/

/-- A name that the walk declares: as what, where it stands, and the path around which the scope of
the declaration is sought. -/
structure Naming where
  kind : DeclarationKind
  place : Place
  home : List Nat

/-- Names of one kind that are declared from one path. -/
def namingsOf (kind : DeclarationKind) (home : List Nat) (places : List Place) : List Naming :=
  places.map (⟨kind, ·, home⟩)

def typeParameterNames (p : Place) : List Place :=
  (p.child? "type_parameters").toList.flatMap fun t =>
    t.constructs.flatMap fun c => (c.child? "name").toList

def parameterNames (p : Place) : List Place :=
  if isParameterKind p.node.kind then (p.child? "pattern").toList.flatMap (·.boundNames) else []

def parametersNames (p : Place) : List Place :=
  (p.child? "parameters").toList.flatMap fun t => t.constructs.flatMap parameterNames

def statementKind (node : Node) : DeclarationKind :=
  if node.kind = "variable_declaration" then .var
  else match node.child? "kind" with
    | some k => if k.kind = "const" then .const else .let
    | none => .let

def variableNames (p : Place) : List Place :=
  (p.constructs.filter (·.node.kind == "variable_declarator")).flatMap fun d =>
    (d.child? "name").toList.flatMap (·.boundNames)

/-- The names of the variables of a loop with a keyword of its own. -/
def loopNames (p : Place) : List Place :=
  if (p.node.child? "kind").isSome then (p.child? "left").toList.flatMap (·.boundNames) else []

def caughtNames (p : Place) : List Place :=
  (p.child? "parameter").toList.flatMap (·.boundNames)

/-- The name of a namespace: of a dotted one, its first identifier. -/
def namespaceNames (p : Place) : List Place :=
  (p.child? "name").toList.flatMap fun q =>
    if q.node.kind = "identifier" ∨ q.node.kind = "nested_identifier" then
      (firstIdentifierPlace? q.steps q.node).toList
    else []

/-- The names that the scope of a function holds before its body is walked. -/
def headNames (p : Place) : List Naming :=
  (if ["function_expression", "function", "generator_function"].contains p.node.kind then
      namingsOf .function p.path (p.child? "name").toList
    else [])
    ++ namingsOf .typeParameter p.path (typeParameterNames p)
    ++ namingsOf .parameter p.path (p.child? "parameter").toList
    ++ namingsOf .parameter p.path (parametersNames p)

/-- The names that entering a place declares in the scope in which the place stands. -/
def outerNames (p : Place) : List Naming :=
  match form p.node.kind with
  | .variables => namingsOf (statementKind p.node) p.path.tail (variableNames p)
  | .function kind => namingsOf kind p.path.tail (p.child? "name").toList
  | .classDeclaration => namingsOf .classType p.path.tail (p.child? "name").toList
  | .interface => namingsOf .interface p.path.tail (p.child? "name").toList
  | .typeAlias => namingsOf .typeAlias p.path.tail (p.child? "name").toList
  | .enum => namingsOf .enum p.path.tail (p.child? "name").toList
  | .namespace kind => namingsOf kind p.path.tail (namespaceNames p)
  | .imports => namingsOf .imported p.path.tail (importedPlaces p.steps p.node)
  | .anonymousFunction | .classExpression | .block | .header | .forIn | .catch | .other => []

/-- The names that entering a place declares in the scope that is opened for it. -/
def innerNames (p : Place) : List Naming :=
  match form p.node.kind with
  | .function _ | .anonymousFunction => headNames p
  | .classDeclaration | .interface | .typeAlias =>
    namingsOf .typeParameter p.path (typeParameterNames p)
  | .classExpression =>
    namingsOf .classType p.path (p.child? "name").toList
      ++ namingsOf .typeParameter p.path (typeParameterNames p)
  | .forIn => namingsOf (variableKind (p.node.child? "kind")) p.path (loopNames p)
  | .catch => namingsOf .catchParameter p.path (caughtNames p)
  | .variables | .enum | .namespace _ | .imports | .block | .header | .other => []

/-! ### Declaring names -/

/-- The declaration is the one of a name, in the scope for its kind. -/
structure Naming.Declares (source : List Char) (target : DeclarationKind → ScopeId) (n : Naming)
    (d : Declaration) : Prop where
  kind : d.kind = n.kind
  name : d.name = n.place.node.text source
  range : d.nameRange = n.place.node.range
  scope : d.scope = target n.kind

/-- The second bindings have the declarations of the first and then those of some names. -/
def AddsFor (R : Naming → Declaration → Prop) (b : Bindings) (names : List Naming)
    (b' : Bindings) : Prop :=
  ∃ ds, b'.declarations = b.declarations ++ ds ∧ List.Forall₂ R names ds

abbrev AddsNames (source : List Char) (target : DeclarationKind → ScopeId) :=
  AddsFor (Naming.Declares source target)

section

variable {source : List Char} {target : DeclarationKind → ScopeId} {scope : ScopeId}
  {b b' b'' : Bindings} {names names' : List Naming} {kind : DeclarationKind} {home : List Nat}
  {R R' : Naming → Declaration → Prop}

namespace AddsFor

theorem refl : AddsFor R b [] b :=
  ⟨[], (List.append_nil _).symm, .nil⟩

theorem trans (h : AddsFor R b names b') (h' : AddsFor R b' names' b'') :
    AddsFor R b (names ++ names') b'' := by
  obtain ⟨ds, hds, hnames⟩ := h
  obtain ⟨ds', hds', hnames'⟩ := h'
  exact ⟨ds ++ ds', by rw [hds', hds, List.append_assoc], List.rel_append hnames hnames'⟩

theorem one {d : Declaration} {n : Naming} (h : R n d) : AddsFor R b [n] (b.declare d) :=
  ⟨[d], rfl, .cons h .nil⟩

/-- Names that are declared for the nodes of some places, one after another. -/
theorem foldl {f : Bindings → Node → Bindings} {namesFor : Place → List Naming}
    (hf : ∀ b p, AddsFor R b (namesFor p) (f b p.node)) (ps : List Place) :
    ∀ b, AddsFor R b (ps.flatMap namesFor) ((ps.map (·.node)).foldl f b) := by
  induction ps with
  | nil => exact fun _ => refl
  | cons p ps ih => exact fun b => (hf b p).trans (ih (f b p.node))

theorem imp (hR : ∀ n ∈ names, ∀ d, R n d → R' n d) (h : AddsFor R b names b') :
    AddsFor R' b names b' := by
  obtain ⟨ds, hds, hnames⟩ := h
  obtain ⟨hlength, hzip⟩ := List.forall₂_iff_zip.mp hnames
  exact ⟨ds, hds, List.forall₂_iff_zip.mpr
    ⟨hlength, fun h => hR _ (List.of_mem_zip h).1 _ (hzip h)⟩⟩

end AddsFor

theorem namingsOf_flatMap {α : Type} (xs : List α) (f : α → List Place) :
    namingsOf kind home (xs.flatMap f) = xs.flatMap fun x => namingsOf kind home (f x) :=
  List.map_flatMap

/-- What is declared for a node is a declaration of its text in one scope, whatever else is said of
it. -/
def DeclaresText (source : List Char) (kind : DeclarationKind) (scope : ScopeId)
    (declaration : Node → Declaration) : Prop :=
  ∀ n, (declaration n).kind = kind ∧ (declaration n).name = n.text source ∧
    (declaration n).nameRange = n.range ∧ (declaration n).scope = scope

theorem declarationOf_declaresText (source : List Char) (kind : DeclarationKind) (scope : ScopeId)
    (type : Node → TypeSource) :
    DeclaresText source kind scope fun n => declarationOf source scope n kind (type n) :=
  fun _ => ⟨rfl, rfl, rfl, rfl⟩

theorem DeclaresText.declares {declaration : Node → Declaration}
    (h : DeclaresText source kind scope declaration) (htarget : target kind = scope) (q : Place) :
    Naming.Declares source target ⟨kind, q, home⟩ (declaration q.node) := by
  obtain ⟨hkind, hname, hrange, hscope⟩ := h q.node
  exact ⟨hkind, hname, hrange, hscope.trans htarget.symm⟩

theorem addsNames_each {declaration : Node → Declaration}
    (h : DeclaresText source kind scope declaration) (htarget : target kind = scope)
    (places : List Place) (b : Bindings) :
    AddsNames source target b (namingsOf kind home places)
      ((places.map (·.node)).foldl (fun b n => b.declare (declaration n)) b) := by
  rw [namingsOf, List.map_eq_flatMap]
  exact AddsFor.foldl (fun b q => .one (h.declares htarget q)) places b

theorem addsNames_all (htarget : target kind = scope) {places names : List Place}
    (h : places.map (·.node) = names.map (·.node)) (type : TypeSource) (b : Bindings) :
    AddsNames source target b (namingsOf kind home places)
      (declareAll source scope kind type b names) := by
  have hnodes : declareAll source scope kind type b names =
      (names.map (·.node)).foldl
        (fun b n => b.declare (declarationOf source scope n kind type)) b := by
    rw [List.foldl_map]
    rfl
  rw [hnodes, ← h]
  exact addsNames_each (declarationOf_declaresText source kind scope fun _ => type) htarget _ b

theorem addsNames_pattern (htarget : target kind = scope) (type : TypeSource) (b : Bindings)
    (p : Place) :
    AddsNames source target b (namingsOf kind home p.boundNames)
      (declarePattern source scope kind type b p.node) :=
  addsNames_all htarget (Place.map_node_boundNames p.node p.steps) _ b

theorem addsNames_named {declaration : Node → Declaration}
    (h : DeclaresText source kind scope declaration) (htarget : target kind = scope) (b : Bindings)
    (p : Place) :
    AddsNames source target b (namingsOf kind home (p.child? "name").toList)
      (declareNamed b p.node declaration) := by
  unfold declareNamed
  rw [← Place.map_node_child?]
  cases p.child? "name" with
  | none => exact .refl
  | some q => exact .one (h.declares htarget q)

theorem addsNames_typeParameters (htarget : target .typeParameter = scope) (b : Bindings)
    (p : Place) :
    AddsNames source target b (namingsOf .typeParameter home (typeParameterNames p))
      (declareTypeParameters source scope b p.node) := by
  unfold declareTypeParameters typeParameterNames
  rw [← Place.map_node_child?]
  cases p.child? "type_parameters" with
  | none => exact .refl
  | some t =>
    have hnames : (t.constructs.flatMap fun c => (c.child? "name").toList).map (·.node) =
        t.node.namedChildren.filterMap (·.child? "name") := by
      rw [← t.map_node_constructs, List.map_flatMap, List.filterMap_map,
        List.filterMap_eq_flatMap_toList]
      exact List.flatMap_congr fun c _ => c.map_node_toList_child? "name"
    dsimp only [Option.map_some, Option.toList_some]
    rw [List.flatMap_singleton, ← hnames]
    exact addsNames_each (declarationOf_declaresText source _ scope fun n => .fixed (n.text source))
      htarget _ b

theorem addsNames_parameter (htarget : target .parameter = scope) (b : Bindings) (p : Place) :
    AddsNames source target b (namingsOf .parameter home (parameterNames p))
      (declareParameter source scope b p.node) := by
  unfold declareParameter parameterNames
  by_cases h : isParameterKind p.node.kind = true
  · rw [if_pos h, if_pos h, ← Place.map_node_child?]
    cases p.child? "pattern" with
    | none => exact .refl
    | some q =>
      rw [Option.toList_some, List.flatMap_singleton]
      exact addsNames_pattern htarget _ b q
  · rw [if_neg h, if_neg h]
    exact .refl

theorem addsNames_variables (p : Place) (b : Bindings)
    (htarget : target (statementKind p.node) = variableScope b (statementKind p.node) scope) :
    AddsNames source target b (namingsOf (statementKind p.node) home (variableNames p))
      (declareVariables source scope b p.node) := by
  have hdeclarators : p.node.namedChildren.filter (·.kind == "variable_declarator") =
      (p.constructs.filter (·.node.kind == "variable_declarator")).map (·.node) := by
    rw [← p.map_node_constructs, List.filter_map]
    rfl
  unfold declareVariables variableNames
  rw [hdeclarators, namingsOf_flatMap]
  refine AddsFor.foldl (fun b d => ?_) _ b
  rw [← Place.map_node_child?]
  cases d.child? "name" with
  | none => exact .refl
  | some q =>
    rw [Option.toList_some, List.flatMap_singleton]
    exact addsNames_pattern htarget _ b q

theorem addsNames_loopVariables (p : Place) (b : Bindings)
    (htarget : target (variableKind (p.node.child? "kind")) =
      variableScope b (variableKind (p.node.child? "kind")) scope) :
    AddsNames source target b (namingsOf (variableKind (p.node.child? "kind")) home (loopNames p))
      (declareLoopVariables source scope b p.node) := by
  unfold declareLoopVariables loopNames
  rw [← p.map_node_child? "left"]
  cases hkind : p.node.child? "kind" with
  | none => exact .refl
  | some keyword =>
    rw [hkind] at htarget
    cases p.child? "left" with
    | none => exact .refl
    | some left =>
      rw [Option.isSome_some, if_pos rfl, Option.toList_some, List.flatMap_singleton]
      exact addsNames_all htarget (Place.map_node_boundNames left.node left.steps) _ b

theorem addsNames_caught (htarget : target .catchParameter = scope) (b : Bindings) (p : Place) :
    AddsNames source target b (namingsOf .catchParameter home (caughtNames p))
      (declareCaught source scope b p.node) := by
  unfold declareCaught caughtNames
  rw [← Place.map_node_child?]
  cases p.child? "parameter" with
  | none => exact .refl
  | some q =>
    rw [Option.toList_some, List.flatMap_singleton]
    exact addsNames_all htarget (Place.map_node_boundNames q.node q.steps) _ b

theorem addsNames_head (htarget : ∀ kind, kind ≠ .var → target kind = scope) (b : Bindings)
    (p : Place) :
    AddsNames source target b (headNames p) (declareHead source scope b p.node) := by
  unfold declareHead headNames
  extract_lets b₁ b₂ b₃
  have h₁ : AddsNames source target b
      (if ["function_expression", "function", "generator_function"].contains p.node.kind then
        namingsOf .function p.path (p.child? "name").toList else []) b₁ := by
    unfold b₁
    split
    · exact addsNames_named (declarationOf_declaresText source _ scope _)
        (htarget _ (by decide)) b p
    · exact .refl
  have h₃ : AddsNames source target b₂ (namingsOf .parameter p.path (p.child? "parameter").toList)
      b₃ := by
    unfold b₃
    rw [← Place.map_node_child?]
    cases p.child? "parameter" with
    | none => exact .refl
    | some q =>
      exact .one ((declarationOf_declaresText source _ scope fun _ => .fixed "any").declares
        (htarget _ (by decide)) q)
  refine ((h₁.trans (addsNames_typeParameters (htarget _ (by decide)) b₁ p)).trans h₃).trans ?_
  unfold parametersNames
  rw [← Place.map_node_child?]
  cases p.child? "parameters" with
  | none => exact .refl
  | some t =>
    dsimp only [Option.map_some]
    rw [Option.toList_some, List.flatMap_singleton, namingsOf_flatMap, ← t.map_node_constructs]
    exact AddsFor.foldl (fun b q => addsNames_parameter (htarget _ (by decide)) b q) _ b₃

theorem addsNames_class (htarget : target .classType = scope) (b : Bindings) (p : Place) :
    AddsNames source target b (namingsOf .classType home (p.child? "name").toList)
      (declareClass source scope b p.node) := by
  refine addsNames_named ?_ htarget b p
  exact fun _ => ⟨rfl, rfl, rfl, rfl⟩

theorem addsNames_namespace (htarget : target kind = scope) (b : Bindings) (p : Place) :
    AddsNames source target b (namingsOf kind home (namespaceNames p))
      (match (p.node.child? "name").bind fun name =>
          if name.kind = "identifier" ∨ name.kind = "nested_identifier" then firstIdentifier? name
          else none with
        | some name =>
          b.declare (declarationOf source scope name kind (.fixed ("typeof " ++ name.text source)))
        | none => b) := by
  unfold namespaceNames
  rw [← Place.map_node_child?]
  cases p.child? "name" with
  | none => exact .refl
  | some q =>
    rw [Option.toList_some, List.flatMap_singleton, Option.map_some, Option.bind_some]
    split_ifs with h
    · rw [← map_node_firstIdentifierPlace? q.node q.steps]
      cases firstIdentifierPlace? q.steps q.node with
      | none => exact .refl
      | some r =>
        exact .one ((declarationOf_declaresText source kind scope
          fun n => .fixed ("typeof " ++ n.text source)).declares htarget r)
    · exact .refl

/-! ### What stays while the walk goes on -/

/-- Walking on changes nothing about a scope but what it holds. -/
theorem scope?_map_of_builds {α : Type} (f : Scope → α)
    (hf : ∀ (s : Scope) declarations names, f { s with declarations, names } = f s)
    (h : Builds b b') {id : ScopeId} (hid : id < b.scopes.length) :
    (b'.scope? id).map f = (b.scope? id).map f := by
  induction h with
  | refl => rfl
  | declare h hd ih => rw [(Declares.one hd).scope?_map f hf, ih]
  | openScope h _ ih =>
    rw [← ih]
    unfold Bindings.openScope Bindings.scope?
    rw [List.getElem?_append_left (Nat.lt_of_lt_of_le hid h.length_scopes_le)]

theorem functionScope_of_builds (h : Builds b b') {id : ScopeId} (hid : id < b.scopes.length) :
    b'.functionScope id = b.functionScope id := by
  have hkind : ∀ s ∈ b.outwards id, (b'.scope? s).any (·.kind != .block) =
      (b.scope? s).any (·.kind != .block) := by
    intro s hs
    have hlt := Nat.lt_of_le_of_lt (Bindings.le_of_mem_outwards hs) hid
    have hany := congrArg (Option.any (· != .block))
      (scope?_map_of_builds (·.kind) (fun _ _ _ => rfl) h hlt)
    rwa [Option.any_map, Option.any_map] at hany
  unfold Bindings.functionScope
  dsimp only
  rw [outwards_of_builds h hid, List.find?_congr hkind]

theorem variableScope_of_builds (h : Builds b b') (hscope : scope < b.scopes.length)
    (kind : DeclarationKind) : variableScope b' kind scope = variableScope b kind scope := by
  unfold variableScope
  rw [functionScope_of_builds h hscope]

theorem length_scopes_declareNamed (b : Bindings) (node : Node)
    (declaration : Node → Declaration) :
    (declareNamed b node declaration).scopes.length = b.scopes.length := by
  unfold declareNamed
  split
  · rw [Bindings.declare, List.length_modify]
  · rfl

/-- Neither functions nor namespaces are declared as a `var`. -/
theorem form_declaresNoVar (kind : String) : form kind ∉ [.function .var, .namespace .var] := by
  unfold form
  repeat'
    refine iteInduction (motive := (· ∉ [Form.function .var, .namespace .var])) (fun _ => ?_)
      fun _ => ?_
  all_goals decide

/-- Entering a place declares the names for the scope in which it stands and then those for the
scope that is opened for it. -/
theorem enter_names (source : List Char) (p : Place) (scope : ScopeId) (b : Bindings) :
    ∃ b', AddsNames source (variableScope b · scope) b (outerNames p) b' ∧
      AddsNames source (variableScope (enter source p scope b).bindings · b.scopes.length) b'
        (innerNames p) (enter source p scope b).bindings := by
  -- only a `var` can belong to another scope
  have hplain : ∀ (b : Bindings) (s : ScopeId) {kind : DeclarationKind}, kind ≠ .var →
      variableScope b kind s = s := fun _ _ {_} hkind => if_neg hkind
  have hnoVar := form_declaresNoVar p.node.kind
  unfold enter outerNames innerNames
  dsimp only
  generalize form p.node.kind = f at hnoVar ⊢
  cases f with
  | «variables» => exact ⟨_, addsNames_variables p b rfl, .refl⟩
  | function kind =>
    have hnamed : DeclaresText source kind scope fun name =>
        { declarationOf source scope name kind (.callable (NodeRef.of p.node)) with
          hasBody := (p.node.child? "body").isSome
          isGeneric := (p.node.child? "type_parameters").isSome } :=
      fun _ => ⟨rfl, rfl, rfl, rfl⟩
    have hkind : kind ≠ .var := by
      rintro rfl
      exact hnoVar (by decide)
    refine ⟨_, addsNames_named hnamed (hplain b scope hkind) b p, ?_⟩
    refine addsNames_head (fun kind hkind => ?_) _ p
    rw [hplain _ _ hkind, length_scopes_declareNamed]
  | anonymousFunction => exact ⟨b, .refl, addsNames_head (fun kind hkind => hplain _ _ hkind) _ p⟩
  | classDeclaration =>
    refine ⟨_, addsNames_class (hplain b scope (by decide)) b p, addsNames_typeParameters ?_ _ p⟩
    rw [hplain _ _ (by decide), declareClass, length_scopes_declareNamed]
  | classExpression =>
    refine ⟨b, .refl, .trans (?_ : AddsNames _ _ _ _
      (declareClass source b.scopes.length (openFor b .block scope p.node) p.node)) ?_⟩
    · exact addsNames_class (hplain _ _ (by decide)) _ p
    · exact addsNames_typeParameters (hplain _ _ (by decide)) _ p
  | interface =>
    have hnamed : DeclaresText source .interface scope fun name =>
        { declarationOf source scope name .interface (.fixed (name.text source)) with
          members := membersOf source p.node } :=
      fun _ => ⟨rfl, rfl, rfl, rfl⟩
    refine ⟨_, addsNames_named hnamed (hplain b scope (by decide)) b p,
      addsNames_typeParameters ?_ _ p⟩
    rw [hplain _ _ (by decide), length_scopes_declareNamed]
  | typeAlias =>
    refine ⟨_, addsNames_named (declarationOf_declaresText source _ scope _)
      (hplain b scope (by decide)) b p, addsNames_typeParameters ?_ _ p⟩
    rw [hplain _ _ (by decide), length_scopes_declareNamed]
  | «enum» =>
    exact ⟨_, addsNames_named (declarationOf_declaresText source _ scope _)
      (hplain b scope (by decide)) b p, .refl⟩
  | «namespace» kind =>
    have hkind : kind ≠ .var := by
      rintro rfl
      exact hnoVar (by decide)
    exact ⟨_, addsNames_namespace (hplain b scope hkind) b p, .refl⟩
  | «imports» =>
    exact ⟨_, addsNames_all (hplain b scope (by decide)) (map_node_importedPlaces _ _ _) _ b, .refl⟩
  | block =>
    simp only
    split
    · exact ⟨b, .refl, .refl⟩
    · exact ⟨b, .refl, .refl⟩
  | header => exact ⟨b, .refl, .refl⟩
  | forIn =>
    refine ⟨b, .refl, addsNames_loopVariables p (openFor b .block scope p.node) ?_⟩
    have hinner := lt_length_openFor b .block scope p.node
    exact variableScope_of_builds (.of_declares (declares_loopVariables hinner p.node)) hinner _
  | «catch» => exact ⟨b, .refl, addsNames_caught (hplain _ _ (by decide)) _ p⟩
  | other => exact ⟨b, .refl, .refl⟩

end

end Binder

end UtsInsight
