import UtsInsight.Proofs.Scope.Naming

/-!
# The declarations of a document

The walk enters a place, declares its names, and goes on to the constructs below it. The names it
declares on the way are written down here in the same order, without scopes. Every declaration of
the bindings is the one of the name at its index, and its scope is found from the path at which the
name was declared: a `var` is in the innermost scope around the path that is not a block, anything
else in the innermost one.
-/
namespace UtsInsight.Binder

mutual

/-- The places at or below a node that the walk enters, in order. -/
def walkedPlaces (steps : List Step) : Node → List Place
  | ⟨info, children⟩ =>
    let node : Node := ⟨info, children⟩
    ⟨node, steps⟩ ::
      if (form info.kind).descends then
        walkedPlacesBelow steps node 0 (form info.kind).passesName children
      else []

def walkedPlacesBelow (steps : List Step) (parent : Node) (index : Nat) (skipsName : Bool) :
    List Node → List Place
  | [] => []
  | c :: cs =>
    let isName := skipsName && c.field == some "name"
    (if c.isNamed && !isName then walkedPlaces (⟨parent, index⟩ :: steps) c else []) ++
      walkedPlacesBelow steps parent (index + 1) (skipsName && !isName) cs

end

def namesAt (p : Place) : List Naming :=
  outerNames p ++ innerNames p

/-- The names that a document declares, by the ids of the declarations. -/
def declaredNames (root : Node) : List Naming :=
  (walkedPlacesBelow [] root 0 false root.children).flatMap namesAt

/-! ### Homes of names -/

theorem home_of_mem_namingsOf {kind : DeclarationKind} {home : List Nat} {places : List Place}
    {n : Naming} (h : n ∈ namingsOf kind home places) : n.home = home := by
  obtain ⟨p, _, rfl⟩ := List.mem_map.mp h
  rfl

theorem home_of_mem_outerNames {p : Place} {n : Naming} (h : n ∈ outerNames p) :
    n.home = p.path.tail := by
  unfold outerNames at h
  split at h
  all_goals first | exact home_of_mem_namingsOf h | exact absurd h List.not_mem_nil

theorem home_of_mem_headNames {p : Place} {n : Naming} (h : n ∈ headNames p) :
    n.home = p.path := by
  unfold headNames at h
  simp only [List.mem_append] at h
  obtain ((h | h) | h) | h := h
  · split at h
    · exact home_of_mem_namingsOf h
    · exact absurd h List.not_mem_nil
  · exact home_of_mem_namingsOf h
  · exact home_of_mem_namingsOf h
  · exact home_of_mem_namingsOf h

theorem home_of_mem_innerNames {p : Place} {n : Naming} (h : n ∈ innerNames p) :
    n.home = p.path := by
  unfold innerNames at h
  generalize form p.node.kind = f at h
  cases f with
  | function | anonymousFunction => exact home_of_mem_headNames h
  | classExpression =>
    rcases List.mem_append.mp h with h | h
    · exact home_of_mem_namingsOf h
    · exact home_of_mem_namingsOf h
  | classDeclaration | interface | typeAlias | forIn | «catch» => exact home_of_mem_namingsOf h
  | «variables» | «enum» | «namespace» | «imports» | block | header | other =>
    exact absurd h List.not_mem_nil

/-- Only places that a scope is opened for declare names in it. -/
theorem innerNames_eq_nil {p : Place} (h : opening? p = none) : innerNames p = [] := by
  unfold opening? at h
  unfold innerNames
  generalize form p.node.kind = f at h ⊢
  cases f with
  | «variables» | «enum» | «namespace» | «imports» | block | header | other => rfl
  | function | anonymousFunction | classDeclaration | classExpression | interface | typeAlias
  | forIn | «catch» => cases h

/-! ### Places in the tree -/

mutual

/-- Scopes are opened for the places that call for one. -/
theorem scopePlaces_eq_filter : ∀ (n : Node) (steps : List Step),
    scopePlaces steps n = (walkedPlaces steps n).filter fun p => (opening? p).isSome
  | ⟨info, children⟩, steps => by
    unfold scopePlaces walkedPlaces
    dsimp only
    have hbelow : (if (form info.kind).descends then
        scopePlacesBelow steps ⟨info, children⟩ 0 (form info.kind).passesName children else []) =
        (if (form info.kind).descends then
          walkedPlacesBelow steps ⟨info, children⟩ 0 (form info.kind).passesName children
          else []).filter fun p => (opening? p).isSome := by
      rw [scopePlacesBelow_eq_filter children]
      split
      · rfl
      · rfl
    rw [hbelow, List.filter_cons]
    split
    · rfl
    · rfl

theorem scopePlacesBelow_eq_filter : ∀ (cs : List Node) (steps : List Step) (parent : Node)
    (index : Nat) (skipsName : Bool),
    scopePlacesBelow steps parent index skipsName cs =
      (walkedPlacesBelow steps parent index skipsName cs).filter fun p => (opening? p).isSome
  | [], _, _, _, _ => rfl
  | c :: cs, steps, parent, index, skipsName => by
    unfold scopePlacesBelow walkedPlacesBelow
    dsimp only
    rw [scopePlacesBelow_eq_filter cs, List.filter_append, scopePlaces_eq_filter c]
    congr 1
    split
    · rfl
    · rfl

end

mutual

theorem below_of_mem_walkedPlaces : ∀ (n : Node) (steps : List Step) {p : Place},
    p ∈ walkedPlaces steps n → Place.Below ⟨n, steps⟩ p
  | ⟨info, children⟩, steps, p, hp => by
    unfold walkedPlaces at hp
    rcases List.mem_cons.mp hp with rfl | hp
    · exact .refl
    · split at hp
      · obtain ⟨c, hc, hbelow⟩ := exists_child_of_mem_walkedPlacesBelow children steps _ 0 _ hp
        exact (Place.below_of_mem_children hc).trans hbelow
      · exact absurd hp List.not_mem_nil

/-- What is entered below a place is at or below one of its children. -/
theorem exists_child_of_mem_walkedPlacesBelow : ∀ (cs : List Node) (steps : List Step)
    (parent : Node) (index : Nat) (skipsName : Bool) {p : Place},
    p ∈ walkedPlacesBelow steps parent index skipsName cs →
      ∃ c ∈ placesFrom steps parent index cs, Place.Below c p
  | [], _, _, _, _, _, hp => absurd hp List.not_mem_nil
  | c :: cs, steps, parent, index, skipsName, p, hp => by
    unfold walkedPlacesBelow at hp
    rcases List.mem_append.mp hp with hp | hp
    · split at hp
      · exact ⟨_, List.mem_cons_self, below_of_mem_walkedPlaces c _ hp⟩
      · exact absurd hp List.not_mem_nil
    · obtain ⟨c', hc', hbelow⟩ :=
        exists_child_of_mem_walkedPlacesBelow cs steps parent (index + 1) _ hp
      exact ⟨c', List.mem_cons_of_mem _ hc', hbelow⟩

end

section

variable {root : Node} {source : List Char} {p q : Place}

theorem below_of_mem_scopeOwners (hq : q ∈ scopeOwners root) : Place.Below (.ofRoot root) q := by
  rcases List.mem_cons.mp hq with rfl | hq
  · exact .refl
  · exact below_of_mem_scopePlacesBelow root.children [] root 0 false rfl hq

/-- A place that no scope is opened for owns none, the root apart. -/
theorem path_ne_of_mem_scopeOwners (hp : Place.Below (.ofRoot root) p) (hpath : p.path ≠ [])
    (hopening : opening? p = none) (hq : q ∈ scopeOwners root) : q.path ≠ p.path := by
  intro heq
  obtain rfl := (below_of_mem_scopeOwners hq).eq_of_path_eq hp heq
  rcases List.mem_cons.mp hq with rfl | hq
  · exact hpath rfl
  · rw [scopePlacesBelow_eq_filter] at hq
    have hsome := List.of_mem_filter hq
    rw [hopening] at hsome
    cases hsome

/-- A name is declared at a place of the tree other than the root. -/
theorem exists_site {n : Naming} (hn : n ∈ declaredNames root) :
    ∃ p, Place.Below (.ofRoot root) p ∧ p.path ≠ [] ∧ n ∈ namesAt p := by
  obtain ⟨p, hp, hn⟩ := List.mem_flatMap.mp hn
  obtain ⟨c, hc, hbelow⟩ := exists_child_of_mem_walkedPlacesBelow root.children [] root 0 false hp
  have hchild : c ∈ (Place.ofRoot root).children := hc
  refine ⟨p, (Place.below_of_mem_children hchild).trans hbelow, fun hpath => ?_, hn⟩
  exact Place.path_ne_nil_of_mem_children hchild (List.suffix_nil.mp (hpath ▸ hbelow.suffix))

/-- Around a place that no scope is opened for are the scopes around its parent. -/
theorem scopesAround_tail (hp : Place.Below (.ofRoot root) p) (hpath : p.path ≠ [])
    (hopening : opening? p = none) :
    scopesAround (scopeOwners root) p.path = scopesAround (scopeOwners root) p.path.tail := by
  have hne : ∀ q ∈ scopeOwners root, q.path ≠ p.path := fun q hq =>
    path_ne_of_mem_scopeOwners hp hpath hopening hq
  cases hcons : p.path with
  | nil => exact absurd hcons hpath
  | cons i path => exact scopesAround_cons_of_none (hcons ▸ hne)

end

/-! ### The walk -/

/-- A declaration of the bindings is that of a name: it has its kind, its text and its range, and it
is in the scope for its kind among those around the home of the name. -/
structure Naming.Settles (root : Node) (source : List Char) (n : Naming) (d : Declaration) : Prop
    where
  kind : d.kind = n.kind
  name : d.name = n.place.node.text source
  range : d.nameRange = n.place.node.range
  scope : ∃ s, d.scope = variableScope (bind root source) n.kind s ∧
    (bind root source).outwards s = scopesAround (scopeOwners root) n.home

section

variable {root : Node} {source : List Char} {b b' : Bindings} {names : List Naming}

/-- Names that are declared from one path for a scope are settled if the scope is the innermost one
around the path. -/
theorem AddsNames.settles {scope : ScopeId} {home : List Nat} {target : Bindings}
    (h : AddsNames source (variableScope target · scope) b names b')
    (hhome : ∀ n ∈ names, n.home = home) (hfinal : Builds target (bind root source))
    (hscope : scope < target.scopes.length)
    (haround : (bind root source).outwards scope = scopesAround (scopeOwners root) home) :
    AddsFor (Naming.Settles root source) b names b' := by
  refine h.imp fun n hn d hd => ⟨hd.kind, hd.name, hd.range, scope, ?_, ?_⟩
  · rw [hd.scope, variableScope_of_builds hfinal hscope]
  · rw [haround, hhome n hn]

/-- The scope in which the constructs below a place are walked, if they are. -/
def scopeInside (p : Place) (scope : ScopeId) (b : Bindings) : ScopeId :=
  if (opening? p).isSome then b.scopes.length else scope

theorem scope_of_enter (source : List Char) (p : Place) {scope : ScopeId} {b : Bindings}
    (hscope : scope < b.scopes.length) :
    (enter source p scope b).scope =
        (if (form p.node.kind).descends then some (scopeInside p scope b) else none) ∧
      (enter source p scope b).skipsName = (form p.node.kind).passesName ∧
      (enter source p scope b).bindings.scopes.length =
        b.scopes.length + (if (opening? p).isSome then [p] else []).length := by
  unfold scopeInside
  cases hopening : opening? p with
  | none =>
    have h := enter_stays source hscope hopening
    exact ⟨h.scope, h.skipsName, h.declares.length_scopes⟩
  | some kind =>
    have h := enter_opens source hscope hopening
    obtain ⟨b', hbefore, hafter⟩ := h.declares
    refine ⟨h.scope, h.skipsName, ?_⟩
    rw [hafter.length_scopes, length_scopes_openFor, hbefore.length_scopes]
    rfl

/-- Entering a place settles the names that are declared at it, and the scope inside is the
innermost one around the place. -/
theorem enter_settles {p : Place} {scope : ScopeId} (hp : Place.Below (.ofRoot root) p)
    (hpath : p.path ≠ []) (hscope : scope < b.scopes.length)
    (haround : (bind root source).outwards scope = scopesAround (scopeOwners root) p.path.tail)
    (howner : (opening? p).isSome → (scopeOwners root)[b.scopes.length]? = some p)
    (hfinal : Builds (enter source p scope b).bindings (bind root source)) :
    AddsFor (Naming.Settles root source) b (namesAt p)
        (enter source p scope b).bindings ∧
      (bind root source).outwards (scopeInside p scope b) =
        scopesAround (scopeOwners root) p.path := by
  obtain ⟨b', houter, hinner⟩ := enter_names source p scope b
  have hbuilds := (enter_builds source p hscope).1
  have houter' := houter.settles (fun n => home_of_mem_outerNames) (hbuilds.trans hfinal) hscope
    haround
  unfold scopeInside
  cases hopening : opening? p with
  | none =>
    rw [Option.isSome_none, if_neg Bool.false_ne_true, haround, scopesAround_tail hp hpath hopening]
    refine ⟨houter'.trans (hinner.imp fun n hn => ?_), rfl⟩
    rw [innerNames_eq_nil hopening] at hn
    exact absurd hn List.not_mem_nil
  | some kind =>
    -- the names of the head go to the scope that is opened, whose owner is the place itself
    rw [hopening] at howner
    have hlength := (scope_of_enter source p hscope).2.2
    rw [hopening, Option.isSome_some, if_pos rfl, List.length_singleton] at hlength
    have hinside := (bind_owned root source).outwards (howner rfl)
    rw [Option.isSome_some, if_pos rfl]
    refine ⟨houter'.trans (hinner.settles (fun n => home_of_mem_innerNames) hfinal ?_ hinside),
      hinside⟩
    rw [hlength]
    exact Nat.lt_succ_self _

end

mutual

/-- Walking over a node settles the names at and below it. The scopes that have been opened before
are the first ones of the document. -/
theorem walk_settles (root : Node) (source : List Char) : ∀ (n : Node) (steps : List Step)
    (scope : ScopeId) (b : Bindings) (before after : List Place),
    Place.Below (.ofRoot root) ⟨n, steps⟩ → steps ≠ [] → scope < b.scopes.length →
    b.scopes.length = before.length →
    scopeOwners root = before ++ scopePlaces steps n ++ after →
    (bind root source).outwards scope =
      scopesAround (scopeOwners root) (steps.map (·.index)).tail →
    Builds (walk source steps scope b n) (bind root source) →
      (walk source steps scope b n).scopes.length = (before ++ scopePlaces steps n).length ∧
      AddsFor (Naming.Settles root source) b ((walkedPlaces steps n).flatMap namesAt)
        (walk source steps scope b n)
  | ⟨info, children⟩, steps, scope, b, before, after, hp, hsteps, hscope, hlength, howners,
      haround, hfinal => by
    obtain ⟨hinside, hskips, hopened⟩ :=
      scope_of_enter source ⟨⟨info, children⟩, steps⟩ hscope
    have hpath : (⟨⟨info, children⟩, steps⟩ : Place).path ≠ [] := mt List.map_eq_nil_iff.mp hsteps
    -- `before` are the owners of the scopes opened so far, so the next scope is this place's
    have howner : (opening? ⟨⟨info, children⟩, steps⟩).isSome →
        (scopeOwners root)[b.scopes.length]? = some ⟨⟨info, children⟩, steps⟩ := by
      intro hopening
      rw [howners, hlength, scopePlaces, if_pos hopening, List.append_assoc,
        List.getElem?_append_right (Nat.le_refl _), Nat.sub_self]
      rfl
    unfold walk scopePlaces at *
    unfold walkedPlaces
    dsimp only at hinside hskips hfinal howners ⊢
    rw [hinside, hskips] at hfinal ⊢
    by_cases hdescends : (form info.kind).descends = true
    · rw [if_pos hdescends] at hfinal howners
      rw [if_pos hdescends, if_pos hdescends, if_pos hdescends, List.flatMap_cons]
      have hinner := (enter_builds source ⟨⟨info, children⟩, steps⟩ hscope).2 _
        (hinside.trans (if_pos hdescends))
      obtain ⟨hentered, haround'⟩ := enter_settles hp hpath hscope haround howner
        ((walkBelow_builds children steps _ 0 _ _ _ hinner).trans hfinal)
      obtain ⟨hlength', hnames⟩ := walkBelow_settles root source children steps ⟨info, children⟩ 0
        _ _ _ (before ++ _) after hp rfl hinner (by rw [hopened, List.length_append, hlength])
        (by rw [howners]; simp only [List.append_assoc]) haround' hfinal
      exact ⟨by rw [hlength', List.append_assoc], hentered.trans hnames⟩
    · rw [if_neg hdescends] at hfinal
      rw [if_neg hdescends, if_neg hdescends, if_neg hdescends, List.append_nil,
        List.flatMap_singleton]
      refine ⟨?_, (enter_settles hp hpath hscope haround howner hfinal).1⟩
      rw [hopened, List.length_append, hlength]

theorem walkBelow_settles (root : Node) (source : List Char) : ∀ (cs : List Node)
    (steps : List Step) (parent : Node) (index : Nat) (scope : ScopeId) (skipsName : Bool)
    (b : Bindings) (before after : List Place),
    Place.Below (.ofRoot root) ⟨parent, steps⟩ → parent.children.drop index = cs →
    scope < b.scopes.length → b.scopes.length = before.length →
    scopeOwners root = before ++ scopePlacesBelow steps parent index skipsName cs ++ after →
    (bind root source).outwards scope = scopesAround (scopeOwners root) (steps.map (·.index)) →
    Builds (walkBelow source steps parent index scope skipsName b cs) (bind root source) →
      (walkBelow source steps parent index scope skipsName b cs).scopes.length =
        (before ++ scopePlacesBelow steps parent index skipsName cs).length ∧
      AddsFor (Naming.Settles root source) b
        ((walkedPlacesBelow steps parent index skipsName cs).flatMap namesAt)
        (walkBelow source steps parent index scope skipsName b cs)
  | [], steps, parent, index, scope, skipsName, b, before, after, hp, hcs, hscope, hlength,
      howners, haround, hfinal => by
    unfold walkBelow scopePlacesBelow walkedPlacesBelow
    exact ⟨by rw [hlength, List.append_nil], .refl⟩
  | c :: cs, steps, parent, index, scope, skipsName, b, before, after, hp, hcs, hscope, hlength,
      howners, haround, hfinal => by
    obtain ⟨hc, hcs'⟩ : Place.Below ⟨parent, steps⟩ ⟨c, ⟨parent, index⟩ :: steps⟩ ∧ _ :=
      Place.Below.of_drop hcs
    unfold walkBelow at hfinal ⊢
    unfold scopePlacesBelow at howners ⊢
    unfold walkedPlacesBelow
    dsimp only at hfinal howners ⊢
    generalize (skipsName && c.field == some "name") = isName at hfinal howners ⊢
    by_cases hwalked : (c.isNamed && !isName) = true
    · rw [if_pos hwalked] at hfinal howners
      rw [if_pos hwalked, if_pos hwalked, if_pos hwalked, List.flatMap_append]
      have hscope' : scope < (walk source (⟨parent, index⟩ :: steps) scope b c).scopes.length :=
        Nat.lt_of_lt_of_le hscope (walk_builds c _ scope b hscope).length_scopes_le
      have hrest := (walkBelow_builds cs steps parent _ scope _ _ hscope').trans hfinal
      obtain ⟨hlength', hnames⟩ := walk_settles root source c (⟨parent, index⟩ :: steps) scope b
        before (scopePlacesBelow steps parent (index + 1) (skipsName && !isName) cs ++ after)
        (hp.trans hc) (List.cons_ne_nil _ _) hscope hlength
        (by rw [howners]; simp only [List.append_assoc]) haround hrest
      obtain ⟨hlength'', hnames'⟩ := walkBelow_settles root source cs steps parent (index + 1) scope
        _ _ _ after hp hcs' hscope' hlength' (by rw [howners]; simp only [List.append_assoc])
        haround hfinal
      exact ⟨by rw [hlength'', List.append_assoc], hnames.trans hnames'⟩
    · rw [if_neg hwalked] at hfinal howners
      rw [List.nil_append] at howners
      rw [if_neg hwalked, if_neg hwalked, if_neg hwalked, List.nil_append, List.nil_append]
      exact walkBelow_settles root source cs steps parent (index + 1) scope _ b before after hp hcs'
        hscope hlength howners haround hfinal

end

/-- The declarations of a document are those of its names, in order. -/
theorem bind_settles (root : Node) (source : List Char) :
    List.Forall₂ (Naming.Settles root source) (declaredNames root)
      (bind root source).declarations := by
  have haround := (bind_owned root source).outwards
    (show (scopeOwners root)[0]? = some (.ofRoot root) from rfl)
  obtain ⟨_, ds, hds, hnames⟩ := walkBelow_settles root source root.children [] root 0 0 false
    (programScope root) [.ofRoot root] [] .refl rfl Nat.zero_lt_one rfl
    (List.append_nil _).symm haround .refl
  rw [bind]
  exact hds ▸ hnames

theorem exists_settles {root : Node} {source : List Char} {id : DeclId} {d : Declaration}
    (hd : (bind root source).declaration? id = some d) :
    ∃ n, (declaredNames root)[id]? = some n ∧ n.Settles root source d := by
  obtain ⟨hid, rfl⟩ := List.getElem?_eq_some_iff.mp hd
  obtain ⟨hlength, hsettles⟩ := List.forall₂_iff_get.mp (bind_settles root source)
  have hid' : id < (declaredNames root).length := hlength ▸ hid
  exact ⟨_, List.getElem?_eq_getElem hid', hsettles id hid' hid⟩

end UtsInsight.Binder
