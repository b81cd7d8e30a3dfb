import Mathlib.Data.List.Infix
import UtsInsight.Finding.Names
import UtsInsight.Proofs.Scope.Building
import UtsInsight.Proofs.Syntax.WellFormed

/-!
# The places that scopes belong to

The walk opens a scope for the root of the document and for some of the places below it. Which ones,
and in which order, can be read off the tree. The scopes around a scope are then those of the
ancestors of its place, from the inside out, and no others. Nothing here looks at ranges.
-/
namespace UtsInsight.Binder

mutual

/-- The places at or below a node that the walk opens a scope for, in the order of the scopes. -/
def scopePlaces (steps : List Step) : Node → List Place
  | ⟨info, children⟩ =>
    let node : Node := ⟨info, children⟩
    (if (opening? ⟨node, steps⟩).isSome then [⟨node, steps⟩] else []) ++
      if (form info.kind).descends then
        scopePlacesBelow steps node 0 (form info.kind).passesName children
      else []

def scopePlacesBelow (steps : List Step) (parent : Node) (index : Nat) (skipsName : Bool) :
    List Node → List Place
  | [] => []
  | c :: cs =>
    let isName := skipsName && c.field == some "name"
    (if c.isNamed && !isName then scopePlaces (⟨parent, index⟩ :: steps) c else []) ++
      scopePlacesBelow steps parent (index + 1) (skipsName && !isName) cs

end

/-- The places that the scopes of a document belong to, by the ids of the scopes. -/
def scopeOwners (root : Node) : List Place :=
  .ofRoot root :: scopePlacesBelow [] root 0 false root.children

/-- The scope of the place at a path. -/
def scopeOf? (owners : List Place) (path : List Nat) : Option ScopeId :=
  owners.findIdx? (·.path == path)

/-- The scopes of the place at a path and of its ancestors, from the inside out. The paths of the
ancestors are the tails of the path. -/
def scopesAround (owners : List Place) (path : List Nat) : List ScopeId :=
  path.tails.filterMap (scopeOf? owners)

/-! ### Scopes around a path -/

section

variable {owners more : List Place} {path : List Nat}

theorem scopesAround_nil (owners : List Place) :
    scopesAround owners [] = (scopeOf? owners []).toList := by
  unfold scopesAround
  cases h : scopeOf? owners [] <;>
    simp only [List.tails, List.filterMap_cons, h, List.filterMap_nil, Option.toList]

theorem scopesAround_cons (owners : List Place) (i : Nat) (path : List Nat) :
    scopesAround owners (i :: path) =
      (scopeOf? owners (i :: path)).toList ++ scopesAround owners path := by
  unfold scopesAround
  cases h : scopeOf? owners (i :: path) <;>
    simp only [List.tails_cons, List.filterMap_cons, h, Option.toList, List.nil_append,
      List.singleton_append]

theorem getElem?_of_scopeOf? {id : ScopeId} (h : scopeOf? owners path = some id) :
    ∃ p, owners[id]? = some p ∧ p.path = path := by
  obtain ⟨hlt, hp, _⟩ := List.findIdx?_eq_some_iff_getElem.mp h
  exact ⟨owners[id], List.getElem?_eq_getElem hlt, beq_iff_eq.mp hp⟩

theorem mem_scopesAround {id : ScopeId} (h : id ∈ scopesAround owners path) :
    ∃ p, owners[id]? = some p ∧ p.path <:+ path := by
  obtain ⟨around, haround, hid⟩ := List.mem_filterMap.mp h
  obtain ⟨p, hp, rfl⟩ := getElem?_of_scopeOf? hid
  exact ⟨p, hp, (List.mem_tails _ _).mp haround⟩

theorem scopesAround_subset {inner : List Nat} (h : path <:+ inner) :
    scopesAround owners path ⊆ scopesAround owners inner := by
  intro id hid
  obtain ⟨around, haround, hscope⟩ := List.mem_filterMap.mp hid
  refine List.mem_filterMap.mpr ⟨around, ?_, hscope⟩
  exact (List.mem_tails _ _).mpr (((List.mem_tails _ _).mp haround).trans h)

/-- The scopes around a path are those around the innermost of their places. -/
theorem exists_innermost_owner {first : ScopeId} (hfirst : scopeOf? owners [] = some first)
    (path : List Nat) :
    ∃ (id : ScopeId) (p : Place), owners[id]? = some p ∧
      scopesAround owners p.path = scopesAround owners path := by
  induction path with
  | nil =>
    obtain ⟨p, hp, hpath⟩ := getElem?_of_scopeOf? hfirst
    exact ⟨first, p, hp, by rw [hpath]⟩
  | cons i path ih =>
    cases hscope : scopeOf? owners (i :: path) with
    | none =>
      obtain ⟨id, p, hp, hpath⟩ := ih
      exact ⟨id, p, hp, by rw [hpath, scopesAround_cons, hscope]; rfl⟩
    | some id =>
      obtain ⟨p, hp, hpath⟩ := getElem?_of_scopeOf? hscope
      exact ⟨id, p, hp, by rw [hpath]⟩

theorem scopeOf?_eq_none (h : ∀ p ∈ owners, p.path ≠ path) : scopeOf? owners path = none :=
  List.findIdx?_eq_none_iff.mpr fun p hp => beq_false_of_ne (h p hp)

/-- Places that are not around a path make no difference to its scopes. -/
theorem scopesAround_append (h : ∀ p ∈ more, ¬ p.path <:+ path) :
    scopesAround (owners ++ more) path = scopesAround owners path := by
  unfold scopesAround
  refine List.filterMap_congr fun around haround => ?_
  have hnone : scopeOf? more around = none := by
    refine scopeOf?_eq_none fun p hp => ?_
    rintro rfl
    exact h p hp ((List.mem_tails _ _).mp haround)
  unfold scopeOf? at hnone ⊢
  rw [List.findIdx?_append, hnone]
  exact Option.or_none

/-- A place without a scope of its own has the scopes of its parent. -/
theorem scopesAround_cons_of_none {i : Nat} (h : ∀ p ∈ owners, p.path ≠ i :: path) :
    scopesAround owners (i :: path) = scopesAround owners path := by
  rw [scopesAround_cons, scopeOf?_eq_none h]
  rfl

/-- A new scope is the innermost one around its place. -/
theorem scopesAround_concat {p : Place} (h : ∀ q ∈ owners, q.path ≠ p.path) :
    scopesAround (owners ++ [p]) p.path = owners.length :: scopesAround owners p.path := by
  have hold := scopeOf?_eq_none h
  have hnew : scopeOf? (owners ++ [p]) p.path = some owners.length := by
    unfold scopeOf? at hold ⊢
    rw [List.findIdx?_append, hold, Option.none_or, List.findIdx?_singleton,
      if_pos (beq_self_eq_true _), Option.map_some, Nat.zero_add]
  cases hpath : p.path with
  | nil =>
    rw [hpath] at hnew hold
    rw [scopesAround_nil, scopesAround_nil, hnew, hold]
    rfl
  | cons i path =>
    rw [hpath] at hnew hold
    rw [scopesAround_cons, scopesAround_cons, hnew, hold, scopesAround_append]
    · rfl
    · intro q hq
      rw [List.mem_singleton.mp hq, hpath]
      intro hsuffix
      have := hsuffix.length_le
      rw [List.length_cons] at this
      omega

end

/-! ### The scopes that the walk opens -/

/-- The scopes of the bindings belong to the places of a list, one each, and the scopes around them
are those of the ancestors. -/
structure Owned (b : Bindings) (owners : List Place) : Prop where
  length : b.scopes.length = owners.length
  range : ∀ {id : ScopeId} {p : Place}, owners[id]? = some p →
    (b.scope? id).map (·.range) = some p.node.range
  outwards : ∀ {id : ScopeId} {p : Place}, owners[id]? = some p →
    b.outwards id = scopesAround owners p.path

section

variable {b b' : Bindings} {owners : List Place} {p : Place} {kind : ScopeKind} {scope : ScopeId}

theorem Owned.mem_scopesAround (h : Owned b owners) {id : ScopeId} {q : Place}
    (hq : owners[id]? = some q) : id ∈ scopesAround owners q.path :=
  h.outwards hq ▸ b.mem_outwards_self id

theorem Owned.scope_range (h : Owned b owners) {id : ScopeId} {q : Place} {s : Scope}
    (hq : owners[id]? = some q) (hs : b.scope? id = some s) : s.range = q.node.range := by
  have hrange := h.range hq
  rw [hs] at hrange
  exact Option.some.inj hrange

theorem Owned.exists_scope (h : Owned b owners) {id : ScopeId} {q : Place}
    (hq : owners[id]? = some q) : ∃ s, b.scope? id = some s ∧ s.range = q.node.range :=
  Option.map_eq_some_iff.mp (h.range hq)

/-- The ranges of the owners are those of the scopes. -/
theorem Owned.map_range (h : Owned b owners) :
    b.scopes.map (·.range) = owners.map (·.node.range) := by
  refine List.ext_getElem? fun id => ?_
  rw [List.getElem?_map, List.getElem?_map]
  cases hq : owners[id]? with
  | some q => exact h.range hq
  | none =>
    rw [List.getElem?_eq_none_iff] at hq
    rw [List.getElem?_eq_none (h.length ▸ hq)]
    rfl

theorem Owned.declares (h : Owned b owners) (hb : Declares b b') : Owned b' owners where
  length := by rw [hb.length_scopes, h.length]
  range hp := by rw [hb.scope?_map _ fun _ _ _ => rfl, h.range hp]
  outwards hp := by rw [hb.outwards, h.outwards hp]

theorem outwards_openFor_of_lt {id : ScopeId} (hid : id < b.scopes.length) (node : Node) :
    (openFor b kind scope node).outwards id = b.outwards id :=
  Bindings.outwards_congr fun s hs => by
    unfold openFor Bindings.openScope Bindings.scope?
    rw [List.getElem?_append_left (Nat.lt_of_le_of_lt hs hid)]

theorem outwards_openFor_length (hscope : scope < b.scopes.length) (node : Node) :
    (openFor b kind scope node).outwards b.scopes.length =
      b.scopes.length :: b.outwards scope := by
  have hnew : (openFor b kind scope node).scope? b.scopes.length =
      some ⟨kind, some scope, node.range, [], []⟩ := List.getElem?_concat_length
  have hbefore : (openFor b kind scope node).outwards scope = b.outwards scope :=
    outwards_openFor_of_lt hscope node
  rw [Bindings.outwards, hnew, ← hbefore]
  simp only [Option.bind_some, if_pos hscope]

theorem getElem?_concat_eq_some {id : Nat} {q : Place} (h : (owners ++ [p])[id]? = some q) :
    (id < owners.length ∧ owners[id]? = some q) ∨ (id = owners.length ∧ q = p) := by
  rcases Nat.lt_trichotomy id owners.length with hid | rfl | hid
  · rw [List.getElem?_append_left hid] at h
    exact .inl ⟨hid, h⟩
  · rw [List.getElem?_concat_length] at h
    exact .inr ⟨rfl, (Option.some.inj h).symm⟩
  · have hlt := (List.getElem?_eq_some_iff.mp h).1
    rw [List.length_append, List.length_singleton] at hlt
    omega

/-- Opening a scope for a place that is around none of the owners so far. -/
theorem Owned.openFor (h : Owned b owners) (p : Place) (hscope : scope < b.scopes.length)
    (houtwards : b.outwards scope = scopesAround owners p.path)
    (hfresh : ∀ q ∈ owners, ¬ p.path <:+ q.path) :
    Owned (openFor b kind scope p.node) (owners ++ [p]) := by
  have hne : ∀ q ∈ owners, q.path ≠ p.path := fun q hq hpath =>
    hfresh q hq (hpath ▸ List.suffix_refl _)
  refine ⟨?_, fun {id q} hq => ?_, fun {id q} hq => ?_⟩
  · rw [length_scopes_openFor, List.length_append, List.length_singleton, h.length]
  · rcases getElem?_concat_eq_some hq with ⟨hid, hq⟩ | ⟨rfl, rfl⟩
    · rw [← h.range hq]
      unfold Binder.openFor Bindings.openScope Bindings.scope?
      rw [List.getElem?_append_left (h.length ▸ hid)]
    · unfold Binder.openFor Bindings.openScope Bindings.scope?
      rw [← h.length, List.getElem?_concat_length]
      rfl
  · rcases getElem?_concat_eq_some hq with ⟨hid, hq⟩ | ⟨rfl, rfl⟩
    · rw [outwards_openFor_of_lt (h.length ▸ hid), h.outwards hq, scopesAround_append]
      intro q' hq'
      rw [List.mem_singleton.mp hq']
      exact hfresh q (List.mem_of_getElem? hq)
    · rw [scopesAround_concat hne, ← h.length, outwards_openFor_length hscope, houtwards]

end

/-! ### The walk -/

mutual

theorem below_of_mem_scopePlaces : ∀ (n : Node) (steps : List Step) {p : Place},
    p ∈ scopePlaces steps n → Place.Below ⟨n, steps⟩ p
  | ⟨info, children⟩, steps, p, hp => by
    unfold scopePlaces at hp
    rcases List.mem_append.mp hp with hp | hp
    · split at hp
      · rw [List.mem_singleton.mp hp]
        exact .refl
      · exact absurd hp List.not_mem_nil
    · split at hp
      · exact below_of_mem_scopePlacesBelow children steps _ 0 _ rfl hp
      · exact absurd hp List.not_mem_nil

theorem below_of_mem_scopePlacesBelow : ∀ (cs : List Node) (steps : List Step) (parent : Node)
    (index : Nat) (skipsName : Bool) {p : Place},
    parent.children.drop index = cs →
    p ∈ scopePlacesBelow steps parent index skipsName cs → Place.Below ⟨parent, steps⟩ p
  | [], _, _, _, _, _, _, hp => absurd hp List.not_mem_nil
  | c :: cs, steps, parent, index, skipsName, p, hcs, hp => by
    obtain ⟨hc, hcs'⟩ := Place.Below.of_drop hcs
    unfold scopePlacesBelow at hp
    rcases List.mem_append.mp hp with hp | hp
    · split at hp
      · exact hc.trans (below_of_mem_scopePlaces c _ hp)
      · exact absurd hp List.not_mem_nil
    · exact below_of_mem_scopePlacesBelow cs steps parent (index + 1) _ hcs' hp

end

/-- Two siblings are not both around one place. -/
theorem not_suffix_of_sibling {i j : Nat} {path other : List Nat} (hne : i ≠ j)
    (hi : (i :: path) <:+ other) : ¬ (j :: path) <:+ other := by
  intro hj
  have heq := List.IsSuffix.eq_of_length (List.suffix_of_suffix_length_le hi hj (Nat.le_refl _)) rfl
  exact hne (List.cons.inj heq).1

theorem not_cons_suffix (i : Nat) (path : List Nat) : ¬ (i :: path) <:+ path := by
  intro h
  have hle := h.length_le
  rw [List.length_cons] at hle
  omega

theorem outwards_of_builds {b b' : Bindings} (h : Builds b b') {id : ScopeId}
    (hid : id < b.scopes.length) : b'.outwards id = b.outwards id := by
  induction h with
  | refl => rfl
  | declare h hd ih => rw [(Declares.one hd).outwards, ih]
  | @openScope b' kind around range h _ ih =>
    rw [← ih]
    refine Bindings.outwards_congr fun s hs => ?_
    unfold Bindings.openScope Bindings.scope?
    rw [List.getElem?_append_left
      (Nat.lt_of_le_of_lt hs (Nat.lt_of_lt_of_le hid h.length_scopes_le))]

mutual

/-- Walking over a node adds the scopes of the places at and below it. It is walked in the scope
that is the innermost one around it, and none of the places at or below it has been met before. -/
theorem walk_owned (source : List Char) : ∀ (n : Node) (steps : List Step) (scope : ScopeId)
    (b : Bindings) (owners : List Place), Owned b owners → scope < b.scopes.length →
    b.outwards scope = scopesAround owners (steps.map (·.index)) →
    (∀ q ∈ owners, ¬ steps.map (·.index) <:+ q.path) →
      Owned (walk source steps scope b n) (owners ++ scopePlaces steps n)
  | ⟨info, children⟩, steps, scope, b, owners, howned, hscope, houtwards, hfresh => by
    unfold walk scopePlaces
    dsimp only
    cases hopening : opening? ⟨⟨info, children⟩, steps⟩ with
    | none =>
      have h := enter_stays source hscope hopening
      have howned' := howned.declares h.declares
      rw [Option.isSome_none, if_neg Bool.false_ne_true, List.nil_append, h.scope, h.skipsName]
      by_cases hdescends : (form info.kind).descends = true
      · rw [if_pos hdescends, if_pos hdescends]
        refine walkBelow_owned source children steps _ 0 scope _ _ owners howned' ?_ ?_ ?_
        · rwa [h.declares.length_scopes]
        · rw [h.declares.outwards, houtwards]
        · exact fun q hq j _ hj => hfresh q hq ((List.suffix_cons j _).trans hj)
      · rw [if_neg hdescends, if_neg hdescends, List.append_nil]
        exact howned'
    | some kind =>
      have h := enter_opens source hscope hopening
      obtain ⟨b', hbefore, hafter⟩ := h.declares
      have hscope' : scope < b'.scopes.length := by rwa [hbefore.length_scopes]
      have hopened : Owned (openFor b' kind scope ⟨info, children⟩)
          (owners ++ [⟨⟨info, children⟩, steps⟩]) :=
        (howned.declares hbefore).openFor ⟨⟨info, children⟩, steps⟩ hscope'
          (by rw [hbefore.outwards, houtwards]; rfl) hfresh
      have howned' := hopened.declares hafter
      rw [Option.isSome_some, if_pos rfl, h.scope, h.skipsName]
      by_cases hdescends : (form info.kind).descends = true
      · rw [if_pos hdescends, if_pos hdescends, ← List.append_assoc]
        refine walkBelow_owned source children steps _ 0 _ _ _ _ howned' ?_ ?_ ?_
        · rw [hafter.length_scopes, ← hbefore.length_scopes]
          exact lt_length_openFor _ _ _ _
        · have hlast : (owners ++ [⟨⟨info, children⟩, steps⟩])[b.scopes.length]? =
              some ⟨⟨info, children⟩, steps⟩ := by
            rw [howned.length, List.getElem?_concat_length]
          exact howned'.outwards hlast
        · intro q hq j _ hj
          rcases List.mem_append.mp hq with hq | hq
          · exact hfresh q hq ((List.suffix_cons j _).trans hj)
          · rw [List.mem_singleton.mp hq] at hj
            exact not_cons_suffix _ _ hj
      · rw [if_neg hdescends, if_neg hdescends, List.append_nil]
        exact howned'

theorem walkBelow_owned (source : List Char) : ∀ (cs : List Node) (steps : List Step)
    (parent : Node) (index : Nat) (scope : ScopeId) (skipsName : Bool) (b : Bindings)
    (owners : List Place), Owned b owners → scope < b.scopes.length →
    b.outwards scope = scopesAround owners (steps.map (·.index)) →
    (∀ q ∈ owners, ∀ j, index ≤ j → ¬ (j :: steps.map (·.index)) <:+ q.path) →
      Owned (walkBelow source steps parent index scope skipsName b cs)
        (owners ++ scopePlacesBelow steps parent index skipsName cs)
  | [], _, _, _, _, _, _, owners, howned, _, _, _ => by
    unfold walkBelow scopePlacesBelow
    rwa [List.append_nil]
  | c :: cs, steps, parent, index, scope, skipsName, b, owners, howned, hscope, houtwards,
      hfresh => by
    unfold walkBelow scopePlacesBelow
    extract_lets isName b'
    rw [← List.append_assoc]
    have hnew : ∀ q ∈ (if c.isNamed && !isName then scopePlaces (⟨parent, index⟩ :: steps) c
        else []), (index :: steps.map (·.index)) <:+ q.path := by
      intro q hq
      split at hq
      · exact (below_of_mem_scopePlaces c _ hq).suffix
      · exact absurd hq List.not_mem_nil
    have hbuilds : Builds b b' := by
      unfold b'
      split
      · exact walk_builds c _ scope b hscope
      · exact .refl
    have howned' : Owned b' (owners ++ if c.isNamed && !isName then
        scopePlaces (⟨parent, index⟩ :: steps) c else []) := by
      unfold b'
      split
      · refine walk_owned source c _ scope b owners howned hscope ?_ fun q hq =>
          hfresh q hq index (Nat.le_refl _)
        rw [houtwards]
        refine (scopesAround_cons_of_none fun q hq hpath => ?_).symm
        exact hfresh q hq index (Nat.le_refl _) (hpath ▸ List.suffix_refl _)
      · rwa [List.append_nil]
    -- the scopes of the first child are not around its siblings
    refine walkBelow_owned source cs steps parent _ scope _ b' _ howned'
      (Nat.lt_of_lt_of_le hscope hbuilds.length_scopes_le) ?_ fun q hq j hj => ?_
    · rw [outwards_of_builds hbuilds hscope, houtwards, scopesAround_append]
      exact fun q hq hsuffix => not_cons_suffix _ _ ((hnew q hq).trans hsuffix)
    · rcases List.mem_append.mp hq with hq | hq
      · exact hfresh q hq j (Nat.le_of_succ_le hj)
      · exact not_suffix_of_sibling (Nat.ne_of_lt hj) (hnew q hq)

end

theorem programScope_owned (root : Node) : Owned (programScope root) [.ofRoot root] := by
  have hfirst : ∀ {id : ScopeId} {p : Place}, [Place.ofRoot root][id]? = some p →
      id = 0 ∧ p = .ofRoot root := by
    intro id p hp
    have hlt := (List.getElem?_eq_some_iff.mp hp).1
    exact ⟨Nat.lt_one_iff.mp hlt, List.mem_singleton.mp (List.mem_of_getElem? hp)⟩
  refine ⟨rfl, fun {id p} hp => ?_, fun {id p} hp => ?_⟩
  · obtain ⟨rfl, rfl⟩ := hfirst hp
    rfl
  · obtain ⟨rfl, rfl⟩ := hfirst hp
    have hpath : (Place.ofRoot root).path = [] := rfl
    rw [Bindings.outwards, hpath, scopesAround_nil]
    rfl

/-- The scopes of a document belong to the root and to the places that the walk opens one for. -/
theorem bind_owned (root : Node) (source : List Char) :
    Owned (bind root source) (scopeOwners root) := by
  refine walkBelow_owned source root.children [] root 0 0 false _ [.ofRoot root]
    (programScope_owned root) Nat.zero_lt_one ?_ ?_
  · have hfirst : [Place.ofRoot root][0]? = some (.ofRoot root) := rfl
    exact (programScope_owned root).outwards hfirst
  · intro q hq j _ hj
    rw [List.mem_singleton.mp hq] at hj
    exact not_cons_suffix _ _ hj

/-! ### The places in the tree -/

/-- The owners of scopes are places of the tree. -/
theorem at?_of_mem_scopeOwners {root : Node} {p : Place} (hp : p ∈ scopeOwners root) :
    root.at? p.path = some p.node := by
  have hbelow : Place.Below (.ofRoot root) p := by
    rcases List.mem_cons.mp hp with rfl | hp
    · exact .refl
    · exact below_of_mem_scopePlacesBelow root.children [] root 0 false
        rfl hp
  exact hbelow.at? rfl

end UtsInsight.Binder

namespace UtsInsight

mutual

theorem below_of_mem_checkedPlaces : ∀ (n : Node) (steps : List Step) {p : Place},
    p ∈ n.checkedPlaces steps → Place.Below ⟨n, steps⟩ p
  | ⟨info, children⟩, steps, p, hp => by
    unfold Node.checkedPlaces at hp
    split at hp
    · exact absurd hp List.not_mem_nil
    · rcases List.mem_cons.mp hp with rfl | hp
      · exact .refl
      · exact below_of_mem_checkedBelow children steps _ 0 rfl hp

theorem below_of_mem_checkedBelow : ∀ (cs : List Node) (steps : List Step) (parent : Node)
    (index : Nat) {p : Place}, parent.children.drop index = cs →
    p ∈ checkedBelow steps parent index cs → Place.Below ⟨parent, steps⟩ p
  | [], _, _, _, _, _, hp => absurd hp List.not_mem_nil
  | c :: cs, steps, parent, index, p, hcs, hp => by
    obtain ⟨hc, hcs'⟩ := Place.Below.of_drop hcs
    unfold checkedBelow at hp
    rcases List.mem_append.mp hp with hp | hp
    · split at hp
      · exact hc.trans (below_of_mem_checkedPlaces c _ hp)
      · exact absurd hp List.not_mem_nil
    · exact below_of_mem_checkedBelow cs steps parent (index + 1) hcs' hp

end

theorem at?_of_mem_checkedPlaces {root : Node} {p : Place} (hp : p ∈ root.checkedPlaces []) :
    root.at? p.path = some p.node :=
  (below_of_mem_checkedPlaces root [] hp).at? rfl

end UtsInsight
