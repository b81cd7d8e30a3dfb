import UtsInsight.Proofs.Scope.Index
import UtsInsight.Proofs.Scope.Owners
import UtsInsight.Proofs.Typing.Finished

/-!
# Look-up by offset and lexical scoping

Lexical scoping walks from a place out through the ancestors that have scopes. Look-up knows only
the offset where the place starts, and begins at the shortest range that contains the offset, both
ends included; of equally short ranges it takes the last. The two agree unless a scope that is not
around the place is preferred to those that are.

In a well-formed tree the ranges around a place are nested, and of equal ones the inner is the
later, so no scope around the place is ever preferred to the innermost one. What can intrude on a
name with characters is only a scope that ends where the name starts: a range does not contain its
end, but look-up takes it to.
-/
namespace UtsInsight

/-- The range of the scope contains the offset, both ends included. -/
def Scope.Reaches (s : Scope) (offset : Nat) : Prop :=
  s.range.start ≤ offset ∧ offset ≤ s.range.stop

/-- The first scope is preferred to the second: it is shorter, or as short and not earlier. -/
def Scope.Preferred (id : ScopeId) (s : Scope) (id' : ScopeId) (s' : Scope) : Prop :=
  s.range.length < s'.range.length ∨ (s.range.length = s'.range.length ∧ id' ≤ id)

theorem Scope.Preferred.trans {i j k : ScopeId} {s t u : Scope} (h : s.Preferred i j t)
    (h' : t.Preferred j k u) : s.Preferred i k u := by
  rcases h with hlt | ⟨heq, hle⟩
  · rcases h' with hlt' | ⟨heq', _⟩
    · exact .inl (Nat.lt_trans hlt hlt')
    · exact .inl (heq' ▸ hlt)
  · rcases h' with hlt' | ⟨heq', hle'⟩
    · exact .inl (heq ▸ hlt')
    · exact .inr ⟨heq.trans heq', Nat.le_trans hle' hle⟩

theorem Scope.Preferred.antisymm {i j : ScopeId} {s t : Scope} (h : s.Preferred i j t)
    (h' : t.Preferred j i s) : i = j := by
  rcases h with hlt | ⟨heq, hle⟩
  · rcases h' with hlt' | ⟨heq', _⟩
    · exact absurd hlt' (Nat.lt_asymm hlt)
    · exact absurd heq' (Nat.ne_of_gt hlt)
  · rcases h' with hlt' | ⟨_, hle'⟩
    · exact absurd heq (Nat.ne_of_gt hlt')
    · exact Nat.le_antisymm hle' hle

namespace Bindings

variable {b : Bindings} {offset : Nat}

/-! ### The innermost scope around an offset -/

/-- The scope reaches the offset and is preferred to all others that do. -/
structure Innermost (b : Bindings) (offset : Nat) (id : ScopeId) (s : Scope) : Prop where
  scope : b.scope? id = some s
  reaches : s.Reaches offset
  preferred : ∀ {id' s'}, b.scope? id' = some s' → s'.Reaches offset → s.Preferred id id' s'

theorem Innermost.unique {id id' : ScopeId} {s s' : Scope} (h : b.Innermost offset id s)
    (h' : b.Innermost offset id' s') : id = id' :=
  (h.preferred h'.scope h'.reaches).antisymm (h'.preferred h.scope h.reaches)

/-- Going through the scopes from some id on keeps the best one so far or finds one that is no
longer, and what it comes to is preferred to all that it passed. -/
theorem innermostFrom_spec (offset : Nat) (rest : List Scope) (id best : ScopeId)
    (bestLength : Nat) :
    ∃ length ≤ bestLength,
      ((innermostFrom offset best bestLength id rest = best ∧ length = bestLength) ∨
        ∃ j s, rest[j]? = some s ∧ innermostFrom offset best bestLength id rest = id + j ∧
          s.Reaches offset ∧ s.range.length = length) ∧
      ∀ j s, rest[j]? = some s → s.Reaches offset → length < s.range.length ∨
        (length = s.range.length ∧ id + j ≤ innermostFrom offset best bestLength id rest) := by
  induction rest generalizing id best bestLength with
  | nil => exact ⟨bestLength, Nat.le_refl _, .inl ⟨rfl, rfl⟩, fun j s hs => by cases hs⟩
  | cons s rest ih =>
    have hshift : ∀ j : Nat, id + 1 + j = id + (j + 1) := fun j => Nat.add_right_comm id 1 j
    unfold innermostFrom
    split
    next htaken =>
      obtain ⟨hstart, hstop, hlength⟩ := htaken
      obtain ⟨length, hle, hresult, hpassed⟩ := ih (id + 1) id s.range.length
      refine ⟨length, Nat.le_trans hle hlength, .inr ?_, fun j s' hs' hreaches => ?_⟩
      · rcases hresult with ⟨hresult, hlength'⟩ | ⟨j, s', hs', hresult, hreaches, hlength'⟩
        · exact ⟨0, s, rfl, hresult, ⟨hstart, hstop⟩, hlength'.symm⟩
        · exact ⟨j + 1, s', hs', hresult.trans (hshift j), hreaches, hlength'⟩
      · cases j with
        | succ j => exact hshift j ▸ hpassed j s' hs' hreaches
        | zero =>
          obtain rfl := Option.some.inj hs'
          -- of equally short scopes a later one is taken, so the result is not before this one
          rcases Nat.lt_or_eq_of_le hle with hlt | heq
          · exact .inl hlt
          · refine .inr ⟨heq, ?_⟩
            rcases hresult with ⟨hresult, _⟩ | ⟨j, _, _, hresult, _⟩
            · exact Nat.le_of_eq hresult.symm
            · rw [hresult, hshift]
              exact Nat.le_add_right id (j + 1)
    next hskipped =>
      obtain ⟨length, hle, hresult, hpassed⟩ := ih (id + 1) best bestLength
      refine ⟨length, hle, ?_, fun j s' hs' hreaches => ?_⟩
      · rcases hresult with hresult | ⟨j, s', hs', hresult, hreaches, hlength'⟩
        · exact .inl hresult
        · exact .inr ⟨j + 1, s', hs', hresult.trans (hshift j), hreaches, hlength'⟩
      · cases j with
        | succ j => exact hshift j ▸ hpassed j s' hs' hreaches
        | zero =>
          obtain rfl := Option.some.inj hs'
          refine .inl (Nat.lt_of_le_of_lt hle (Nat.lt_of_not_le fun hlength => ?_))
          exact hskipped ⟨hreaches.1, hreaches.2, hlength⟩

/-- Where the first scope reaches, look-up begins at the innermost scope. -/
theorem scopeAt_innermost {first : Scope} (hfirst : b.scope? 0 = some first)
    (hreaches : first.Reaches offset) :
    ∃ s, b.Innermost offset (b.scopeAt offset) s := by
  unfold scope? at hfirst
  unfold scopeAt
  split
  next hnil => rw [hnil] at hfirst; cases hfirst
  next s rest hscopes =>
    obtain rfl : s = first := by rw [hscopes] at hfirst; exact Option.some.inj hfirst
    obtain ⟨length, _, hresult, hpassed⟩ := innermostFrom_spec offset b.scopes 0 0 s.range.length
    have hfound : ∃ s', b.scope? (innermostFrom offset 0 s.range.length 0 b.scopes) = some s' ∧
        s'.Reaches offset ∧ s'.range.length = length := by
      rcases hresult with ⟨hresult, hlength⟩ | ⟨j, s', hs', hresult, hreaches', hlength⟩
      · exact ⟨s, by rw [hresult]; exact hfirst, hreaches, hlength.symm⟩
      · exact ⟨s', by rw [hresult, Nat.zero_add]; exact hs', hreaches', hlength⟩
    obtain ⟨s', hs', hreaches', rfl⟩ := hfound
    refine ⟨s', hs', hreaches', fun {id t} ht htreaches => ?_⟩
    rcases hpassed id t ht htreaches with hlt | ⟨heq, hle⟩
    · exact .inl hlt
    · exact .inr ⟨heq, Nat.zero_add id ▸ hle⟩

/-! ### Scopes that intrude -/

/-- A scope that is not around a place contains the offset and is preferred to those that are. -/
structure Intrudes (b : Bindings) (around : List ScopeId) (offset : Nat) (id : ScopeId)
    (s : Scope) : Prop where
  outside : id ∉ around
  scope : b.scope? id = some s
  reaches : s.Reaches offset
  preferred : ∀ i ∈ around, ∀ s', b.scope? i = some s' → s.Preferred id i s'

/-- Scopes that contain an offset, from the inside out: the first one is preferred to all others. -/
structure Around (b : Bindings) (around : List ScopeId) (offset : Nat) (home : ScopeId)
    (s : Scope) : Prop where
  outwards : b.outwards home = around
  scope : b.scope? home = some s
  reaches : ∀ i ∈ around, ∀ s', b.scope? i = some s' → s'.Reaches offset
  preferred : ∀ i ∈ around, ∀ s', b.scope? i = some s' → s.Preferred home i s'

theorem scopeChain_eq_outwards {id : ScopeId} {s : Scope} (h : b.scope? id = some s) :
    b.scopeChain offset = b.outwards (b.scopeAt offset) := by
  unfold scopeChain
  rw [if_neg]
  intro hempty
  rw [scope?, List.isEmpty_iff.mp hempty] at h
  cases h

/-- Look-up by offset begins in the scopes around a place just if no other scope intrudes. -/
theorem Around.scopeChain_eq_iff {around : List ScopeId} {home : ScopeId} {s first : Scope}
    (h : b.Around around offset home s) (hfirst : b.scope? 0 = some first)
    (hreaches : first.Reaches offset) :
    b.scopeChain offset = around ↔ ∀ id s', ¬ b.Intrudes around offset id s' := by
  obtain ⟨s₀, hinnermost⟩ := scopeAt_innermost hfirst hreaches
  rw [scopeChain_eq_outwards hfirst]
  constructor
  · intro hchain id s' hintrudes
    have hmem : b.scopeAt offset ∈ around := hchain ▸ b.mem_outwards_self _
    have hid : b.Innermost offset id s' := by
      refine ⟨hintrudes.scope, hintrudes.reaches, fun {i t} ht htreaches => ?_⟩
      exact (hintrudes.preferred _ hmem s₀ hinnermost.scope).trans
        (hinnermost.preferred ht htreaches)
    exact hintrudes.outside (hid.unique hinnermost ▸ hmem)
  · intro hnone
    have hmem : b.scopeAt offset ∈ around := by
      by_contra houtside
      exact hnone _ s₀ ⟨houtside, hinnermost.scope, hinnermost.reaches,
        fun i hi s' hs' => hinnermost.preferred hs' (h.reaches i hi s' hs')⟩
    have hhome : b.Innermost offset home s := by
      have hself : home ∈ around := h.outwards ▸ b.mem_outwards_self home
      refine ⟨h.scope, h.reaches home hself s h.scope, fun {i t} ht htreaches => ?_⟩
      exact (h.preferred _ hmem s₀ hinnermost.scope).trans (hinnermost.preferred ht htreaches)
    rw [hinnermost.unique hhome, h.outwards]

end Bindings

/-! ### Scopes in a well-formed tree -/

namespace Binder

variable {root : Node} {source : List Char} {b : Bindings} {owners : List Place} {p : Place}

theorem range_length_le (hroot : root.WellFormed) {n c : Node} {path inner : List Nat}
    (hpath : path <:+ inner) (hn : root.at? path = some n) (hc : root.at? inner = some c) :
    c.range.length ≤ n.range.length := by
  obtain ⟨hstart, hstop⟩ := hroot.contains hpath hn hc
  exact Nat.le_trans (Nat.sub_le_sub_right hstop c.start) (Nat.sub_le_sub_left hstart n.stop)

/-- The scopes of a place and its ancestors contain its start. -/
theorem reaches_of_suffix (hroot : root.WellFormed) (howned : Owned b (scopeOwners root))
    (hp : root.at? p.path = some p.node) {id : ScopeId} {s : Scope} {q : Place}
    (hq : (scopeOwners root)[id]? = some q) (hs : b.scope? id = some s)
    (hsuffix : q.path <:+ p.path) : s.Reaches p.node.start := by
  have hq' := at?_of_mem_scopeOwners (List.mem_of_getElem? hq)
  obtain ⟨hstart, hstop⟩ := hroot.contains hsuffix hq' hp
  rw [Scope.Reaches, howned.scope_range hq hs]
  exact ⟨hstart, Nat.le_trans (hroot.nested hp).1 hstop⟩

/-- Of the scopes of a place and its ancestors the innermost is preferred to the others: its range
is no longer than theirs, and it was opened after them. -/
theorem around_of_wellFormed (hroot : root.WellFormed) (howned : Owned b (scopeOwners root))
    (hp : root.at? p.path = some p.node) :
    ∃ home s, b.Around (scopesAround (scopeOwners root) p.path) p.node.start home s := by
  have hfirst : scopeOf? (scopeOwners root) [] = some 0 := rfl
  obtain ⟨home, q, hq, haround⟩ := exists_innermost_owner hfirst p.path
  have houtwards := (howned.outwards hq).trans haround
  obtain ⟨s, hs, hrange⟩ := howned.exists_scope hq
  refine ⟨home, s, houtwards, hs, fun i hi s' hs' => ?_, fun i hi s' hs' => ?_⟩
  · obtain ⟨r, hr, hsuffix⟩ := Binder.mem_scopesAround hi
    exact reaches_of_suffix hroot howned hp hr hs' hsuffix
  · have hle : i ≤ home := Bindings.le_of_mem_outwards (houtwards ▸ hi)
    obtain ⟨r, hr, hsuffix⟩ := Binder.mem_scopesAround (haround ▸ hi)
    have hlength := range_length_le hroot hsuffix
      (at?_of_mem_scopeOwners (List.mem_of_getElem? hr))
      (at?_of_mem_scopeOwners (List.mem_of_getElem? hq))
    rw [← hrange, ← howned.scope_range hr hs'] at hlength
    rcases Nat.lt_or_eq_of_le hlength with hlt | heq
    · exact .inl hlt
    · exact .inr ⟨heq, hle⟩

/-- A scope that intrudes on a name is of a construct that ends just before it. -/
theorem stop_eq_start_of_intrudes (hroot : root.WellFormed) (howned : Owned b (scopeOwners root))
    (hp : root.at? p.path = some p.node) (hleaf : p.node.children = [])
    (hlength : p.node.start < p.node.stop) {id : ScopeId} {s : Scope} {q : Place}
    (h : b.Intrudes (scopesAround (scopeOwners root) p.path) p.node.start id s)
    (hq : (scopeOwners root)[id]? = some q) : q.node.stop = p.node.start := by
  have hq' := at?_of_mem_scopeOwners (List.mem_of_getElem? hq)
  have houtside : ¬ q.path <:+ p.path := fun hsuffix =>
    h.outside (scopesAround_subset hsuffix (howned.mem_scopesAround hq))
  have hinside : ¬ p.path <:+ q.path := fun hsuffix =>
    houtside (Node.path_eq_of_leaf hp hleaf hq' hsuffix ▸ List.suffix_refl _)
  -- the two places lie apart, so their ranges can only touch
  have hreaches := h.reaches
  rw [Scope.Reaches, howned.scope_range hq h.scope] at hreaches
  rcases hroot.apart hq' hp houtside hinside with hbefore | hafter
  · exact Nat.le_antisymm hbefore hreaches.2
  · exact absurd (Nat.le_trans hafter hreaches.1) (Nat.not_le_of_lt hlength)

/-- What lexical scoping finds for a name at a path: the first declaration of the name in the
innermost scope around the path that has one. -/
def lexical? (root : Node) (source : List Char) (path : List Nat) (name : String) (space : Space) :
    Option DeclId :=
  (scopesAround (scopeOwners root) path).findSome? ((bind root source).firstIn name space)

/-- Looking up a name where a place starts is lexical scoping from the place, unless a scope that is
not around the place intrudes. On a name with characters only a scope intrudes that ends where the
name starts. Whatever the case, look-up is lexical scoping from the place that the preferred scope
belongs to. -/
theorem bind_resolve_lexical (root : Node) (source : List Char) (hroot : root.WellFormed)
    {p : Place} (hp : p ∈ root.checkedPlaces []) :
    let b := bind root source
    let finished := b.resolveTypes root source
    let owners := scopeOwners root
    let around := scopesAround owners p.path
    b.scopes.map (·.range) = owners.map (·.node.range) ∧
    (b.scopeChain p.node.start = around ↔ ∀ id s, ¬ b.Intrudes around p.node.start id s) ∧
    ((∀ id s, ¬ b.Intrudes around p.node.start id s) → ∀ name space,
      finished.resolve name p.node.start space = lexical? root source p.path name space) ∧
    (p.node.children = [] → p.node.start < p.node.stop → ∀ id s q,
      b.Intrudes around p.node.start id s → owners[id]? = some q →
        q.node.stop = p.node.start) ∧
    ∃ q, owners[b.scopeAt p.node.start]? = some q ∧ ∀ name space,
      finished.resolve name p.node.start space = lexical? root source q.path name space := by
  intro b finished owners around
  have howned : Owned b owners := bind_owned root source
  have hplace : root.at? p.path = some p.node := at?_of_mem_checkedPlaces hp
  obtain ⟨home, s, haround⟩ := around_of_wellFormed hroot howned hplace
  have hroot' : owners[0]? = some (.ofRoot root) := rfl
  obtain ⟨first, hfirst, _⟩ := howned.exists_scope hroot'
  have hreaches := reaches_of_suffix hroot howned hplace hroot' hfirst List.nil_suffix
  have hchain := haround.scopeChain_eq_iff hfirst hreaches
  have hresolve : ∀ name space, finished.resolve name p.node.start space =
      (b.scopeChain p.node.start).findSome? (b.firstIn name space) := by
    intro name space
    rw [Bindings.resolveTypes_resolve, (bind_indexed root source).resolve_eq_findSome?]
  refine ⟨howned.map_range, hchain, fun hnone name space => ?_, fun hleaf hlength id s q => ?_, ?_⟩
  · rw [hresolve, hchain.mpr hnone]
    rfl
  · exact stop_eq_start_of_intrudes hroot howned hplace hleaf hlength
  · obtain ⟨s₀, hinnermost⟩ := Bindings.scopeAt_innermost hfirst hreaches
    have hlt : b.scopeAt p.node.start < owners.length :=
      howned.length ▸ (List.getElem?_eq_some_iff.mp hinnermost.scope).1
    have hq := List.getElem?_eq_getElem hlt
    refine ⟨owners[b.scopeAt p.node.start], hq, fun name space => ?_⟩
    rw [hresolve, Bindings.scopeChain_eq_outwards hfirst, howned.outwards hq]
    rfl

end Binder

section

open Node

/-- `{ let x = 1; }x;`, where the last name stands right behind the block. -/
def behindBlockText : List Char :=
  "\x7b let x = 1; \x7dx;".toList

def behindBlock : Node :=
  construct "identifier" 14 15 none []

def behindBlockTree : Node :=
  construct "program" 0 16 none
    [construct "statement_block" 0 14 none
      [token "\x7b" 0 1 none,
        construct "lexical_declaration" 2 12 none
          [token "let" 2 5 (some "kind"),
            construct "variable_declarator" 6 11 none
              [construct "identifier" 6 7 (some "name") [], token "=" 8 9 none,
                construct "number" 10 11 (some "value") []],
            token ";" 11 12 none],
        token "\x7d" 13 14 none],
    construct "expression_statement" 14 16 none [behindBlock, token ";" 15 16 none]]

/-- The scope of the block intrudes on the name behind it, so that look-up finds the variable of the
block, which lexical scoping does not. Inside the block nothing intrudes. -/
theorem bind_resolve_lexical_behindBlock :
    let b := Binder.bind behindBlockTree behindBlockText
    (∃ s, b.Intrudes [0] 14 1 s) ∧ b.scopeChain 14 ≠ [0] ∧ b.resolve "x" 14 .value = some 0 ∧
      Binder.lexical? behindBlockTree behindBlockText [0, 1] "x" .value = none ∧
      ∀ id s, ¬ b.Intrudes [1, 0] 6 id s := by
  intro b
  have hwellFormed : behindBlockTree.WellFormed := by decide +kernel
  obtain ⟨p, hp, hnode, hpath⟩ : ∃ p ∈ behindBlockTree.checkedPlaces [],
      p.node = behindBlock ∧ p.path = [0, 1] :=
    ⟨_, List.mem_of_getElem? (i := 7) rfl, rfl, rfl⟩
  obtain ⟨name, hname, hstart, haround⟩ : ∃ name ∈ behindBlockTree.checkedPlaces [],
      name.node.start = 6 ∧ Binder.scopesAround (Binder.scopeOwners behindBlockTree) name.path =
        [1, 0] :=
    ⟨_, List.mem_of_getElem? (i := 4) rfl, rfl, by decide +kernel⟩
  have hscope : b.scope? 1 = some ⟨.block, some 0, ⟨0, 14⟩, [0], [("x", [0])]⟩ := by
    decide +kernel
  have hprogram : (b.scope? 0).map (·.range) = some ⟨0, 16⟩ := by decide +kernel
  have hintrudes : b.Intrudes [0] 14 1 ⟨.block, some 0, ⟨0, 14⟩, [0], [("x", [0])]⟩ := by
    refine ⟨by decide, hscope, ⟨by decide, by decide⟩, fun i hi s' hs' => .inl ?_⟩
    obtain rfl : i = 0 := List.mem_singleton.mp hi
    have hrange : s'.range = ⟨0, 16⟩ := by
      rw [hs'] at hprogram
      exact Option.some.inj hprogram
    rw [hrange]
    decide
  have hbehind := Binder.bind_resolve_lexical behindBlockTree behindBlockText hwellFormed hp
  rw [hnode, hpath] at hbehind
  have hinside :=
    (Binder.bind_resolve_lexical behindBlockTree behindBlockText hwellFormed hname).2.1
  rw [hstart, haround] at hinside
  exact ⟨⟨_, hintrudes⟩, fun hchain => hbehind.2.1.mp hchain 1 _ hintrudes, by decide +kernel,
    by decide +kernel, hinside.mp (by decide +kernel)⟩

end

end UtsInsight
