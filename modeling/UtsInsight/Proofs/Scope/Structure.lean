import Mathlib.Data.List.Nodup
import UtsInsight.Proofs.Scope.Lexical
import UtsInsight.Proofs.Scope.Sites

/-!
# The shape of the bindings

The scopes of a document form a tree, opened from the outside in, and their ranges are nested like
the constructs that they belong to. The lists of the scopes divide the declarations among them, and
the index of a scope agrees with its list. Since parents come before their children, climbing from
the scope at an offset ends, and it ends in the scope of the program.
-/
namespace UtsInsight

namespace Bindings

variable {b b' : Bindings}

/-! ### The tree of scopes -/

/-- The scopes form a tree with the first one as its root. Every other scope was opened after the
scope around it and covers a part of its range. -/
structure ScopeTree (b : Bindings) : Prop where
  root : ∃ s, b.scope? 0 = some s ∧ s.parent = none
  parent : ∀ {id s}, b.scope? id = some s → id ≠ 0 →
    ∃ around outer, s.parent = some around ∧ around < id ∧ b.scope? around = some outer ∧
      outer.range.start ≤ s.range.start ∧ s.range.stop ≤ outer.range.stop

/-- Every scope but the first has a parent that was opened before it. -/
def ParentsFirst (b : Bindings) : Prop :=
  ∀ id s, b.scope? id = some s → id = 0 ∨ ∃ around, s.parent = some around ∧ around < id

theorem ParentsFirst.builds (h : b.ParentsFirst) (hbuilds : Builds b b') : b'.ParentsFirst := by
  induction hbuilds with
  | refl => exact h
  | declare _ hd ih =>
    intro id s hs
    rw [scope?_declare] at hs
    obtain ⟨s₀, hs₀, rfl⟩ := Option.map_eq_some_iff.mp hs
    have hparent := ih id s₀ hs₀
    split
    · exact hparent
    · exact hparent
  | @openScope b₀ kind around range _ haround ih =>
    intro id s hs
    have hs' : (b₀.scopes ++ [⟨kind, some around, range, [], []⟩])[id]? = some s := hs
    rcases Nat.lt_or_ge id b₀.scopes.length with hid | hid
    · rw [List.getElem?_append_left hid] at hs'
      exact ih id s hs'
    · rw [List.getElem?_append_right hid] at hs'
      obtain rfl := List.mem_singleton.mp (List.mem_of_getElem? hs')
      exact .inr ⟨around, rfl, Nat.lt_of_lt_of_le haround hid⟩

/-! ### Lists of declarations -/

/-- The lists of the scopes hold every declaration once, in its own scope and in order, and the
index of a scope holds of its list what has a name. -/
structure Lists (b : Bindings) : Prop where
  once : (b.scopes.flatMap (·.declarations)).Perm (List.range b.declarations.length)
  own : ∀ {id s}, b.scope? id = some s →
    ∀ i, i ∈ s.declarations ↔ ∃ d, b.declaration? i = some d ∧ d.scope = id
  ascending : ∀ {id s}, b.scope? id = some s → s.declarations.Pairwise (· < ·)
  index : ∀ {id s}, b.scope? id = some s → ∀ name,
    s.names.ids name = s.declarations.filter fun i => (b.declaration? i).any (·.name == name)

/-- The list of every scope holds the declarations that name the scope as theirs. -/
def Listed (b : Bindings) : Prop :=
  ∀ id s, b.scope? id = some s → s.declarations = b.idsWhere (·.scope == id)

theorem Listed.builds (h : b.Listed) (hindexed : b.Indexed) (hbuilds : Builds b b') :
    b'.Listed := by
  induction hbuilds with
  | refl => exact h
  | @declare b₀ d _ hd ih =>
    intro id s hs
    rw [scope?_declare] at hs
    obtain ⟨s₀, hs₀, rfl⟩ := Option.map_eq_some_iff.mp hs
    rw [idsWhere_declare, ← ih id s₀ hs₀]
    by_cases hid : d.scope = id
    · rw [if_pos hid, if_pos (beq_iff_eq.mpr hid)]
    · rw [if_neg hid, if_neg (mt beq_iff_eq.mp hid), List.append_nil]
  | @openScope b₀ kind around range hbefore _ ih =>
    intro id s hs
    have hs' : (b₀.scopes ++ [⟨kind, some around, range, [], []⟩])[id]? = some s := hs
    rcases Nat.lt_or_ge id b₀.scopes.length with hid | hid
    · rw [List.getElem?_append_left hid] at hs'
      exact ih id s hs'
    · rw [List.getElem?_append_right hid] at hs'
      obtain rfl := List.mem_singleton.mp (List.mem_of_getElem? hs')
      refine (idsWhere_eq_nil fun d hd => ?_ : b₀.idsWhere (·.scope == id) = []).symm
      have hlt := (hindexed.builds hbefore).scope d hd
      exact beq_false_of_ne (Nat.ne_of_lt (Nat.lt_of_lt_of_le hlt hid))

theorem mem_idsWhere {P : Declaration → Bool} {i : DeclId} :
    i ∈ b.idsWhere P ↔ ∃ d, b.declaration? i = some d ∧ P d := by
  unfold idsWhere
  rw [List.mem_filter, List.mem_range, Option.any_eq_true]
  refine ⟨fun h => h.2, fun ⟨d, hd, hP⟩ => ⟨?_, d, hd, hP⟩⟩
  exact (List.getElem?_eq_some_iff.mp hd).1

theorem Listed.lists (h : b.Listed) (hindexed : b.Indexed) : b.Lists := by
  have hown : ∀ {id s}, b.scope? id = some s →
      ∀ i, i ∈ s.declarations ↔ ∃ d, b.declaration? i = some d ∧ d.scope = id := by
    intro id s hs i
    rw [h id s hs, mem_idsWhere]
    simp only [beq_iff_eq]
  have hascending : ∀ {id s}, b.scope? id = some s → s.declarations.Pairwise (· < ·) := by
    intro id s hs
    rw [h id s hs]
    exact List.pairwise_lt_range.filter _
  refine ⟨?_, hown, hascending, fun {id s} hs name => ?_⟩
  · refine (List.perm_ext_iff_of_nodup ?_ List.nodup_range).mpr fun i => ?_
    · refine List.nodup_flatMap.mpr ⟨fun s hs => ?_, List.pairwise_iff_getElem.mpr ?_⟩
      · obtain ⟨id, hid, rfl⟩ := List.getElem_of_mem hs
        exact (hascending (List.getElem?_eq_getElem hid)).imp Nat.ne_of_lt
      · intro id id' hid hid' hlt i hi hi'
        obtain ⟨d, hd, hscope⟩ := (hown (List.getElem?_eq_getElem hid) i).mp hi
        obtain ⟨d', hd', hscope'⟩ := (hown (List.getElem?_eq_getElem hid') i).mp hi'
        obtain rfl := Option.some.inj (hd.symm.trans hd')
        exact Nat.ne_of_lt hlt (hscope.symm.trans hscope')
    · rw [List.mem_flatMap, List.mem_range]
      constructor
      · rintro ⟨s, hs, hi⟩
        obtain ⟨id, hid, rfl⟩ := List.getElem_of_mem hs
        obtain ⟨d, hd, _⟩ := (hown (List.getElem?_eq_getElem hid) i).mp hi
        exact (List.getElem?_eq_some_iff.mp hd).1
      · intro hi
        have hd : b.declaration? i = some b.declarations[i] := List.getElem?_eq_getElem hi
        have hscope := hindexed.scope _ (List.getElem_mem hi)
        exact ⟨_, List.getElem_mem hscope,
          (hown (List.getElem?_eq_getElem hscope) i).mpr ⟨_, hd, rfl⟩⟩
  · rw [h id s hs, hindexed.ids hs, idsWhere, declaredIds, List.filter_filter]
    refine List.filter_congr fun i _ => ?_
    cases b.declaration? i with
    | none => rfl
    | some d => exact Bool.and_comm _ _

/-! ### Climbing -/

/-- The scopes that are met from a scope on when parents are followed as long as there are some. -/
inductive Climbs (b : Bindings) : ScopeId → List ScopeId → Prop
  | last {id : ScopeId} (h : (b.scope? id).bind (·.parent) = none) : Climbs b id [id]
  | step {id around : ScopeId} {chain : List ScopeId}
    (h : (b.scope? id).bind (·.parent) = some around) (hchain : Climbs b around chain) :
    Climbs b id (id :: chain)

/-- In a tree of scopes climbing ends in the first one, with smaller ids on the way. -/
theorem ScopeTree.climbs (h : b.ScopeTree) {id : ScopeId} (hid : id < b.scopes.length) :
    b.Climbs id (b.outwards id) ∧ (b.outwards id).Pairwise (· > ·) ∧
      (b.outwards id).getLast? = some 0 := by
  induction id using Nat.strongRecOn with
  | ind id ih =>
    have hs : b.scope? id = some b.scopes[id] := List.getElem?_eq_getElem hid
    unfold outwards
    by_cases hzero : id = 0
    · obtain ⟨s, hs', hparent⟩ := h.root
      have hnone : (b.scope? id).bind (·.parent) = none := by
        rw [hzero, hs', Option.bind_some, hparent]
      rw [hnone]
      exact ⟨.last hnone, List.pairwise_singleton _ _, congrArg some hzero⟩
    · obtain ⟨around, outer, hparent, hlt, houter, _⟩ := h.parent hs hzero
      have hsome : (b.scope? id).bind (·.parent) = some around := by
        rw [hs, Option.bind_some, hparent]
      obtain ⟨hclimbs, hdescending, hlast⟩ := ih around hlt (List.getElem?_eq_some_iff.mp houter).1
      rw [hsome]
      dsimp only
      rw [if_pos hlt]
      refine ⟨.step hsome hclimbs, List.pairwise_cons.mpr ⟨fun s hs => ?_, hdescending⟩, ?_⟩
      · exact Nat.lt_of_le_of_lt (le_of_mem_outwards hs) hlt
      · rw [List.getLast?_cons, hlast]
        rfl

theorem scopeAt_lt (h : b.ScopeTree) (offset : Nat) : b.scopeAt offset < b.scopes.length := by
  obtain ⟨first, hfirst, _⟩ := h.root
  have hpos := (List.getElem?_eq_some_iff.mp hfirst).1
  unfold scopeAt
  split
  next hnil =>
    rw [hnil] at hpos
    exact absurd hpos (Nat.lt_irrefl 0)
  next s rest _ =>
    obtain ⟨_, _, hresult, _⟩ := innermostFrom_spec offset b.scopes 0 0 s.range.length
    rcases hresult with ⟨hresult, _⟩ | ⟨j, s', hs', hresult, _⟩
    · rw [hresult]
      exact hpos
    · rw [hresult, Nat.zero_add]
      exact (List.getElem?_eq_some_iff.mp hs').1

end Bindings

namespace Binder

variable {root : Node} {source : List Char}

theorem bind_parentsFirst (root : Node) (source : List Char) :
    (bind root source).ParentsFirst := by
  refine Bindings.ParentsFirst.builds (fun id s hs => .inl ?_) (bind_builds root source)
  exact Nat.lt_one_iff.mp (List.getElem?_eq_some_iff.mp hs).1

theorem bind_listed (root : Node) (source : List Char) : (bind root source).Listed := by
  refine Bindings.Listed.builds (fun id s hs => ?_) (programScope_indexed root)
    (bind_builds root source)
  obtain rfl := List.mem_singleton.mp (List.mem_of_getElem? hs)
  rfl

/-- The scope of the program is the first one. -/
theorem bind_first (root : Node) (source : List Char) :
    ∃ s, (bind root source).scope? 0 = some s ∧ s.parent = none ∧ s.kind = .program := by
  have hfirst := scope?_map_of_builds (fun s => (s.parent, s.kind)) (fun _ _ _ => rfl)
    (bind_builds root source) Nat.zero_lt_one
  obtain ⟨s, hs, heq⟩ := Option.map_eq_some_iff.mp hfirst
  exact ⟨s, hs, congrArg Prod.fst heq, congrArg Prod.snd heq⟩

/-- In a well-formed tree the scopes are nested like the constructs that they belong to. -/
theorem bind_scopeTree (source : List Char) (hroot : root.WellFormed) :
    (bind root source).ScopeTree := by
  obtain ⟨first, hfirst, hparent, _⟩ := bind_first root source
  refine ⟨⟨first, hfirst, hparent⟩, fun {id s} hs hne => ?_⟩
  obtain ⟨around, haround, hlt⟩ := (bind_parentsFirst root source id s hs).resolve_left hne
  have howned := bind_owned root source
  have hid : id < (scopeOwners root).length :=
    howned.length ▸ (List.getElem?_eq_some_iff.mp hs).1
  have hq := List.getElem?_eq_getElem hid
  -- the scope around is the one of an ancestor
  have hmem : around ∈ scopesAround (scopeOwners root) (scopeOwners root)[id].path := by
    have hparent : ((bind root source).scope? id).bind (·.parent) = some around := by
      rw [hs, Option.bind_some, haround]
    rw [← howned.outwards hq, Bindings.outwards, hparent]
    dsimp only
    rw [if_pos hlt]
    exact List.mem_cons_of_mem _ ((bind root source).mem_outwards_self around)
  obtain ⟨r, hr, hsuffix⟩ := mem_scopesAround hmem
  obtain ⟨outer, houter, hrange⟩ := howned.exists_scope hr
  have hcontains := hroot.contains hsuffix (at?_of_mem_scopeOwners (List.mem_of_getElem? hr))
    (at?_of_mem_scopeOwners (List.getElem_mem hid))
  refine ⟨around, outer, haround, hlt, houter, ?_⟩
  rw [hrange, howned.scope_range hq hs]
  exact hcontains

/-- A `var` is in the nearest scope around its name that is not a block. -/
theorem bind_var {id : DeclId} {d : Declaration}
    (hd : (bind root source).declaration? id = some d) (hvar : d.kind = .var) :
    ∃ n, (declaredNames root)[id]? = some n ∧ n.place.node.range = d.nameRange ∧
      root.at? n.place.path = some n.place.node ∧
      (scopesAround (scopeOwners root) n.place.path).find?
        (fun s => ((bind root source).scope? s).any (·.kind != .block)) = some d.scope := by
  obtain ⟨n, hn, hsettles⟩ := exists_settles hd
  obtain ⟨p, hp, hpath, hmem⟩ := exists_site (List.mem_of_getElem? hn)
  have hkind : n.kind = .var := hsettles.kind ▸ hvar
  obtain ⟨hplace, haround⟩ := var_scopesAround hp hpath hmem hkind
  obtain ⟨s, hscope, houtwards⟩ := hsettles.scope
  -- the scope of the program ends the search
  obtain ⟨first, hfirst, _, hprogram⟩ := bind_first root source
  have hzero : 0 ∈ scopesAround (scopeOwners root) n.home :=
    scopesAround_subset List.nil_suffix (by rw [scopesAround_nil]; exact List.mem_singleton_self 0)
  have hends : ((bind root source).scope? 0).any (·.kind != .block) = true := by
    rw [hfirst, Option.any_some, hprogram]
    rfl
  obtain ⟨found, hfound⟩ := Option.isSome_iff_exists.mp (List.find?_isSome
    (p := fun s => ((bind root source).scope? s).any (·.kind != .block)) |>.mpr ⟨0, hzero, hends⟩)
  refine ⟨n, hn, hsettles.range.symm, (hp.trans hplace).at? rfl, ?_⟩
  rw [haround, hscope, hkind, variableScope, if_pos rfl, Bindings.functionScope, houtwards,
    hfound]

/-- The bindings of a document with a well-formed tree are well-shaped. Their scopes form a tree,
and those around a scope are the scopes of the constructs around its own. Their lists hold every
declaration once. A `var` is in the nearest scope around its name that is not a block. So the scopes
at an offset are met by climbing from the innermost one, which ends in the scope of the program and
meets no scope twice. -/
theorem bind_wellShaped (root : Node) (source : List Char) (hroot : root.WellFormed) :
    let b := bind root source
    let owners := scopeOwners root
    (b.ScopeTree ∧ Owned b owners) ∧
    b.Lists ∧
    (∀ id d, b.declaration? id = some d → d.kind = .var →
      ∃ n, (declaredNames root)[id]? = some n ∧ n.place.node.range = d.nameRange ∧
        root.at? n.place.path = some n.place.node ∧
        (scopesAround owners n.place.path).find?
          (fun s => (b.scope? s).any (·.kind != .block)) = some d.scope) ∧
    ∀ offset, b.Climbs (b.scopeAt offset) (b.scopeChain offset) ∧
      (b.scopeChain offset).Nodup ∧ (b.scopeChain offset).getLast? = some 0 := by
  intro b owners
  have htree : b.ScopeTree := bind_scopeTree source hroot
  have hlists : b.Lists := (bind_listed root source).lists (bind_indexed root source)
  refine ⟨⟨htree, bind_owned root source⟩, hlists, fun id d => bind_var, fun offset => ?_⟩
  obtain ⟨first, hfirst, _⟩ := htree.root
  obtain ⟨hclimbs, hdescending, hlast⟩ := htree.climbs (Bindings.scopeAt_lt htree offset)
  rw [Bindings.scopeChain_eq_outwards hfirst]
  exact ⟨hclimbs, hdescending.imp Nat.ne_of_gt, hlast⟩

end Binder

section

open Node

/-- `{ var x; }` -/
def blockVarText : List Char :=
  "\x7b var x; \x7d".toList

def blockVarTree : Node :=
  construct "program" 0 10 none
    [construct "statement_block" 0 10 none
      [token "\x7b" 0 1 none,
        construct "variable_declaration" 2 8 none
          [token "var" 2 5 none,
            construct "variable_declarator" 6 7 none [construct "identifier" 6 7 (some "name") []],
            token ";" 7 8 none],
        token "\x7d" 9 10 none]]

/-- The variable of the block stands in the scopes 1 and 0, from the inside out, and is in the one
of the program. -/
theorem bind_wellShaped_blockVar :
    let b := Binder.bind blockVarTree blockVarText
    blockVarTree.WellFormed ∧ b.ScopeTree ∧ b.Lists ∧
      (∃ d n, b.declaration? 0 = some d ∧ d.kind = .var ∧ d.scope = 0 ∧
        (Binder.declaredNames blockVarTree)[0]? = some n ∧ n.place.node.range = ⟨6, 7⟩ ∧
        Binder.scopesAround (Binder.scopeOwners blockVarTree) n.place.path = [1, 0]) ∧
      b.Climbs 1 [1, 0] := by
  intro b
  have hwellFormed : blockVarTree.WellFormed := by decide +kernel
  obtain ⟨⟨htree, _⟩, hlists, hvar, hchain⟩ :=
    Binder.bind_wellShaped blockVarTree blockVarText hwellFormed
  have hd : (b.declaration? 0).any fun d => d.kind = .var ∧ d.scope = 0 ∧ d.nameRange = ⟨6, 7⟩ := by
    decide +kernel
  obtain ⟨d, hd, hspec⟩ := Option.any_eq_true _ _ |>.mp hd
  obtain ⟨hkind, hscope, hrange⟩ := of_decide_eq_true hspec
  obtain ⟨n, hn, hplace, _⟩ := hvar 0 d hd hkind
  have hpath : (Binder.declaredNames blockVarTree)[0]?.map (·.place.path) = some [0, 1, 1, 0] := by
    decide +kernel
  refine ⟨hwellFormed, htree, hlists, ⟨d, n, hd, hkind, hscope, hn, hplace.trans hrange, ?_⟩, ?_⟩
  · rw [hn, Option.map_some] at hpath
    rw [Option.some.inj hpath]
    decide +kernel
  · have hat : b.scopeAt 6 = 1 ∧ b.scopeChain 6 = [1, 0] := by decide +kernel
    have hclimbs := (hchain 6).1
    rwa [hat.1, hat.2] at hclimbs

end

end UtsInsight
