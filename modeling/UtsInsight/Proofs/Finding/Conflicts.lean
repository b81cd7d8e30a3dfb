import Mathlib.Data.List.Induction
import Mathlib.Data.List.Nodup
import Mathlib.Data.List.Perm.Subperm
import UtsInsight.Finding.Redeclaration

/-!
# Conflicts are between two declarations

The declarations of one name in one scope are looked at as a group, and it depends on all of them
which conflict is reported. Whether a declaration is reported depends on pairs alone: it is if and
only if the group has another declaration that clashes with it. A pair of declarations of a list is
a list of two whose order does not matter and that the larger list contains, both at places of their
own; so no order of the declarations plays a part, and more declarations make for more pairs.
-/
namespace UtsInsight

/-- A declaration takes part in one of the conflicts. -/
def Reported (d : Declaration) (conflicts : List (Declaration × Problem)) : Prop :=
  ∃ problem, (d, problem) ∈ conflicts

section

variable {d d' : Declaration} {ds : List Declaration}

@[simp] theorem reported_nil : ¬ Reported d [] := by
  simp [Reported]

@[simp] theorem reported_append {conflicts conflicts' : List (Declaration × Problem)} :
    Reported d (conflicts ++ conflicts') ↔ Reported d conflicts ∨ Reported d conflicts' := by
  simp [Reported, exists_or]

@[simp] theorem reported_flatMap {α : Type} {xs : List α}
    {conflicts : α → List (Declaration × Problem)} :
    Reported d (xs.flatMap conflicts) ↔ ∃ x ∈ xs, Reported d (conflicts x) := by
  simp only [Reported, List.mem_flatMap]
  exact ⟨fun ⟨problem, x, hx, h⟩ => ⟨x, hx, problem, h⟩,
    fun ⟨x, hx, problem, h⟩ => ⟨problem, x, hx, h⟩⟩

@[simp] theorem reported_map {problem : Problem} :
    Reported d (ds.map fun d => (d, problem)) ↔ d ∈ ds := by
  simp [Reported]

/-! ### Pairs of a list -/

theorem mem_of_pair (h : [d, d'].Subperm ds) : d ∈ ds ∧ d' ∈ ds :=
  ⟨h.subset List.mem_cons_self, h.subset (by simp)⟩

theorem two_le_of_pair (h : [d, d'].Subperm ds) : 2 ≤ ds.length :=
  h.length_le

/-- Different members are at different places. -/
theorem pair_of_ne (hd : d ∈ ds) (hd' : d' ∈ ds) (hne : d ≠ d') : [d, d'].Subperm ds := by
  apply List.Nodup.subperm
  · simpa using hne
  · simp [hd, hd']

/-- A member of a list of at least two has another one beside it. -/
theorem exists_pair (hd : d ∈ ds) (hlength : 2 ≤ ds.length) : ∃ d', [d, d'].Subperm ds := by
  obtain ⟨before, behind, rfl⟩ := List.append_of_mem hd
  have hrest : before ++ behind ≠ [] := by
    intro hnil
    obtain ⟨rfl, rfl⟩ := List.append_eq_nil_iff.mp hnil
    simp at hlength
  obtain ⟨d', hd'⟩ := List.exists_mem_of_ne_nil _ hrest
  refine ⟨d', List.Subperm.trans ?_ List.perm_middle.symm.subperm⟩
  exact (List.subperm_cons d).mpr (List.singleton_subperm_iff.mpr hd')

theorem pair_filter {p : Declaration → Bool} :
    [d, d'].Subperm (ds.filter p) ↔ p d ∧ p d' ∧ [d, d'].Subperm ds := by
  constructor
  · intro h
    obtain ⟨hd, hd'⟩ := mem_of_pair h
    exact ⟨(List.mem_filter.mp hd).2, (List.mem_filter.mp hd').2,
      h.trans List.filter_sublist.subperm⟩
  · rintro ⟨hd, hd', h⟩
    simpa [hd, hd'] using h.filter p

/-- A list of two has one pair. -/
theorem pair_pair {e : Declaration} : [d, e].Subperm [d, d'] ↔ e = d' := by
  rw [List.subperm_cons, List.singleton_subperm_iff, List.mem_singleton]

end

/-! ### Values -/

namespace Declaration

/-- Whether a declaration may stand beside others like it: variables that are not block-scoped. -/
def isRepeatable (d : Declaration) : Bool :=
  d.kind == .var || d.kind == .parameter

/-- Two declarations of one name cannot both be values. -/
def ClashesAsValue (d d' : Declaration) : Prop :=
  d.claimsValue ∧ d'.claimsValue ∧
    (d.kind.isBlockScoped ∨ d'.kind.isBlockScoped ∨
      (d.kind = .function ∧ d'.kind = .function ∧ d.hasBody ∧ d'.hasBody) ∨
      (¬ (d.kind = .function ∧ d'.kind = .function) ∧ ¬ (d.isRepeatable ∧ d'.isRepeatable)))

/-- Two declarations of one name cannot both be types. -/
def ClashesAsType (d d' : Declaration) : Prop :=
  d.claimsType ∧ d'.claimsType ∧ (d.kind = .typeAlias ∨ d'.kind = .typeAlias)

end Declaration

section

variable {name : String} {group : List Declaration} {d d' : Declaration}

theorem clashesAsValue_of_pair (h : [d, d'].Subperm (group.filter (·.claimsValue)))
    (hclash : d.kind.isBlockScoped ∨ d'.kind.isBlockScoped ∨
      (d.kind = .function ∧ d'.kind = .function ∧ d.hasBody ∧ d'.hasBody) ∨
      (¬ (d.kind = .function ∧ d'.kind = .function) ∧ ¬ (d.isRepeatable ∧ d'.isRepeatable))) :
    ∃ d', [d, d'].Subperm group ∧ d.ClashesAsValue d' := by
  obtain ⟨hd, hd', hpair⟩ := pair_filter.mp h
  exact ⟨d', hpair, hd, hd', hclash⟩

/-- Beside a value of a group that is neither all functions nor all repeatable variables, there is
one that clashes with it. -/
theorem exists_clash_of_mixed {values : List Declaration} (hd : d ∈ values)
    (hlength : 2 ≤ values.length) (hfunctions : ∃ e ∈ values, e.kind ≠ .function)
    (hvariables : ∃ e ∈ values, e.isRepeatable = false) :
    ∃ d', [d, d'].Subperm values ∧ ¬ (d.kind = .function ∧ d'.kind = .function) ∧
      ¬ (d.isRepeatable ∧ d'.isRepeatable) := by
  by_cases hfunction : d.kind = .function
  · obtain ⟨e, he, hkind⟩ := hfunctions
    refine ⟨e, pair_of_ne hd he ?_, ?_, ?_⟩
    · rintro rfl
      exact hkind hfunction
    · simp [hkind]
    · simp [Declaration.isRepeatable, hfunction]
  by_cases hvariable : d.isRepeatable
  · obtain ⟨e, he, hother⟩ := hvariables
    refine ⟨e, pair_of_ne hd he ?_, ?_, ?_⟩
    · rintro rfl
      simp [hother] at hvariable
    · simp [hfunction]
    · simp [hother]
  · obtain ⟨e, hpair⟩ := exists_pair hd hlength
    exact ⟨e, hpair, by simp [hfunction], by simp [hvariable]⟩

/-- Whatever the reason why a value of a group is reported, it clashes with another one. -/
theorem exists_clash_of_reported (h : Reported d (valueConflicts name group)) :
    ∃ d', [d, d'].Subperm group ∧ d.ClashesAsValue d' := by
  unfold valueConflicts at h
  dsimp only at h
  split at h
  · simp at h
  rename_i hlength
  replace hlength := Nat.le_of_not_lt hlength
  split at h
  · rename_i hblock
    obtain ⟨e, he, hscoped⟩ := List.any_eq_true.mp hblock
    rw [reported_map] at h
    by_cases hd : d.kind.isBlockScoped
    · obtain ⟨d', hpair⟩ := exists_pair h hlength
      exact clashesAsValue_of_pair hpair (.inl hd)
    · have hne : d ≠ e := by
        rintro rfl
        exact hd hscoped
      exact clashesAsValue_of_pair (pair_of_ne h he hne) (.inr (.inl hscoped))
  split at h
  · rename_i hfunctions
    split at h
    · simp at h
    rename_i hbodies
    rw [reported_map] at h
    obtain ⟨d', hpair⟩ := exists_pair h (Nat.le_of_not_lt hbodies)
    obtain ⟨hbody, hbody', hpair⟩ := pair_filter.mp hpair
    obtain ⟨hd, hd'⟩ := mem_of_pair hpair
    have hkind := List.all_eq_true.mp hfunctions
    refine clashesAsValue_of_pair hpair (.inr (.inr (.inl ⟨?_, ?_, hbody, hbody'⟩)))
    · exact beq_iff_eq.mp (hkind d hd)
    · exact beq_iff_eq.mp (hkind d' hd')
  split at h
  · simp at h
  rename_i hfunctions hvariables
  rw [reported_map] at h
  simp only [List.all_eq_true, not_forall, exists_prop, beq_iff_eq] at hfunctions
  simp only [List.all_eq_true, not_forall, exists_prop, Bool.not_eq_true] at hvariables
  obtain ⟨d', hpair, hclash⟩ := exists_clash_of_mixed h hlength hfunctions hvariables
  exact clashesAsValue_of_pair hpair (.inr (.inr (.inr hclash)))

/-- Two values that clash are reported whatever else is in the group. -/
theorem reported_of_clash (hpair : [d, d'].Subperm group) (h : d.ClashesAsValue d') :
    Reported d (valueConflicts name group) := by
  obtain ⟨hd, hd', hclash⟩ := h
  have hvalues : [d, d'].Subperm (group.filter (·.claimsValue)) :=
    pair_filter.mpr ⟨hd, hd', hpair⟩
  obtain ⟨hmem, hmem'⟩ := mem_of_pair hvalues
  unfold valueConflicts
  dsimp only
  rw [if_neg (Nat.not_lt.mpr (two_le_of_pair hvalues))]
  split
  · rwa [reported_map]
  rename_i hblock
  have hscoped : ∀ e ∈ group.filter (·.claimsValue), e.kind.isBlockScoped = false := by
    simpa using hblock
  rw [hscoped d hmem, hscoped d' hmem'] at hclash
  split
  · rename_i hfunctions
    have hkind : ∀ e ∈ group.filter (·.claimsValue), e.kind = .function := fun e he =>
      beq_iff_eq.mp (List.all_eq_true.mp hfunctions e he)
    -- among functions only two bodies clash
    have hbodies : d.hasBody ∧ d'.hasBody := by
      simpa [hkind d hmem, hkind d' hmem'] using hclash
    have himplementations := pair_filter.mpr ⟨hbodies.1, hbodies.2, hvalues⟩
    rw [if_neg (Nat.not_lt.mpr (two_le_of_pair himplementations)), reported_map]
    exact (mem_of_pair himplementations).1
  split
  · rename_i hvariables
    have hrepeatable : ∀ e ∈ group.filter (·.claimsValue), e.isRepeatable :=
      List.all_eq_true.mp hvariables
    have hkind : ∀ e ∈ group.filter (·.claimsValue), e.kind ≠ .function := by
      intro e he hfunction
      simpa [Declaration.isRepeatable, hfunction] using hrepeatable e he
    simp [hkind d hmem, hrepeatable d hmem, hrepeatable d' hmem'] at hclash
  · rwa [reported_map]

/-- A declaration is reported among the values of a group if and only if it clashes with another
one. -/
theorem reported_valueConflicts :
    Reported d (valueConflicts name group) ↔
      ∃ d', [d, d'].Subperm group ∧ d.ClashesAsValue d' :=
  ⟨exists_clash_of_reported, fun ⟨_, hpair, hclash⟩ => reported_of_clash hpair hclash⟩

/-! ### Types -/

theorem reported_typeConflicts :
    Reported d (typeConflicts name group) ↔
      ∃ d', [d, d'].Subperm group ∧ d.ClashesAsType d' := by
  unfold typeConflicts
  dsimp only
  constructor
  · intro h
    split at h
    · rename_i halias
      rw [reported_map] at h
      rw [Bool.and_eq_true, List.any_eq_true, decide_eq_true_eq] at halias
      obtain ⟨⟨e, he, hkind⟩, hlength⟩ := halias
      rw [beq_iff_eq] at hkind
      by_cases hd : d.kind = .typeAlias
      · obtain ⟨d', hpair⟩ := exists_pair h hlength
        obtain ⟨hclaims, hclaims', hpair⟩ := pair_filter.mp hpair
        exact ⟨d', hpair, hclaims, hclaims', .inl hd⟩
      · have hne : d ≠ e := by
          rintro rfl
          exact hd hkind
        obtain ⟨hclaims, hclaims', hpair⟩ := pair_filter.mp (pair_of_ne h he hne)
        exact ⟨e, hpair, hclaims, hclaims', .inr hkind⟩
    · simp at h
  · rintro ⟨d', hpair, hd, hd', hclash⟩
    have htypes : [d, d'].Subperm (group.filter (·.claimsType)) :=
      pair_filter.mpr ⟨hd, hd', hpair⟩
    obtain ⟨hmem, hmem'⟩ := mem_of_pair htypes
    have halias : (group.filter (·.claimsType)).any (·.kind == .typeAlias) = true := by
      rw [List.any_eq_true]
      rcases hclash with hkind | hkind
      · exact ⟨d, hmem, beq_iff_eq.mpr hkind⟩
      · exact ⟨d', hmem', beq_iff_eq.mpr hkind⟩
    rw [if_pos (by simp [halias, two_le_of_pair htypes]), reported_map]
    exact hmem

end

/-! ### Groups of one name -/

/-- The declarations of a name. -/
def namedGroup (declarations : List Declaration) (name : String) : List Declaration :=
  declarations.filter (·.name == name)

section

variable {names : List String} {d : Declaration} {ds : List Declaration}

theorem namedGroup_concat (ds : List Declaration) (d : Declaration) (name : String) :
    namedGroup (ds ++ [d]) name = namedGroup ds name ++ if d.name = name then [d] else [] := by
  by_cases hname : d.name = name <;> simp [namedGroup, hname]

theorem addToGroup_of_not_mem (h : d.name ∉ names) :
    addToGroup d (names.map fun name => (name, namedGroup ds name)) =
      (names.map fun name => (name, namedGroup (ds ++ [d]) name)) ++ [(d.name, [d])] := by
  induction names with
  | nil => rfl
  | cons name names ih =>
    rw [List.mem_cons, not_or] at h
    simp [addToGroup, ih h.2, namedGroup_concat, h.1, Ne.symm h.1]

theorem addToGroup_of_mem (hnodup : names.Nodup) (h : d.name ∈ names) :
    addToGroup d (names.map fun name => (name, namedGroup ds name)) =
      names.map fun name => (name, namedGroup (ds ++ [d]) name) := by
  induction names with
  | nil => exact absurd h List.not_mem_nil
  | cons name names ih =>
    obtain ⟨hfresh, hnodup⟩ := List.nodup_cons.mp hnodup
    by_cases hname : name = d.name
    · subst hname
      have hrest : ∀ name ∈ names, d.name ≠ name := by
        rintro name hmem rfl
        exact hfresh hmem
      simp +contextual [addToGroup, namedGroup_concat, hrest]
    · have hmem : d.name ∈ names := (List.mem_cons.mp h).resolve_left (Ne.symm hname)
      simp [addToGroup, ih hnodup hmem, namedGroup_concat, hname, Ne.symm hname]

theorem nodup_eraseDups (names : List String) : names.eraseDups.Nodup := by
  induction hlength : names.length using Nat.strongRecOn generalizing names with
  | ind length ih =>
    cases names with
    | nil => simp
    | cons name names =>
      subst hlength
      have hless := Nat.lt_succ_of_le (List.length_filter_le (fun other => !other == name) names)
      rw [List.eraseDups_cons, List.nodup_cons]
      exact ⟨by simp, ih _ hless _ rfl⟩

/-- Each name has one group, which holds its declarations in order. -/
theorem groupByName_eq (ds : List Declaration) :
    groupByName ds = (ds.map (·.name)).eraseDups.map fun name => (name, namedGroup ds name) := by
  induction ds using List.reverseRecOn with
  | nil => rfl
  | append_singleton ds d ih =>
    have hstep : groupByName (ds ++ [d]) = addToGroup d (groupByName ds) := by
      simp [groupByName]
    rw [hstep, ih, List.map_append, List.eraseDups_append]
    by_cases hmem : d.name ∈ ds.map (·.name)
    · rw [addToGroup_of_mem (nodup_eraseDups _) (List.mem_eraseDups.mpr hmem)]
      simp [List.removeAll, List.mem_map.mp hmem]
    · have hgroup : namedGroup ds d.name = [] := by
        simpa [namedGroup, List.filter_eq_nil_iff] using hmem
      have hfresh : (List.map (·.name) [d]).removeAll (ds.map (·.name)) = [d.name] := by
        simpa [List.removeAll] using hmem
      have hsingle : [d.name].eraseDups = [d.name] := by
        simp [List.eraseDups_cons]
      rw [addToGroup_of_not_mem (fun h => hmem (List.mem_eraseDups.mp h)), hfresh, hsingle]
      simp [namedGroup_concat, hgroup]

end

/-! ### The conflicts of a scope -/

section

variable {d : Declaration} {ds ds' : List Declaration}

/-- A declaration is reported if and only if it clashes with another one of its name. -/
theorem reported_conflictsAmong :
    Reported d (conflictsAmong ds) ↔
      ∃ d', [d, d'].Subperm ds ∧ d'.name = d.name ∧
        (d.ClashesAsValue d' ∨ d.ClashesAsType d') := by
  simp only [conflictsAmong, groupByName_eq, List.flatMap_map, reported_flatMap, reported_append,
    reported_valueConflicts, reported_typeConflicts, namedGroup, pair_filter, beq_iff_eq,
    List.mem_eraseDups]
  constructor
  · rintro ⟨name, _, ⟨d', ⟨rfl, hname, hpair⟩, hclash⟩ | ⟨d', ⟨rfl, hname, hpair⟩, hclash⟩⟩
    · exact ⟨d', hpair, hname, .inl hclash⟩
    · exact ⟨d', hpair, hname, .inr hclash⟩
  · rintro ⟨d', hpair, hname, hclash⟩
    refine ⟨d.name, List.mem_map_of_mem (mem_of_pair hpair).1, ?_⟩
    exact hclash.imp (fun h => ⟨d', ⟨rfl, hname, hpair⟩, h⟩) fun h => ⟨d', ⟨rfl, hname, hpair⟩, h⟩

/-- Two declarations alone are a group in which the first one is reported if and only if they clash.
-/
theorem reported_pair {d' : Declaration} :
    Reported d (valueConflicts d.name [d, d'] ++ typeConflicts d.name [d, d']) ↔
      d.ClashesAsValue d' ∨ d.ClashesAsType d' := by
  simp [reported_valueConflicts, reported_typeConflicts, pair_pair]

/-- What is reported stays reported when declarations are added and in any other order. -/
theorem Reported.mono (hsub : ds.Subperm ds') (h : Reported d (conflictsAmong ds)) :
    Reported d (conflictsAmong ds') := by
  obtain ⟨d', hpair, hclash⟩ := reported_conflictsAmong.mp h
  exact reported_conflictsAmong.mpr ⟨d', hpair.trans hsub, hclash⟩

/-- A name is found in conflict if its declaration is reported in its scope. -/
theorem Bindings.exists_mem_conflicts {b : Bindings} {range : ByteSpan} :
    (∃ problem, ⟨range, problem⟩ ∈ b.conflicts) ↔
      ∃ scope ∈ b.scopes, ∃ d, d.nameRange = range ∧
        Reported d (conflictsAmong (scope.declarations.filterMap b.declaration?)) := by
  simp only [conflicts, List.mem_flatMap, List.mem_map]
  constructor
  · rintro ⟨problem, scope, hscope, ⟨d, _⟩, hconflict, heq⟩
    obtain ⟨rfl, rfl⟩ := Finding.mk.inj heq
    exact ⟨scope, hscope, d, rfl, _, hconflict⟩
  · rintro ⟨scope, hscope, d, rfl, problem, hconflict⟩
    exact ⟨problem, scope, hscope, (d, problem), hconflict, rfl⟩

end

/-- A declaration of a scope is reported if and only if there is another one of its name in the
scope, such that the two alone would be a group in which it is reported. Therefore the order of the
declarations plays no part in which ones are reported, and declarations that are added make no
report on another one disappear. The findings of a document are these reports. -/
theorem conflictsAmong_pairwise (ds : List Declaration) :
    (∀ d, Reported d (conflictsAmong ds) ↔
      ∃ d', [d, d'].Subperm ds ∧ d'.name = d.name ∧
        Reported d (valueConflicts d.name [d, d'] ++ typeConflicts d.name [d, d'])) ∧
    (∀ ds' d, ds.Perm ds' →
      (Reported d (conflictsAmong ds) ↔ Reported d (conflictsAmong ds'))) ∧
    (∀ ds' d, ds.Subperm ds' → Reported d (conflictsAmong ds) → Reported d (conflictsAmong ds')) ∧
    ∀ (b : Bindings) (range : ByteSpan),
      (∃ problem, ⟨range, problem⟩ ∈ b.conflicts) ↔
        ∃ scope ∈ b.scopes, ∃ d d', d.nameRange = range ∧
          [d, d'].Subperm (scope.declarations.filterMap b.declaration?) ∧ d'.name = d.name ∧
            Reported d (valueConflicts d.name [d, d'] ++ typeConflicts d.name [d, d']) := by
  have hpairs : ∀ (ds : List Declaration) (d : Declaration), Reported d (conflictsAmong ds) ↔
      ∃ d', [d, d'].Subperm ds ∧ d'.name = d.name ∧
        Reported d (valueConflicts d.name [d, d'] ++ typeConflicts d.name [d, d']) := by
    intro ds d
    simp only [reported_conflictsAmong, reported_pair]
  refine ⟨hpairs ds, fun ds' d hperm => ?_, fun ds' d hsub h => h.mono hsub, fun b range => ?_⟩
  · exact ⟨fun h => h.mono hperm.subperm, fun h => h.mono hperm.symm.subperm⟩
  · simp only [Bindings.exists_mem_conflicts, hpairs, exists_and_left]

section

/-- A declaration of the name `a` in the first scope. -/
def declarationOfA (kind : DeclarationKind) (start : Nat) : Declaration :=
  { name := "a", kind, scope := 0, nameRange := ⟨start, start + 1⟩, hasBody := true,
    isGeneric := false, type := "", members := [], source := .fixed "any" }

/-- `var a; var a; function a() { }`: a variable tolerates the other one, but not the function, in
whatever order they stand. -/
theorem conflictsAmong_pairwise_varFunction :
    let first := declarationOfA .var 4
    let second := declarationOfA .var 11
    let function := declarationOfA .function 23
    ¬ Reported first (conflictsAmong [first, second]) ∧
      [first, function].Subperm [first, second, function] ∧
      Reported first (conflictsAmong [first, function]) ∧
      Reported first (conflictsAmong [first, second, function]) ∧
      [first, second, function].Perm [function, second, first] ∧
      Reported first (conflictsAmong [function, second, first]) := by
  intro first second function
  obtain ⟨_, _, hadded, _⟩ := conflictsAmong_pairwise [first, function]
  obtain ⟨_, hordered, _, _⟩ := conflictsAmong_pairwise [first, second, function]
  have hnone : conflictsAmong [first, second] = [] := by decide
  have hpair : Reported first (conflictsAmong [first, function]) :=
    ⟨.duplicateIdentifier "a", by decide⟩
  have hsub : [first, function].Subperm [first, second, function] := by
    apply List.Sublist.subperm
    decide
  have hperm : [first, second, function].Perm [function, second, first] :=
    (List.reverse_perm [first, second, function]).symm
  have hall := hadded [first, second, function] first hsub hpair
  exact ⟨by simp [hnone], hsub, hpair, hall, hperm, (hordered _ first hperm).mp hall⟩

end

end UtsInsight
