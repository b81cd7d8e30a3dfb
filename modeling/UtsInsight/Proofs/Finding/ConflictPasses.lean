import UtsInsight.Proofs.Finding.Messages
import UtsInsight.Proofs.Finding.Sources
import UtsInsight.Proofs.Scope.Structure

/-!
# Two passes over the declarations of a name

The conflicts of a group of declarations are looked for twice, among its values and among its types.
Grouping only brings the declarations of a scope into another order, so one pass reports each of them
once at most. But a class is a value and a type. Both passes report it as a duplicate if it stands
beside another value, none of them block-scoped, and beside an alias.
-/
namespace UtsInsight

/-! ### Conflicts among values and among types -/

/-- A pass over the declarations of a name: those that are reported, with their problems. -/
abbrev ConflictPass := String → List Declaration → List (Declaration × Problem)

/-- A pass reports declarations of a group in their order, each once, and with one problem. -/
def ConflictPass.Reports (pass : ConflictPass) (problems : String → List Problem) : Prop :=
  ∀ name group, ∃ reported : List Declaration, ∃ problem ∈ problems name,
    reported.Sublist group ∧ pass name group = reported.map fun d => (d, problem)

/-- The problems of declarations that cannot all be values. -/
def valueProblems (name : String) : List Problem :=
  [.redeclaredVariable name, .duplicateImplementation, .duplicateIdentifier name]

theorem valueConflicts_reports : ConflictPass.Reports valueConflicts valueProblems := by
  intro name group
  have hnone : ∃ reported : List Declaration, ∃ problem ∈ valueProblems name,
      reported.Sublist group ∧ [] = reported.map fun d => (d, problem) :=
    ⟨[], _, List.mem_cons_self, List.nil_sublist _, rfl⟩
  have hvalues : (group.filter (·.claimsValue)).Sublist group := List.filter_sublist
  unfold valueConflicts
  dsimp only
  split_ifs
  · exact hnone
  · exact ⟨_, .redeclaredVariable name, by simp [valueProblems], hvalues, rfl⟩
  · exact hnone
  · exact ⟨_, .duplicateImplementation, by simp [valueProblems],
      List.filter_sublist.trans hvalues, rfl⟩
  · exact hnone
  · exact ⟨_, .duplicateIdentifier name, by simp [valueProblems], hvalues, rfl⟩

/-- The problem of declarations that cannot all be types. -/
def typeProblems (name : String) : List Problem :=
  [.duplicateIdentifier name]

theorem typeConflicts_reports : ConflictPass.Reports typeConflicts typeProblems := by
  intro name group
  unfold typeConflicts
  dsimp only
  split_ifs
  · exact ⟨_, _, List.mem_singleton_self _, List.filter_sublist, rfl⟩
  · exact ⟨[], _, List.mem_singleton_self _, List.nil_sublist _, rfl⟩

/-- The conflicts that a pass finds among the declarations of one scope. -/
def ConflictPass.among (pass : ConflictPass) (ds : List Declaration) :
    List (Declaration × Problem) :=
  (groupByName ds).flatMap fun (name, group) => pass name group

theorem addToGroup_perm (d : Declaration) (groups : List (String × List Declaration)) :
    ((addToGroup d groups).flatMap (·.2)).Perm (groups.flatMap (·.2) ++ [d]) := by
  induction groups with
  | nil => exact .refl _
  | cons entry groups ih =>
    unfold addToGroup
    split
    · simp only [List.flatMap_cons, List.append_assoc]
      exact List.perm_append_comm.append_left entry.2
    · simp only [List.flatMap_cons, List.append_assoc]
      exact ih.append_left entry.2

/-- Grouping brings declarations into another order. -/
theorem groupByName_perm (ds : List Declaration) : ((groupByName ds).flatMap (·.2)).Perm ds := by
  induction ds using List.reverseRecOn with
  | nil => exact .refl _
  | append_singleton ds d ih =>
    have hstep : groupByName (ds ++ [d]) = addToGroup d (groupByName ds) := by
      rw [groupByName, List.foldl_concat, groupByName]
    rw [hstep]
    exact (addToGroup_perm d _).trans (ih.append_right [d])

namespace ConflictPass

variable {pass : ConflictPass} {problems : String → List Problem} {name : String}
  {group ds : List Declaration} {d : Declaration} {problem : Problem}

theorem Reports.sublist (h : pass.Reports problems) (name : String) (group : List Declaration) :
    ((pass name group).map (·.1)).Sublist group := by
  obtain ⟨reported, problem, _, hsublist, heq⟩ := h name group
  rw [heq, List.map_map]
  exact (List.map_id reported).symm ▸ hsublist

theorem Reports.problem_mem (h : pass.Reports problems) (hd : (d, problem) ∈ pass name group) :
    problem ∈ problems name := by
  obtain ⟨reported, problem', hproblem, _, heq⟩ := h name group
  rw [heq] at hd
  obtain ⟨_, _, hsame⟩ := List.mem_map.mp hd
  obtain rfl : problem' = problem := congrArg Prod.snd hsame
  exact hproblem

theorem Reports.among_subperm (h : pass.Reports problems) (ds : List Declaration) :
    ((pass.among ds).map (·.1)).Subperm ds := by
  refine List.Subperm.trans (List.Sublist.subperm ?_) (groupByName_perm ds).subperm
  unfold among
  rw [List.map_flatMap]
  induction groupByName ds with
  | nil => exact .slnil
  | cons entry groups ih =>
    rw [List.flatMap_cons, List.flatMap_cons]
    exact (h.sublist entry.1 entry.2).append ih

theorem Reports.mem_among (h : pass.Reports problems) :
    (d, problem) ∈ pass.among ds ↔ (d, problem) ∈ pass d.name (namedGroup ds d.name) := by
  have hname : ∀ {name}, (d, problem) ∈ pass name (namedGroup ds name) →
      d ∈ ds ∧ d.name = name := by
    intro name hd
    have hmem := (h.sublist name _).subset (List.mem_map_of_mem hd)
    exact ⟨List.mem_of_mem_filter hmem, beq_iff_eq.mp (List.mem_filter.mp hmem).2⟩
  simp only [among, groupByName_eq, List.flatMap_map, List.mem_flatMap, List.mem_eraseDups]
  constructor
  · rintro ⟨name, _, hd⟩
    obtain ⟨_, rfl⟩ := hname hd
    exact hd
  · intro hd
    exact ⟨d.name, List.mem_map_of_mem (hname hd).1, hd⟩

end ConflictPass

/-- The two passes of a scope, one behind the other. -/
theorem conflictsAmong_perm (ds : List Declaration) :
    (conflictsAmong ds).Perm
      (ConflictPass.among valueConflicts ds ++ ConflictPass.among typeConflicts ds) :=
  (List.flatMap_append_perm _ _ _).symm

/-! ### Conflicts of a document -/

namespace Bindings

variable {b : Bindings} {pass : ConflictPass} {problems : String → List Problem} {f : Finding}

/-- The declarations in the list of a scope. -/
def declarationsOf (b : Bindings) (scope : Scope) : List Declaration :=
  scope.declarations.filterMap b.declaration?

/-- The conflicts of all scopes that a pass finds. -/
def conflictsBy (b : Bindings) (pass : ConflictPass) : List Finding :=
  b.scopes.flatMap fun scope => (pass.among (b.declarationsOf scope)).map fun (d, problem) =>
    ⟨d.nameRange, problem⟩

theorem conflicts_perm (b : Bindings) :
    b.conflicts.Perm (b.conflictsBy valueConflicts ++ b.conflictsBy typeConflicts) := by
  refine List.Perm.trans (List.Perm.flatMap_left _ fun scope _ => ?_)
    (List.flatMap_append_perm _ _ _).symm
  exact ((conflictsAmong_perm _).map _).trans (List.map_append ▸ .refl _)

theorem mem_conflictsBy (h : pass.Reports problems) :
    f ∈ b.conflictsBy pass ↔ ∃ scope ∈ b.scopes, ∃ d ∈ b.declarationsOf scope,
      f.range = d.nameRange ∧
        (d, f.problem) ∈ pass d.name (namedGroup (b.declarationsOf scope) d.name) := by
  unfold conflictsBy
  simp only [List.mem_flatMap, List.mem_map]
  constructor
  · rintro ⟨scope, hscope, ⟨d, problem⟩, hd, rfl⟩
    have hmem := (h.among_subperm _).subset (List.mem_map_of_mem hd)
    exact ⟨scope, hscope, d, hmem, rfl, h.mem_among.mp hd⟩
  · rintro ⟨scope, hscope, d, _, hrange, hd⟩
    refine ⟨scope, hscope, (d, f.problem), h.mem_among.mpr hd, ?_⟩
    rw [← hrange]

/-- No two declarations have names that cover the same bytes, if these are any. -/
def NamesApart (b : Bindings) : Prop :=
  ∀ {i j : DeclId} {d e : Declaration}, b.declaration? i = some d → b.declaration? j = some e →
    d.nameRange.start < d.nameRange.stop → d.nameRange = e.nameRange → i = j

/-- The ranges differ, unless they have no characters. -/
def RangesDiffer (r s : ByteSpan) : Prop :=
  r.start < r.stop → r ≠ s

theorem RangesDiffer.symm {r s : ByteSpan} (h : RangesDiffer r s) : RangesDiffer s r := by
  rintro hlength rfl
  exact h hlength rfl

theorem NamesApart.declarations (h : b.NamesApart) :
    (b.declarations.map (·.nameRange)).Pairwise RangesDiffer := by
  refine List.pairwise_map.mpr (List.pairwise_iff_getElem.mpr fun i j hi hj hlt => ?_)
  intro hlength hrange
  exact absurd (h (List.getElem?_eq_getElem hi) (List.getElem?_eq_getElem hj) hlength hrange)
    (Nat.ne_of_lt hlt)

/-- The names in the lists of the scopes are at different bytes. -/
theorem NamesApart.declarationsOf (h : b.NamesApart) (hlists : b.Lists) :
    ((b.scopes.flatMap b.declarationsOf).map (·.nameRange)).Pairwise RangesDiffer := by
  have hids : (b.scopes.flatMap (·.declarations)).Nodup :=
    hlists.once.nodup_iff.mpr List.nodup_range
  have hflat : b.scopes.flatMap b.declarationsOf =
      (b.scopes.flatMap (·.declarations)).filterMap b.declaration? :=
    List.filterMap_flatMap.symm
  rw [hflat, List.pairwise_map, List.pairwise_filterMap]
  refine hids.imp fun hne d hd e he hlength hrange => ?_
  exact hne (h hd he hlength hrange)

theorem differs_of_ranges {fs : List Finding} (h : (fs.map (·.range)).Pairwise RangesDiffer) :
    fs.Pairwise Finding.Differs :=
  (List.pairwise_map.mp h).imp fun hne hlength hrange => absurd hrange (hne hlength)

/-- One pass reports no name twice. -/
theorem conflictsBy_differs (h : b.NamesApart) (hlists : b.Lists) (hpass : pass.Reports problems) :
    (b.conflictsBy pass).Pairwise Finding.Differs := by
  have hsub : ∀ scopes : List Scope,
      ((scopes.flatMap fun scope => (pass.among (b.declarationsOf scope)).map (·.1))).Subperm
        (scopes.flatMap b.declarationsOf) := by
    intro scopes
    induction scopes with
    | nil => exact .refl _
    | cons scope scopes ih =>
      rw [List.flatMap_cons, List.flatMap_cons]
      exact (hpass.among_subperm _).append ih
  obtain ⟨listed, hperm, hlisted⟩ := hsub b.scopes
  have hranges : (b.conflictsBy pass).map (·.range) =
      (b.scopes.flatMap fun scope =>
        (pass.among (b.declarationsOf scope)).map (·.1)).map (·.nameRange) := by
    simp only [conflictsBy, List.map_flatMap, List.map_map]
    rfl
  refine differs_of_ranges ?_
  rw [hranges]
  refine ((hperm.map _).pairwise_iff fun h => h.symm).mp ?_
  exact (h.declarationsOf hlists).sublist (hlisted.map _)

end Bindings

/-! ### Classes in both passes -/

namespace Declaration

variable {name : String} {group : List Declaration} {d : Declaration}

/-- A class among the declarations of its name is a duplicate as a value, beside another value of
which none is block-scoped, and a duplicate as a type, beside an alias. -/
def ClashesTwice (d : Declaration) (group : List Declaration) : Prop :=
  d.kind = .classType ∧ (∃ e ∈ group, [d, e].Subperm group ∧ e.claimsValue) ∧
    (∃ e ∈ group, e.kind = .typeAlias) ∧ ∀ e ∈ group, e.kind.isBlockScoped = false

instance (d : Declaration) (group : List Declaration) : Decidable (d.ClashesTwice group) :=
  inferInstanceAs (Decidable (_ ∧ _ ∧ _ ∧ _))

theorem claims_iff : d.claimsValue ∧ d.claimsType ↔ d.kind = .classType := by
  unfold claimsValue claimsType
  cases d.kind <;> decide

theorem claimsValue_of_isBlockScoped (h : d.kind.isBlockScoped = true) : d.claimsValue = true := by
  unfold claimsValue
  revert h
  cases d.kind <;> decide

theorem mem_valueConflicts_of_class (hclass : d.kind = .classType) :
    (d, .duplicateIdentifier name) ∈ valueConflicts name group ↔
      (∃ e ∈ group, [d, e].Subperm group ∧ e.claimsValue) ∧
        ∀ e ∈ group, e.kind.isBlockScoped = false := by
  have hclaims := (claims_iff.mpr hclass).1
  constructor
  · intro hd
    unfold valueConflicts at hd
    dsimp only at hd
    split_ifs at hd with hlength hblock hfunctions hbodies hvariables
    · exact absurd hd List.not_mem_nil
    · obtain ⟨_, _, hproblem⟩ := List.mem_map.mp hd
      cases hproblem
    · exact absurd hd List.not_mem_nil
    · obtain ⟨_, _, hproblem⟩ := List.mem_map.mp hd
      cases hproblem
    · exact absurd hd List.not_mem_nil
    · obtain ⟨d', hd', hsame⟩ := List.mem_map.mp hd
      obtain rfl : d' = d := congrArg Prod.fst hsame
      obtain ⟨e, hpair⟩ := exists_pair hd' (Nat.le_of_not_lt hlength)
      obtain ⟨_, he, hpair⟩ := pair_filter.mp hpair
      refine ⟨⟨e, (mem_of_pair hpair).2, hpair, he⟩, fun e he => Bool.eq_false_iff.mpr fun hscoped => hblock ?_⟩
      exact List.any_eq_true.mpr
        ⟨e, List.mem_filter.mpr ⟨he, claimsValue_of_isBlockScoped hscoped⟩, hscoped⟩
  · rintro ⟨⟨e, _, hpair, he⟩, hscoped⟩
    have hvalues : [d, e].Subperm (group.filter (·.claimsValue)) :=
      pair_filter.mpr ⟨hclaims, he, hpair⟩
    have hmem := (mem_of_pair hvalues).1
    have hblock : ¬ (group.filter (·.claimsValue)).any (·.kind.isBlockScoped) = true := by
      intro hany
      obtain ⟨e, he, hblock⟩ := List.any_eq_true.mp hany
      exact Bool.false_ne_true ((hscoped e (List.mem_of_mem_filter he)).symm.trans hblock)
    have hfunctions : ¬ (group.filter (·.claimsValue)).all (·.kind == .function) = true := by
      intro hall
      have hkind := beq_iff_eq.mp (List.all_eq_true.mp hall d hmem)
      exact absurd (hclass.symm.trans hkind) (by decide)
    have hvariables : ¬ (group.filter (·.claimsValue)).all
        (fun d => d.kind == .var || d.kind == .parameter) = true := by
      intro hall
      have hkind := List.all_eq_true.mp hall d hmem
      rw [hclass] at hkind
      exact absurd hkind (by decide)
    unfold valueConflicts
    dsimp only
    rw [if_neg (Nat.not_lt.mpr (two_le_of_pair hvalues)), if_neg hblock, if_neg hfunctions,
      if_neg hvariables]
    exact List.mem_map_of_mem hmem

theorem mem_typeConflicts_of_class (hclass : d.kind = .classType) (hd : d ∈ group) :
    (d, .duplicateIdentifier name) ∈ typeConflicts name group ↔
      ∃ e ∈ group, e.kind = .typeAlias := by
  have hclaims := (claims_iff.mpr hclass).2
  have hmem : d ∈ group.filter (·.claimsType) := List.mem_filter.mpr ⟨hd, hclaims⟩
  unfold typeConflicts
  dsimp only
  constructor
  · intro hreported
    split_ifs at hreported with halias
    · obtain ⟨e, he, hkind⟩ := List.any_eq_true.mp (Bool.and_eq_true_iff.mp halias).1
      exact ⟨e, List.mem_of_mem_filter he, beq_iff_eq.mp hkind⟩
    · exact absurd hreported List.not_mem_nil
  · rintro ⟨e, he, hkind⟩
    have hmem' : e ∈ group.filter (·.claimsType) := by
      refine List.mem_filter.mpr ⟨he, ?_⟩
      unfold claimsType
      rw [hkind]
      decide
    have hne : d ≠ e := by
      rintro rfl
      exact absurd (hclass.symm.trans hkind) (by decide)
    have hlength := two_le_of_pair (pair_of_ne hmem hmem' hne)
    have hany : (group.filter (·.claimsType)).any (·.kind == .typeAlias) = true :=
      List.any_eq_true.mpr ⟨e, hmem', beq_iff_eq.mpr hkind⟩
    rw [if_pos (by rw [hany, Bool.true_and]; exact decide_eq_true hlength)]
    exact List.mem_map_of_mem hmem

/-- Both passes report a declaration as a duplicate if it is a class that clashes twice. -/
theorem clashesTwice_iff (hd : d ∈ group) :
    (d, .duplicateIdentifier name) ∈ valueConflicts name group ∧
        (d, .duplicateIdentifier name) ∈ typeConflicts name group ↔
      d.ClashesTwice group := by
  constructor
  · rintro ⟨hvalue, htype⟩
    have hclaims : d.claimsValue = true := by
      obtain ⟨_, _, hpair⟩ := exists_clash_of_reported ⟨_, hvalue⟩
      exact hpair.1
    have hclaims' : d.claimsType = true := by
      obtain ⟨_, _, hpair⟩ := reported_typeConflicts.mp ⟨_, htype⟩
      exact hpair.1
    have hclass := claims_iff.mp ⟨hclaims, hclaims'⟩
    obtain ⟨hvalues, hscoped⟩ := (mem_valueConflicts_of_class hclass).mp hvalue
    exact ⟨hclass, hvalues, (mem_typeConflicts_of_class hclass hd).mp htype, hscoped⟩
  · rintro ⟨hclass, hvalues, halias, hscoped⟩
    exact ⟨(mem_valueConflicts_of_class hclass).mpr ⟨hvalues, hscoped⟩,
      (mem_typeConflicts_of_class hclass hd).mpr halias⟩

end Declaration

end UtsInsight
