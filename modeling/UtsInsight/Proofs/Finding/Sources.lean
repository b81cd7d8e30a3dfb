import UtsInsight.Finding.Check
import UtsInsight.Proofs.Finding.Conflicts
import UtsInsight.Proofs.Finding.Outermost
import UtsInsight.Syntax.Everywhere

/-!
# Where findings come from

A finding is about a node with a syntax error, about the name of a declaration, or about what stands
at a place that is checked. Sorting the findings adds none and loses none.
-/
namespace UtsInsight

variable {root : Node} {source : List Char} {b : Bindings} {f : Finding}

/-- What is found about a node with a syntax error. -/
def IsSyntaxError (source : List Char) (n : Node) (f : Finding) : Prop :=
  f = ⟨n.range, .unexpectedToken (firstWord? (n.chars source))⟩ ∨
    f = ⟨n.range, missingProblem n.kind⟩

theorem Node.isSyntaxError_markFinding (source : List Char) (n : Node) :
    IsSyntaxError source n (n.markFinding source) := by
  unfold markFinding
  split_ifs
  · exact .inl rfl
  · exact .inr rfl

theorem exists_of_mem_syntaxErrors {P : Node → Prop} (n : Node) (h : n.Everywhere P)
    (hf : f ∈ n.syntaxErrors source) : ∃ m, P m ∧ IsSyntaxError source m f := by
  induction n using Node.induction with
  | h n ih =>
    rw [n.syntaxErrors_eq] at hf
    split_ifs at hf
    · rw [List.mem_singleton.mp hf]
      exact ⟨n, h.self, n.isSyntaxError_markFinding source⟩
    · obtain ⟨c, hc, hf⟩ := List.mem_flatMap.mp hf
      exact ih c hc (h.below.of_mem hc) hf
    · exact absurd hf List.not_mem_nil

/-! ### Declarations -/

/-- The problem is about a declaration itself. -/
def Problem.AboutDeclaration (problem : Problem) : Prop :=
  problem = .duplicateImplementation ∨
    ∃ name, problem = .redeclaredVariable name ∨ problem = .duplicateIdentifier name ∨
      problem = .unused name

theorem mem_of_mem_valueConflicts {name : String} {group : List Declaration}
    {conflict : Declaration × Problem} (h : conflict ∈ valueConflicts name group) :
    conflict.1 ∈ group ∧ conflict.2.AboutDeclaration := by
  unfold valueConflicts at h
  dsimp only at h
  split at h
  · exact absurd h List.not_mem_nil
  split at h
  · obtain ⟨d, hd, rfl⟩ := List.mem_map.mp h
    exact ⟨(List.mem_filter.mp hd).1, .inr ⟨name, .inl rfl⟩⟩
  split at h
  · split at h
    · exact absurd h List.not_mem_nil
    · obtain ⟨d, hd, rfl⟩ := List.mem_map.mp h
      exact ⟨(List.mem_filter.mp (List.mem_filter.mp hd).1).1, .inl rfl⟩
  split at h
  · exact absurd h List.not_mem_nil
  · obtain ⟨d, hd, rfl⟩ := List.mem_map.mp h
    exact ⟨(List.mem_filter.mp hd).1, .inr ⟨name, .inr (.inl rfl)⟩⟩

theorem mem_of_mem_typeConflicts {name : String} {group : List Declaration}
    {conflict : Declaration × Problem} (h : conflict ∈ typeConflicts name group) :
    conflict.1 ∈ group ∧ conflict.2.AboutDeclaration := by
  unfold typeConflicts at h
  dsimp only at h
  split at h
  · obtain ⟨d, hd, rfl⟩ := List.mem_map.mp h
    exact ⟨(List.mem_filter.mp hd).1, .inr ⟨name, .inr (.inl rfl)⟩⟩
  · exact absurd h List.not_mem_nil

/-- Grouping by name only brings the declarations into another order. -/
theorem mem_of_mem_groupByName {declarations : List Declaration}
    {entry : String × List Declaration} (h : entry ∈ groupByName declarations) {d : Declaration}
    (hd : d ∈ entry.2) : d ∈ declarations := by
  rw [groupByName_eq] at h
  obtain ⟨name, _, rfl⟩ := List.mem_map.mp h
  exact List.mem_of_mem_filter hd

theorem exists_of_mem_conflicts (hf : f ∈ b.conflicts) :
    ∃ d ∈ b.declarations, f.range = d.nameRange ∧ f.problem.AboutDeclaration := by
  obtain ⟨scope, _, hf⟩ := List.mem_flatMap.mp hf
  obtain ⟨conflict, hconflict, rfl⟩ := List.mem_map.mp hf
  obtain ⟨entry, hentry, hconflict⟩ := List.mem_flatMap.mp hconflict
  have hmem : conflict.1 ∈ entry.2 ∧ conflict.2.AboutDeclaration := by
    rcases List.mem_append.mp hconflict with hconflict | hconflict
    · exact mem_of_mem_valueConflicts hconflict
    · exact mem_of_mem_typeConflicts hconflict
  obtain ⟨id, _, hid⟩ := List.mem_filterMap.mp (mem_of_mem_groupByName hentry hmem.1)
  exact ⟨conflict.1, List.mem_of_getElem? hid, rfl, hmem.2⟩

theorem exists_of_mem_unusedFrom {targets : List DeclId} {ds : List Declaration} {id : DeclId}
    (hf : f ∈ unusedFrom b targets id ds) :
    ∃ d ∈ ds, f.range = d.nameRange ∧ f.problem.AboutDeclaration := by
  induction ds generalizing id with
  | nil => exact absurd hf List.not_mem_nil
  | cons d ds ih =>
    unfold unusedFrom at hf
    rcases List.mem_append.mp hf with hf | hf
    · split at hf
      · obtain rfl := List.mem_singleton.mp hf
        exact ⟨d, List.mem_cons_self, rfl, .inr ⟨d.name, .inr (.inr rfl)⟩⟩
      · exact absurd hf List.not_mem_nil
    · obtain ⟨d', hd', hrange, hproblem⟩ := ih hf
      exact ⟨d', List.mem_cons_of_mem _ hd', hrange, hproblem⟩

/-! ### Checked places -/

theorem exists_of_mismatch? {expected : String} {value : Node} {problem : Problem}
    (h : mismatch? expected value source = some problem) :
    ∃ actual expected, problem = .notAssignable actual expected := by
  unfold mismatch? at h
  split at h
  · split at h
    · split at h
      · cases h
      · exact ⟨_, _, (Option.some.inj h).symm⟩
    · cases h
  · cases h

/-- A literal that does not fit its type is found at a child. -/
def IsMismatch (n : Node) (f : Finding) : Prop :=
  ∃ c ∈ n.children, ∃ actual expected, f = ⟨c.range, .notAssignable actual expected⟩

theorem isMismatch_of_initializerMismatch? {n : Node}
    (h : initializerMismatch? n source = some f) : IsMismatch n f := by
  unfold initializerMismatch? at h
  obtain ⟨name, hname, h⟩ := Option.bind_eq_some_iff.mp h
  obtain ⟨_, _, h⟩ := Option.bind_eq_some_iff.mp h
  obtain ⟨_, _, h⟩ := Option.bind_eq_some_iff.mp h
  obtain ⟨problem, hproblem, h⟩ := Option.bind_eq_some_iff.mp h
  obtain ⟨actual, expected, rfl⟩ := exists_of_mismatch? hproblem
  exact ⟨name, List.mem_of_find?_eq_some hname, actual, expected, (Option.some.inj h).symm⟩

theorem isMismatch_of_returnMismatch? {p : Place} (h : returnMismatch? p source = some f) :
    IsMismatch p.node f := by
  unfold returnMismatch? at h
  obtain ⟨value, hvalue, h⟩ := Option.bind_eq_some_iff.mp h
  obtain ⟨_, _, h⟩ := Option.bind_eq_some_iff.mp h
  obtain ⟨_, _, h⟩ := Option.bind_eq_some_iff.mp h
  obtain ⟨problem, hproblem, h⟩ := Option.bind_eq_some_iff.mp h
  obtain ⟨actual, expected, rfl⟩ := exists_of_mismatch? hproblem
  have hmem := (List.mem_filter.mp (List.mem_of_head? hvalue)).1
  exact ⟨value, hmem, actual, expected, (Option.some.inj h).symm⟩

theorem eq_of_unknownName? {p : Place} (h : p.unknownName? b source = some f) :
    f = ⟨p.node.range, .unknownName (p.node.text source)⟩ := by
  unfold Place.unknownName? at h
  split at h
  · exact (Option.some.inj h).symm
  · cases h

/-- At a checked place a name is unknown, a literal does not fit, or statements are not reached. -/
theorem mem_findings {p : Place} (hf : f ∈ p.findings b source) :
    p.unknownName? b source = some f ∨ IsMismatch p.node f ∨ unreachable? p.node = some f := by
  unfold Place.findings at hf
  split at hf
  · exact .inl (Option.mem_toList.mp hf)
  split at hf
  · exact .inr (.inl (isMismatch_of_initializerMismatch? (Option.mem_toList.mp hf)))
  split at hf
  · exact .inr (.inl (isMismatch_of_returnMismatch? (Option.mem_toList.mp hf)))
  split at hf
  · exact .inr (.inr (Option.mem_toList.mp hf))
  · exact absurd hf List.not_mem_nil

/-! ### All findings -/

/-- A finding is about a node with a syntax error, about a declaration or about a checked place. -/
theorem mem_check {P : Node → Prop} (hroot : root.Everywhere P) (hf : f ∈ check root source b) :
    (∃ n, P n ∧ IsSyntaxError source n f) ∨
      (∃ d ∈ b.declarations, f.range = d.nameRange ∧ f.problem.AboutDeclaration) ∨
      ∃ p ∈ root.checkedPlaces [], f ∈ p.findings b source := by
  unfold check collectFindings at hf
  rw [List.mem_mergeSort] at hf
  simp only [List.mem_append, List.mem_flatMap] at hf
  rcases hf with ((hf | hf) | hf) | hf
  · exact .inl (exists_of_mem_syntaxErrors root hroot hf)
  · exact .inr (.inl (exists_of_mem_conflicts hf))
  · exact .inr (.inr hf)
  · split at hf
    · exact absurd hf List.not_mem_nil
    · exact .inr (.inl (exists_of_mem_unusedFrom hf))

theorem mem_check_of_mem_findings {p : Place} (hp : p ∈ root.checkedPlaces [])
    (hf : f ∈ p.findings b source) : f ∈ check root source b := by
  unfold check collectFindings
  rw [List.mem_mergeSort]
  simp only [List.mem_append, List.mem_flatMap]
  exact .inl (.inr ⟨p, hp, hf⟩)

end UtsInsight
