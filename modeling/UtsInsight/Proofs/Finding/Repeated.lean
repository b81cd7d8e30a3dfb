import UtsInsight.Proofs.Finding.ConflictPasses
import UtsInsight.Proofs.Finding.Nesting
import UtsInsight.Proofs.Scope.Distinct
import UtsInsight.Proofs.Typing.Lookup

/-!
# Findings that are reported twice

Five passes report into one list. Syntax errors, what is found at a place and what is found about a
name are of different causes, and the names of a document are at different bytes. So two findings with
the same range and the same message can only come from the two passes over the declarations of a name,
and then they are about a class that is a duplicate as a value and as a type.
-/
namespace UtsInsight

/-! ### The passes and their causes -/

/-- Who reports a problem. -/
inductive Reporter where
  | tree
  | scopes
  | places
  | usage
  deriving DecidableEq

def Problem.reporter : Problem → Reporter
  | .unexpectedToken _ | .identifierExpected | .tokenExpected _ => .tree
  | .redeclaredVariable _ | .duplicateImplementation | .duplicateIdentifier _ => .scopes
  | .notAssignable _ _ | .unknownName _ | .unreachable => .places
  | .unused _ => .usage

theorem Problem.reporter_eq {p q : Problem} (h : p.ctorIdx = q.ctorIdx) :
    p.reporter = q.reporter := by
  cases p <;> cases q <;> first | rfl | cases h

section

variable {f g : Finding} {source : List Char} {b : Bindings}

theorem Finding.differs_of_reporter_ne (h : f.problem.reporter ≠ g.problem.reporter) :
    f.Differs g :=
  Finding.differs_of_ctorIdx_ne fun hcause => h (Problem.reporter_eq hcause)

/-- What one pass reports differs from what the others report. -/
theorem Finding.differs_append {fs gs : List Finding} (reporter : Reporter)
    (hfs : fs.Pairwise Differs) (hgs : gs.Pairwise Differs)
    (hf : ∀ f ∈ fs, f.problem.reporter = reporter)
    (hg : ∀ g ∈ gs, g.problem.reporter ≠ reporter) : (fs ++ gs).Pairwise Differs :=
  List.pairwise_append.mpr ⟨hfs, hgs, fun f hmem g hmem' =>
    differs_of_reporter_ne (hf f hmem ▸ (hg g hmem').symm)⟩

theorem reporter_of_mem_syntaxErrors {n : Node} (hf : f ∈ n.syntaxErrors source) :
    f.problem.reporter = .tree := by
  obtain ⟨m, -, hm⟩ := exists_of_mem_syntaxErrors (P := fun _ => True) n
    (Node.everywhere_of_forall (fun _ => trivial) n) hf
  rcases hm with rfl | rfl
  · rfl
  · unfold missingProblem
    split_ifs <;> rfl

theorem reporter_of_mem_findings {p : Place}
    (hp : p.node.Everywhere fun n => n.Nested ∧ n.Delimited) (hf : f ∈ p.findings b source) :
    f.problem.reporter = .places := by
  cases finds_of_mem_findings hp hf with
  | whole _ _ hcause => exact Problem.reporter_eq hcause
  | part _ _ _ hcause => exact Problem.reporter_eq hcause
  | behind _ _ _ _ _ _ _ hcause => exact Problem.reporter_eq hcause

theorem reporter_of_mem_unusedFrom {targets : List DeclId} {id : DeclId} {ds : List Declaration}
    (hf : f ∈ unusedFrom b targets id ds) : f.problem.reporter = .usage := by
  induction ds generalizing id with
  | nil => exact absurd hf List.not_mem_nil
  | cons d ds ih =>
    unfold unusedFrom at hf
    rcases List.mem_append.mp hf with hf | hf
    · split_ifs at hf
      · rw [List.mem_singleton.mp hf]
        rfl
      · exact absurd hf List.not_mem_nil
    · exact ih hf

end

/-! ### Unused variables -/

namespace Bindings

variable {b : Bindings}

theorem map_range_unusedFrom_sublist (b : Bindings) (targets : List DeclId) (id : DeclId)
    (ds : List Declaration) :
    ((unusedFrom b targets id ds).map (·.range)).Sublist (ds.map (·.nameRange)) := by
  induction ds generalizing id with
  | nil => exact .slnil
  | cons d ds ih =>
    unfold unusedFrom
    rw [List.map_append, List.map_cons]
    split_ifs
    · exact (ih (id + 1)).cons_cons d.nameRange
    · exact (ih (id + 1)).cons d.nameRange

theorem unusedLocals_differs (h : b.NamesApart) (targets : List DeclId) :
    (b.unusedLocals targets).Pairwise Finding.Differs :=
  differs_of_ranges (h.declarations.sublist (map_range_unusedFrom_sublist b targets 0 _))

end Bindings

/-! ### Counting findings -/

namespace Bindings

variable {b : Bindings} {root : Node} {source : List Char} {range : ByteSpan} {message : String}

/-- A class of the range clashes twice with the declarations of its name in its scope, and the message
says that it is a duplicate. -/
def ReportsTwice (b : Bindings) (range : ByteSpan) (message : String) : Prop :=
  ∃ scope ∈ b.scopes, ∃ d ∈ b.declarationsOf scope, d.nameRange = range ∧
    (Problem.duplicateIdentifier d.name).message = message ∧
    d.ClashesTwice (namedGroup (b.declarationsOf scope) d.name)

instance (b : Bindings) (range : ByteSpan) (message : String) :
    Decidable (b.ReportsTwice range message) :=
  inferInstanceAs (Decidable (∃ scope ∈ b.scopes, ∃ d ∈ b.declarationsOf scope, _))

/-- Names that cover the same bytes are one declaration of one scope. -/
theorem NamesApart.unique (h : b.NamesApart) (hlists : b.Lists) {scope scope' : Scope}
    {d d' : Declaration} (hscope : scope ∈ b.scopes) (hscope' : scope' ∈ b.scopes)
    (hd : d ∈ b.declarationsOf scope) (hd' : d' ∈ b.declarationsOf scope')
    (hlength : d.nameRange.start < d.nameRange.stop) (hrange : d.nameRange = d'.nameRange) :
    scope = scope' ∧ d = d' := by
  obtain ⟨i, hi, hdi⟩ := List.mem_filterMap.mp hd
  obtain ⟨j, hj, hdj⟩ := List.mem_filterMap.mp hd'
  obtain rfl := h hdi hdj hlength hrange
  obtain ⟨id, hid⟩ := List.getElem?_of_mem hscope
  obtain ⟨id', hid'⟩ := List.getElem?_of_mem hscope'
  obtain ⟨e, he, hown⟩ := (hlists.own hid i).mp hi
  obtain ⟨e', he', hown'⟩ := (hlists.own hid' i).mp hj
  obtain rfl := Option.some.inj (he.symm.trans he')
  have hsame : id = id' := hown.symm.trans hown'
  rw [hsame] at hid
  exact ⟨Option.some.inj (hid.symm.trans hid'), Option.some.inj (hdi.symm.trans hdj)⟩

/-- The unused variables that are reported for a document. -/
def usageFindings (b : Bindings) (root : Node) (source : List Char) : List Finding :=
  if root.hasError then [] else b.unusedLocals (referenceTargets b source (root.checkedPlaces []))

/-- The findings of a document but for the conflicts among types. -/
def findingsButTypes (b : Bindings) (root : Node) (source : List Char) : List Finding :=
  root.syntaxErrors source ++ (b.conflictsBy valueConflicts ++
    ((root.checkedPlaces []).flatMap (·.findings b source) ++ b.usageFindings root source))

theorem countP_check (p : Finding → Bool) :
    (check root source b).countP p =
      (b.findingsButTypes root source).countP p + (b.conflictsBy typeConflicts).countP p := by
  rw [check, (List.mergeSort_perm _ _).countP_eq p, collectFindings, findingsButTypes,
    usageFindings]
  simp only [List.countP_append, b.conflicts_perm.countP_eq p]
  omega

variable {f : Finding}

theorem reporter_of_mem_conflictsBy (hf : f ∈ b.conflictsBy valueConflicts) :
    f.problem.reporter = .scopes := by
  obtain ⟨_, _, d, _, _, hmem⟩ := (mem_conflictsBy valueConflicts_reports).mp hf
  have hall : ∀ problem ∈ valueProblems d.name, problem.reporter = .scopes := by
    simp [valueProblems, Problem.reporter]
  exact hall _ (valueConflicts_reports.problem_mem hmem)

theorem reporter_of_mem_flatMap_findings (hroot : root.WellFormed)
    (hgrammar : root.Everywhere Node.Delimited)
    (hf : f ∈ (root.checkedPlaces []).flatMap (·.findings b source)) :
    f.problem.reporter = .places := by
  obtain ⟨p, hp, hf⟩ := List.mem_flatMap.mp hf
  have hnode := (Node.Everywhere.and hroot hgrammar).at? (at?_of_mem_checkedPlaces hp)
  exact reporter_of_mem_findings hnode hf

theorem reporter_of_mem_usageFindings (hf : f ∈ b.usageFindings root source) :
    f.problem.reporter = .usage := by
  unfold usageFindings at hf
  split_ifs at hf
  · exact absurd hf List.not_mem_nil
  · exact reporter_of_mem_unusedFrom hf

theorem usageFindings_differs (h : b.NamesApart) :
    (b.usageFindings root source).Pairwise Finding.Differs := by
  unfold usageFindings
  split_ifs
  · exact .nil
  · exact unusedLocals_differs h _

/-- Each pass reports nothing twice, and what one reports no other one does. -/
theorem findingsButTypes_differs (source : List Char) (hroot : root.WellFormed)
    (hgrammar : root.Everywhere Node.Delimited) (hlists : b.Lists) (h : b.NamesApart) :
    (b.findingsButTypes root source).Pairwise Finding.Differs := by
  have hplaces : ∀ f ∈ (root.checkedPlaces []).flatMap (·.findings b source),
      f.problem.reporter = .places := fun f => reporter_of_mem_flatMap_findings hroot hgrammar
  have htree : (root.syntaxErrors source).Pairwise Finding.Differs :=
    (syntaxErrors_ordered source hroot).imp fun hle => Finding.differs_of_ordered (.inl hle)
  have hvalues := conflictsBy_differs h hlists valueConflicts_reports
  have hfound := flatMap_findings_differs hroot hgrammar b source
  refine Finding.differs_append .tree htree (Finding.differs_append .scopes hvalues
    (Finding.differs_append .places hfound (usageFindings_differs h) hplaces ?_)
    (fun _ => reporter_of_mem_conflictsBy) ?_) (fun _ => reporter_of_mem_syntaxErrors) ?_
  · exact fun f hf => reporter_of_mem_usageFindings hf ▸ by decide
  · simp only [List.forall_mem_append]
    exact ⟨fun f hf => hplaces f hf ▸ by decide,
      fun f hf => reporter_of_mem_usageFindings hf ▸ by decide⟩
  · simp only [List.forall_mem_append]
    exact ⟨fun f hf => reporter_of_mem_conflictsBy hf ▸ by decide,
      fun f hf => hplaces f hf ▸ by decide,
      fun f hf => reporter_of_mem_usageFindings hf ▸ by decide⟩

/-- A problem of a declaration comes from the conflicts. -/
theorem mem_conflictsBy_of_reporter (hroot : root.WellFormed)
    (hgrammar : root.Everywhere Node.Delimited) (hf : f ∈ b.findingsButTypes root source)
    (hreporter : f.problem.reporter = .scopes) : f ∈ b.conflictsBy valueConflicts := by
  unfold findingsButTypes at hf
  simp only [List.mem_append] at hf
  rcases hf with hf | hf | hf | hf
  · exact absurd (hreporter.symm.trans (reporter_of_mem_syntaxErrors hf)) (by decide)
  · exact hf
  · have hplaces := reporter_of_mem_flatMap_findings hroot hgrammar hf
    exact absurd (hreporter.symm.trans hplaces) (by decide)
  · exact absurd (hreporter.symm.trans (reporter_of_mem_usageFindings hf)) (by decide)

/-- Of the problems of a value only the duplicate has its cause. -/
theorem eq_duplicateIdentifier_of_ctorIdx {problem : Problem} {name : String}
    (hmem : problem ∈ valueProblems name)
    (hcause : problem.ctorIdx = (Problem.duplicateIdentifier name).ctorIdx) :
    problem = .duplicateIdentifier name := by
  simp only [valueProblems, List.mem_cons, List.not_mem_nil, or_false] at hmem
  rcases hmem with rfl | rfl | rfl
  · cases hcause
  · cases hcause
  · rfl

/-- A finding of the types that cannot be told from another one is a duplicate of the values. -/
theorem reportsTwice_of_same {g : Finding} (hroot : root.WellFormed)
    (hgrammar : root.Everywhere Node.Delimited) (hlists : b.Lists) (h : b.NamesApart)
    (hlength : g.range.start < g.range.stop) (hf : f ∈ b.findingsButTypes root source)
    (hg : g ∈ b.conflictsBy typeConflicts) (hrange : f.range = g.range)
    (hmessage : f.message = g.message) : b.ReportsTwice g.range g.message := by
  obtain ⟨scope, hscope, d, hd, hdrange, htype⟩ := (mem_conflictsBy typeConflicts_reports).mp hg
  have hproblem : g.problem = .duplicateIdentifier d.name :=
    List.mem_singleton.mp (typeConflicts_reports.problem_mem htype)
  have hcause : f.problem.ctorIdx = g.problem.ctorIdx := by
    by_contra hne
    exact Problem.message_ne_of_ctorIdx_ne hne hmessage
  have hreporter : f.problem.reporter = .scopes := by
    rw [Problem.reporter_eq hcause, hproblem]
    rfl
  obtain ⟨scope', hscope', d', hd', hdrange', hvalue⟩ :=
    (mem_conflictsBy valueConflicts_reports).mp
      (mem_conflictsBy_of_reporter hroot hgrammar hf hreporter)
  obtain ⟨rfl, rfl⟩ := h.unique hlists hscope hscope' hd hd' (hdrange ▸ hlength)
    (hdrange.symm.trans (hrange.symm.trans hdrange'))
  have hproblem' : f.problem = .duplicateIdentifier d.name :=
    eq_duplicateIdentifier_of_ctorIdx (valueConflicts_reports.problem_mem hvalue)
      (hcause.trans (congrArg Problem.ctorIdx hproblem))
  rw [hproblem'] at hvalue
  rw [hproblem] at htype
  have hmem : d ∈ namedGroup (b.declarationsOf scope) d.name :=
    List.mem_filter.mpr ⟨hd, beq_self_eq_true _⟩
  refine ⟨scope, hscope, d, hd, hdrange.symm, ?_,
    (Declaration.clashesTwice_iff hmem).mp ⟨hvalue, htype⟩⟩
  rw [Finding.message, hproblem]

/-- What is reported twice is found by both passes over declarations. -/
theorem exists_mem_of_reportsTwice (h : b.ReportsTwice range message) :
    ∃ found ∈ b.conflictsBy valueConflicts, found ∈ b.conflictsBy typeConflicts ∧
      found.isAs range message = true := by
  obtain ⟨scope, hscope, d, hd, rfl, rfl, hclass⟩ := h
  have hmem : d ∈ namedGroup (b.declarationsOf scope) d.name :=
    List.mem_filter.mpr ⟨hd, beq_self_eq_true _⟩
  obtain ⟨hvalue, htype⟩ := (Declaration.clashesTwice_iff hmem).mpr hclass
  exact ⟨⟨d.nameRange, .duplicateIdentifier d.name⟩,
    (mem_conflictsBy valueConflicts_reports).mpr ⟨scope, hscope, d, hd, rfl, hvalue⟩,
    (mem_conflictsBy typeConflicts_reports).mpr ⟨scope, hscope, d, hd, rfl, htype⟩,
    Finding.isAs_iff.mpr ⟨rfl, rfl⟩⟩

/-- No finding is in the list three times, and one is there twice if both passes over declarations
report the same class as a duplicate. -/
theorem countP_check_isAs (hroot : root.WellFormed) (hgrammar : root.Everywhere Node.Delimited)
    (hlists : b.Lists) (h : b.NamesApart) (hlength : range.start < range.stop) :
    (check root source b).countP (Finding.isAs range message) ≤ 2 ∧
      ((check root source b).countP (Finding.isAs range message) = 2 ↔
        b.ReportsTwice range message) := by
  have honce := Finding.countP_isAs_le_one
    (findingsButTypes_differs source hroot hgrammar hlists h) hlength message
  have htypes := Finding.countP_isAs_le_one
    (conflictsBy_differs h hlists typeConflicts_reports) hlength message
  rw [countP_check]
  refine ⟨by omega, fun htwice => ?_, ?_⟩
  · have hpos : 0 < (b.findingsButTypes root source).countP (Finding.isAs range message) := by
      omega
    have hpos' : 0 < (b.conflictsBy typeConflicts).countP (Finding.isAs range message) := by omega
    obtain ⟨f, hf, hsame⟩ := List.countP_pos_iff.mp hpos
    obtain ⟨g, hg, hsame'⟩ := List.countP_pos_iff.mp hpos'
    obtain ⟨hrange, hmessage⟩ := Finding.isAs_iff.mp hsame
    obtain ⟨rfl, rfl⟩ := Finding.isAs_iff.mp hsame'
    exact reportsTwice_of_same hroot hgrammar hlists h hlength hf hg hrange hmessage
  · intro htwice
    obtain ⟨found, hvalue, htype, hsame⟩ := exists_mem_of_reportsTwice htwice
    have hmem : found ∈ b.findingsButTypes root source :=
      List.mem_append_right _ (List.mem_append_left _ hvalue)
    have hpos := List.countP_pos_iff.mpr ⟨found, hmem, hsame⟩
    have hpos' := List.countP_pos_iff.mpr ⟨found, htype, hsame⟩
    omega

end Bindings

/-! ### Findings of a document -/

namespace Binder

variable {root : Node} {source : List Char}

theorem bind_namesApart (hroot : root.WellFormed) (hholds : root.Everywhere Node.HoldsNames)
    (hleaf : ∀ n ∈ declaredNames root, n.place.node.children = []) :
    (bind root source).NamesApart := by
  intro i j d e hd he hlength hrange
  have hnamed := declarationNamedAt_nameRange hroot hholds hleaf hd hlength
  have hnamed' := declarationNamedAt_nameRange hroot hholds hleaf he (hrange ▸ hlength)
  rw [hrange] at hnamed
  exact Option.some.inj (hnamed.symm.trans hnamed')

end Binder

theorem Bindings.NamesApart.resolveTypes {b : Bindings} (h : b.NamesApart) (root : Node)
    (source : List Char) : (b.resolveTypes root source).NamesApart := by
  intro i j d e hd he
  obtain ⟨_, _, _, hd', _, rfl⟩ := declaration?_of_resolveTypes hd
  obtain ⟨_, _, _, he', _, rfl⟩ := declaration?_of_resolveTypes he
  exact fun hlength hrange => h hd' he' hlength hrange

/-- A finding is reported twice for one reason only. In a well-formed tree of the grammar no range with
characters occurs with one message more than twice among the findings. It occurs twice exactly for the
name of a class that stands in its scope beside another value of its name, none of which is
block-scoped, and beside an alias of its name. -/
theorem check_repeated (root : Node) (source : List Char) (hroot : root.WellFormed)
    (hholds : root.Everywhere Node.HoldsNames) (hgrammar : root.Everywhere Node.Delimited)
    (hleaf : ∀ n ∈ Binder.declaredNames root, n.place.node.children = []) :
    let bound := Binder.bind root source
    ∀ b ∈ [bound, bound.resolveTypes root source],
      ∀ (range : ByteSpan) (message : String), range.start < range.stop →
        let count := (check root source b).countP (Finding.isAs range message)
        count ≤ 2 ∧ (count = 2 ↔ b.ReportsTwice range message) := by
  intro bound b hb range message hlength
  have hapart : bound.NamesApart := Binder.bind_namesApart hroot hholds hleaf
  have hboth : b.Lists ∧ b.NamesApart := by
    rcases List.mem_cons.mp hb with rfl | hb
    · exact ⟨(Binder.bind_listed root source).lists (Binder.bind_indexed root source), hapart⟩
    · rw [List.mem_singleton.mp hb]
      exact ⟨Binder.resolveTypes_lists root source, hapart.resolveTypes root source⟩
  exact Bindings.countP_check_isAs hroot hgrammar hboth.1 hboth.2 hlength

section

open Node

/-- `class A {} class A {} type A = number;` -/
def twiceText : List Char :=
  "class A \x7b\x7d class A \x7b\x7d type A = number;".toList

def twiceTree : Node :=
  let classTree (start : Nat) : Node :=
    construct "class_declaration" start (start + 10) none
      [token "class" start (start + 5) none,
        construct "type_identifier" (start + 6) (start + 7) (some "name") [],
        construct "class_body" (start + 8) (start + 10) (some "body")
          [token "\x7b" (start + 8) (start + 9) none, token "\x7d" (start + 9) (start + 10) none]]
  construct "program" 0 38 none
    [classTree 0, classTree 11,
      construct "type_alias_declaration" 22 38 none
        [token "type" 22 26 none,
          construct "type_identifier" 27 28 (some "name") [],
          token "=" 29 30 none,
          construct "predefined_type" 31 37 (some "value") [token "number" 31 37 none],
          token ";" 37 38 none]]

/-- Two classes and an alias of one name: each class is reported twice with the same message, and the
alias once. -/
theorem check_repeated_classes :
    let b := Binder.bind twiceTree twiceText
    let count := fun range : ByteSpan =>
      (check twiceTree twiceText b).countP (Finding.isAs range "Duplicate identifier 'A'.")
    twiceTree.WellFormed ∧ twiceTree.Everywhere Node.HoldsNames ∧
      twiceTree.Everywhere Node.Delimited ∧ count ⟨6, 7⟩ = 2 ∧ count ⟨17, 18⟩ = 2 ∧
      count ⟨27, 28⟩ ≠ 2 := by
  intro b count
  have hroot : twiceTree.WellFormed := by decide +kernel
  have hholds : twiceTree.Everywhere Node.HoldsNames := by decide +kernel
  have hgrammar : twiceTree.Everywhere Node.Delimited := by decide +kernel
  have hleaf : ∀ n ∈ Binder.declaredNames twiceTree, n.place.node.children = [] := by
    have hall : (Binder.declaredNames twiceTree).all (·.place.node.children.isEmpty) = true := by
      decide +kernel
    exact fun n hn => List.isEmpty_iff.mp (List.all_eq_true.mp hall n hn)
  have hcount := fun range (hlength : range.start < range.stop) =>
    (check_repeated twiceTree twiceText hroot hholds hgrammar hleaf b List.mem_cons_self range
      "Duplicate identifier 'A'." hlength).2
  refine ⟨hroot, hholds, hgrammar, (hcount _ (by decide)).mpr ?_, (hcount _ (by decide)).mpr ?_,
    mt (hcount _ (by decide)).mp ?_⟩
  · decide +kernel
  · decide +kernel
  · decide +kernel

end

end UtsInsight
