import UtsInsight.Proofs.Finding.Sources
import UtsInsight.Proofs.Scope.Index
import UtsInsight.Proofs.Syntax.WellFormed

/-!
# Variables that are not read

Reading a variable is counted for the declaration that its name resolves to, which is the first one
of the name in a scope. So a variable that is declared more than once in a scope is not reported for
its first declaration if it is read, but for every later one, whether or not it is read.
-/
namespace UtsInsight

variable {root : Node} {source : List Char} {b : Bindings} {f : Finding} {name : String}

/-! ### Where such findings come from -/

theorem mem_unusedFrom {targets : List DeclId} {ds : List Declaration} {first : Nat} :
    f ∈ unusedFrom b targets first ds ↔
      ∃ i d, ds[i]? = some d ∧ b.expectsReading d = true ∧ first + i ∉ targets ∧
        f = ⟨d.nameRange, .unused d.name⟩ := by
  induction ds generalizing first with
  | nil => simp [unusedFrom]
  | cons d ds ih =>
    have hhead : f ∈ (if b.expectsReading d && !targets.contains first then
          [(⟨d.nameRange, .unused d.name⟩ : Finding)] else []) ↔
        b.expectsReading d = true ∧ first ∉ targets ∧ f = ⟨d.nameRange, .unused d.name⟩ := by
      split <;> simp_all
    have hsucc : ∀ i : Nat, first + (i + 1) = first + 1 + i := by
      omega
    rw [unusedFrom, List.mem_append, hhead, ih]
    constructor
    · rintro (h | ⟨i, d', hd', h⟩)
      · exact ⟨0, d, rfl, h⟩
      · exact ⟨i + 1, d', hd', hsucc i ▸ h⟩
    · rintro ⟨_ | i, d', hd', h⟩
      · obtain rfl := Option.some.inj hd'
        exact .inl h
      · exact .inr ⟨i, d', hd', hsucc i ▸ h⟩

theorem Bindings.mem_unusedLocals {targets : List DeclId} :
    f ∈ b.unusedLocals targets ↔
      ∃ id d, b.declaration? id = some d ∧ b.expectsReading d = true ∧ id ∉ targets ∧
        f = ⟨d.nameRange, .unused d.name⟩ := by
  simp only [unusedLocals, mem_unusedFrom, Nat.zero_add]
  rfl

theorem ne_unused_of_mem_conflicts (hf : f ∈ b.conflicts) : f.problem ≠ .unused name := by
  obtain ⟨scope, _, hf⟩ := List.mem_flatMap.mp hf
  obtain ⟨conflict, hconflict, rfl⟩ := List.mem_map.mp hf
  obtain ⟨entry, _, hconflict⟩ := List.mem_flatMap.mp hconflict
  rintro (hproblem : conflict.2 = .unused name)
  rcases List.mem_append.mp hconflict with hconflict | hconflict
  · simp only [valueConflicts] at hconflict
    split_ifs at hconflict
    all_goals simp at hconflict
    all_goals
      obtain ⟨d, _, rfl⟩ := hconflict
      cases hproblem
  · simp only [typeConflicts] at hconflict
    split at hconflict
    · obtain ⟨d, _, rfl⟩ := List.mem_map.mp hconflict
      cases hproblem
    · exact absurd hconflict List.not_mem_nil

/-- A variable is found not to be read in documents without syntax errors, if no reference resolves
to its declaration. -/
theorem mem_check_unused {range : ByteSpan} :
    ⟨range, .unused name⟩ ∈ check root source b ↔
      root.hasError = false ∧ ∃ id d, b.declaration? id = some d ∧ b.expectsReading d = true ∧
        d.nameRange = range ∧ d.name = name ∧
        id ∉ referenceTargets b source (root.checkedPlaces []) := by
  have hsyntax : ⟨range, .unused name⟩ ∉ root.syntaxErrors source := by
    intro h
    have hroot : root.Everywhere fun _ => True := root.everywhere_of_forall fun _ => trivial
    obtain ⟨n, _, heq | heq⟩ := exists_of_mem_syntaxErrors root hroot h
    · cases heq
    · have hmissing := (Finding.mk.inj heq).2
      unfold missingProblem at hmissing
      split at hmissing <;> cases hmissing
  have hconflicts : ⟨range, .unused name⟩ ∉ b.conflicts := fun h =>
    ne_unused_of_mem_conflicts h rfl
  have hplaces : ∀ p : Place, ⟨range, .unused name⟩ ∉ p.findings b source := by
    intro p h
    rcases mem_findings h with h | ⟨_, _, _, _, h⟩ | h
    · cases eq_of_unknownName? h
    · cases h
    · unfold unreachable? at h
      split at h <;> cases h
  have hunused : ∀ targets, ⟨range, .unused name⟩ ∈ b.unusedLocals targets ↔
      ∃ id d, b.declaration? id = some d ∧ b.expectsReading d = true ∧
        d.nameRange = range ∧ d.name = name ∧ id ∉ targets := by
    intro targets
    rw [Bindings.mem_unusedLocals]
    constructor
    · rintro ⟨id, d, hd, hexpects, hfresh, heq⟩
      cases heq
      exact ⟨id, d, hd, hexpects, rfl, rfl, hfresh⟩
    · rintro ⟨id, d, hd, hexpects, rfl, rfl, hfresh⟩
      exact ⟨id, d, hd, hexpects, hfresh, rfl⟩
  unfold check collectFindings
  cases root.hasError <;>
    simp [List.mem_mergeSort, hsyntax, hconflicts, hplaces, hunused]

/-! ### Which declaration a reading counts for -/

theorem mem_referenceTargets {places : List Place} {id : DeclId} :
    id ∈ referenceTargets b source places ↔
      ∃ p ∈ places, p.isReference b = true ∧ p.target? b source = some id := by
  simp only [referenceTargets, List.mem_filterMap, Option.ite_none_right_eq_some]

/-- A name resolves to the first declaration of that name in a scope. -/
theorem Bindings.Indexed.first_of_resolve (hb : b.Indexed) {offset : Nat} {id : DeclId}
    (hid : b.resolve name offset .value = some id) :
    ∃ d, b.declaration? id = some d ∧ d.name = name ∧ b.firstIn name .value d.scope = some id := by
  rw [hb.resolve_eq_findSome?] at hid
  obtain ⟨s, _, hfirst⟩ := List.exists_of_findSome?_eq_some hid
  obtain ⟨hlt, hof, _⟩ := List.findIdx?_eq_some_iff_getElem.mp hfirst
  simp only [Bindings.isOf, Bool.and_eq_true, beq_iff_eq] at hof
  obtain ⟨⟨hscope, hname⟩, _⟩ := hof
  exact ⟨_, List.getElem?_eq_getElem hlt, hname, hscope.symm ▸ hfirst⟩

/-- Some reference with the name resolves to a declaration of the scope. -/
def Bindings.IsReadIn (b : Bindings) (root : Node) (source : List Char) (name : String)
    (scope : ScopeId) : Prop :=
  ∃ p ∈ root.checkedPlaces [], p.isReference b = true ∧ p.node.text source = name ∧
    ∃ id d, p.target? b source = some id ∧ b.declaration? id = some d ∧ d.scope = scope

/-- A reading counts for the first declaration of the name in the scope, and for no later one. -/
theorem Bindings.Indexed.mem_referenceTargets_iff (hb : b.Indexed) {id : DeclId} {d : Declaration}
    (hd : b.declaration? id = some d) :
    id ∈ referenceTargets b source (root.checkedPlaces []) ↔
      b.firstIn d.name .value d.scope = some id ∧ b.IsReadIn root source d.name d.scope := by
  rw [mem_referenceTargets]
  constructor
  · rintro ⟨p, hp, hreference, htarget⟩
    obtain ⟨d', hd', hname, hfirst⟩ := hb.first_of_resolve htarget
    obtain rfl := Option.some.inj (hd.symm.trans hd')
    rw [← hname] at hfirst
    exact ⟨hfirst, p, hp, hreference, hname.symm, id, d, htarget, hd, rfl⟩
  · rintro ⟨hfirst, p, hp, hreference, htext, id', d', htarget, hd', hscope⟩
    obtain ⟨d'', hd'', hname, hfirst'⟩ := hb.first_of_resolve htarget
    obtain rfl := Option.some.inj (hd'.symm.trans hd'')
    rw [htext, hscope, hfirst] at hfirst'
    exact ⟨p, hp, hreference, Option.some.inj hfirst' ▸ htarget⟩

/-- A local variable of a document without syntax errors is found not to be read if and only if no
reference with its name resolves to a declaration of its scope, or it is not the first declaration
of its name there. So the first declaration is found only if it is not read, and a later one
always. -/
theorem check_unused (hb : b.Indexed) (root : Node) (source : List Char) (range : ByteSpan)
    (name : String) :
    ⟨range, .unused name⟩ ∈ check root source b ↔
      root.hasError = false ∧ ∃ id d, b.declaration? id = some d ∧ b.expectsReading d = true ∧
        d.nameRange = range ∧ d.name = name ∧
        (b.firstIn name .value d.scope = some id → ¬ b.IsReadIn root source name d.scope) := by
  rw [mem_check_unused]
  refine and_congr_right fun _ => exists_congr fun id => exists_congr fun d => ?_
  refine and_congr_right fun hd => and_congr_right fun _ => and_congr_right fun _ => ?_
  refine and_congr_right fun hname => ?_
  rw [hb.mem_referenceTargets_iff hd, hname, not_and]

section

open Node

/-- `function f() { var a = 1; var a = 2; return a; }` -/
def redeclaredText : List Char :=
  "function f() \x7b var a = 1; var a = 2; return a; \x7d".toList

/-- `var a = 1;` with another digit, from the given byte on. -/
def declaresA (start : Nat) : Node :=
  construct "variable_declaration" start (start + 10) none
    [token "var" start (start + 3) none,
      construct "variable_declarator" (start + 4) (start + 9) none
        [construct "identifier" (start + 4) (start + 5) (some "name") [],
          token "=" (start + 6) (start + 7) none,
          construct "number" (start + 8) (start + 9) (some "value") []],
      token ";" (start + 9) (start + 10) none]

def redeclaredTree : Node :=
  construct "program" 0 48 none
    [construct "function_declaration" 0 48 none
      [token "function" 0 8 none,
        construct "identifier" 9 10 (some "name") [],
        construct "formal_parameters" 10 12 (some "parameters")
          [token "(" 10 11 none, token ")" 11 12 none],
        construct "statement_block" 13 48 (some "body")
          [token "\x7b" 13 14 none,
            declaresA 15,
            declaresA 26,
            construct "return_statement" 37 46 none
              [token "return" 37 43 none,
                construct "identifier" 44 45 none [],
                token ";" 45 46 none],
            token "\x7d" 47 48 none]]]

/-- The variable is read in the scope of the function, and its second declaration is found not to
be. -/
theorem check_unused_redeclared :
    let b := Binder.bind redeclaredTree redeclaredText
    b.Indexed ∧ b.IsReadIn redeclaredTree redeclaredText "a" 1 ∧
      (b.declaration? 2).map (·.scope) = some 1 ∧
      ⟨⟨30, 31⟩, .unused "a"⟩ ∈ check redeclaredTree redeclaredText b := by
  intro b
  have hindexed : b.Indexed := Binder.bind_indexed redeclaredTree redeclaredText
  have hfirst : b.firstIn "a" .value 1 = some 1 := by decide +kernel
  have hread : b.IsReadIn redeclaredTree redeclaredText "a" 1 := by
    obtain ⟨p, hp, hreference, htext, htarget⟩ :
        ∃ p ∈ redeclaredTree.checkedPlaces [], p.isReference b = true ∧
          p.node.text redeclaredText = "a" ∧ p.target? b redeclaredText = some 1 := by
      decide +kernel
    obtain ⟨d, hd, hscope⟩ : ∃ d ∈ b.declaration? 1, d.scope = 1 := by
      decide +kernel
    exact ⟨p, hp, hreference, htext, 1, d, htarget, hd, hscope⟩
  obtain ⟨d, hd, hscope, hexpects, hrange, hname⟩ :
      ∃ d ∈ b.declaration? 2, d.scope = 1 ∧ b.expectsReading d = true ∧
        d.nameRange = ⟨30, 31⟩ ∧ d.name = "a" := by
    decide +kernel
  rw [Option.mem_def] at hd
  refine ⟨hindexed, hread, by simp [hd, hscope], ?_⟩
  apply (check_unused hindexed redeclaredTree redeclaredText ⟨30, 31⟩ "a").mpr
  refine ⟨rfl, 2, d, hd, hexpects, hrange, hname, fun hsecond => ?_⟩
  rw [hscope, hfirst] at hsecond
  cases hsecond

end

end UtsInsight
