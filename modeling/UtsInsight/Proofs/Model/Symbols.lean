import UtsInsight.Model
import UtsInsight.Proofs.Typing.Lookup

/-!
# The names that are visible at a position

The declarations of the scopes around a position, from the inside out, are gone through once. Type
parameters are passed over, and of the other declarations the first one of each name is listed.
Which kinds are asked for plays no part in that: a name that is met is met, whether or not its kind
is wanted, so asking for some kinds only selects among all symbols.
-/
namespace UtsInsight

/-- The symbol that a declaration is listed as. -/
def Declaration.symbol? (d : Declaration) : Option VisibleSymbol :=
  d.symbolKind?.map fun kind => ⟨d.name, kind, d.type⟩

/-- Whether a declaration is listed under a name, unless the name was met before. -/
def Declaration.isListedAs (name : String) (d : Declaration) : Bool :=
  d.kind != .typeParameter && d.name == name

/-- Everything but type parameters is listed. -/
theorem Declaration.symbolKind?_eq_none_iff {d : Declaration} :
    d.symbolKind? = none ↔ d.kind = .typeParameter := by
  unfold symbolKind?
  cases d.kind <;> simp

namespace Model

variable {kinds : List SymbolKind} {met : List String} {d : Declaration} {ds : List Declaration}
  {s : VisibleSymbol}

theorem collectSymbols_typeParameter (hd : d.kind = .typeParameter) :
    collectSymbols kinds met (d :: ds) = collectSymbols kinds met ds := by
  simp [collectSymbols, Declaration.symbolKind?_eq_none_iff.mpr hd]

theorem collectSymbols_met (hmet : d.name ∈ met) :
    collectSymbols kinds met (d :: ds) = collectSymbols kinds met ds := by
  cases hkind : d.symbolKind? <;> simp [collectSymbols, hkind, hmet]

theorem collectSymbols_cons (hd : d.symbol? = some s) (hmet : d.name ∉ met) :
    collectSymbols kinds met (d :: ds) =
      (if kinds = [] ∨ s.kind ∈ kinds then [s] else [])
        ++ collectSymbols kinds (d.name :: met) ds := by
  obtain ⟨kind, hkind, rfl⟩ := Option.map_eq_some_iff.mp hd
  simp only [collectSymbols, hkind, List.contains_iff_mem, hmet, if_false, Bool.or_eq_true,
    List.isEmpty_iff]
  split <;> rfl

/-- A declaration is passed over, or it is the first of its name that is listed. -/
theorem symbol?_cases (met : List String) (d : Declaration) :
    d.kind = .typeParameter ∨ (d.kind ≠ .typeParameter ∧ d.name ∈ met) ∨
      d.kind ≠ .typeParameter ∧ d.name ∉ met ∧
        ∃ s, d.symbol? = some s ∧ s.name = d.name := by
  by_cases hd : d.kind = .typeParameter
  · exact .inl hd
  by_cases hmet : d.name ∈ met
  · exact .inr (.inl ⟨hd, hmet⟩)
  cases hkind : d.symbolKind? with
  | none => exact absurd (Declaration.symbolKind?_eq_none_iff.mp hkind) hd
  | some kind =>
    refine .inr (.inr ⟨hd, hmet, ⟨d.name, kind, d.type⟩, ?_, rfl⟩)
    simp [Declaration.symbol?, hkind]

/-- Asking for some kinds selects among the symbols of all kinds. -/
theorem collectSymbols_eq_filter (hkinds : kinds ≠ []) (met : List String)
    (ds : List Declaration) :
    collectSymbols kinds met ds =
      (collectSymbols [] met ds).filter fun s => kinds.contains s.kind := by
  induction ds generalizing met with
  | nil => rfl
  | cons d ds ih =>
    rcases symbol?_cases met d with hd | ⟨_, hmet⟩ | ⟨_, hmet, s, hs, _⟩
    · rw [collectSymbols_typeParameter hd, collectSymbols_typeParameter hd, ih]
    · rw [collectSymbols_met hmet, collectSymbols_met hmet, ih]
    · rw [collectSymbols_cons hs hmet, collectSymbols_cons hs hmet, ih, List.filter_append]
      by_cases hkind : s.kind ∈ kinds <;> simp [hkinds, hkind]

/-- No name is listed twice, and none that was met before. -/
theorem nodup_collectSymbols (kinds : List SymbolKind) (met : List String)
    (ds : List Declaration) :
    ((collectSymbols kinds met ds).map (·.name)).Nodup ∧
      ∀ s ∈ collectSymbols kinds met ds, s.name ∉ met := by
  induction ds generalizing met with
  | nil => simp [collectSymbols]
  | cons d ds ih =>
    rcases symbol?_cases met d with hd | ⟨_, hmet⟩ | ⟨_, hmet, s, hs, hname⟩
    · rw [collectSymbols_typeParameter hd]
      exact ih met
    · rw [collectSymbols_met hmet]
      exact ih met
    · obtain ⟨hnodup, hfresh⟩ := ih (d.name :: met)
      have hrest : ∀ s ∈ collectSymbols kinds (d.name :: met) ds,
          s.name ≠ d.name ∧ s.name ∉ met := by
        simpa using hfresh
      rw [collectSymbols_cons hs hmet]
      split
      · constructor
        · simp only [List.singleton_append, List.map_cons, List.nodup_cons, List.mem_map]
          refine ⟨?_, hnodup⟩
          rintro ⟨s', hs', hsame⟩
          exact (hrest s' hs').1 (hsame.trans hname)
        · intro s' hs'
          rcases List.mem_append.mp hs' with hs' | hs'
          · rwa [List.mem_singleton.mp hs', hname]
          · exact (hrest s' hs').2
      · exact ⟨hnodup, fun s' hs' => (hrest s' hs').2⟩

/-- The names are those of the declarations that are listed, each where it occurs first. -/
theorem map_name_collectSymbols (met : List String) (ds : List Declaration) :
    (collectSymbols [] met ds).map (·.name) =
      (((ds.filter (·.kind != .typeParameter)).map (·.name)).filter
        fun name => !met.contains name).eraseDups := by
  induction ds generalizing met with
  | nil => rfl
  | cons d ds ih =>
    rcases symbol?_cases met d with hd | ⟨hd, hmet⟩ | ⟨hd, hmet, s, hs, hname⟩
    · simp [collectSymbols_typeParameter hd, ih, hd]
    · simp [collectSymbols_met hmet, ih, hd, hmet]
    · rw [collectSymbols_cons hs hmet, if_pos (.inl rfl), List.singleton_append, List.map_cons,
        ih, hname, List.filter_cons_of_pos (by simpa using hd), List.map_cons,
        List.filter_cons_of_pos (by simpa using hmet), List.eraseDups_cons, List.filter_filter]
      simp only [List.contains_cons, Bool.not_or]

/-- A symbol describes the first declaration that is listed under its name. -/
theorem mem_collectSymbols (met : List String) (ds : List Declaration) :
    s ∈ collectSymbols [] met ds ↔
      s.name ∉ met ∧ (ds.find? (·.isListedAs s.name)).bind (·.symbol?) = some s := by
  induction ds generalizing met with
  | nil => simp [collectSymbols]
  | cons d ds ih =>
    rcases symbol?_cases met d with hd | ⟨hd, hmet⟩ | ⟨hd, hmet, s', hs', hname⟩
    · have hlisted : d.isListedAs s.name = false := by simp [Declaration.isListedAs, hd]
      rw [collectSymbols_typeParameter hd, ih, List.find?_cons_of_neg (by simp [hlisted])]
    · rw [collectSymbols_met hmet, ih]
      by_cases hsame : d.name = s.name
      · simp [← hsame, hmet]
      · have hlisted : d.isListedAs s.name = false := by simp [Declaration.isListedAs, hsame]
        rw [List.find?_cons_of_neg (by simp [hlisted])]
    · rw [collectSymbols_cons hs' hmet, if_pos (.inl rfl), List.singleton_append, List.mem_cons,
        ih]
      by_cases hsame : d.name = s.name
      · have hlisted : d.isListedAs s.name = true := by simp [Declaration.isListedAs, hd, hsame]
        rw [List.find?_cons_of_pos hlisted, Option.bind_some, hs', ← hsame]
        simp [hmet, eq_comm]
      · have hlisted : d.isListedAs s.name = false := by simp [Declaration.isListedAs, hsame]
        have hne : s ≠ s' := by
          rintro rfl
          exact hsame hname.symm
        rw [List.find?_cons_of_neg (by simp [hlisted])]
        simp [hne, Ne.symm hsame]

/-! ### Models of documents -/

/-- The names of a model are those of its document, or it knows none. -/
theorem build_lists_or_empty (text : List Char) (root : Node) :
    (build text root).bindings.Lists ∨ (build text root).bindings = .empty := by
  unfold build
  cases root.ensureDepth maxModelDepth with
  | error _ => exact .inr rfl
  | ok root => exact .inl (Binder.resolveTypes_lists root text)

/-- What a name refers to as a value is among the declarations around the offset. -/
theorem exists_around_of_resolve (text : List Char) (root : Node) {name : String} {offset : Nat}
    {id : DeclId} (hid : (build text root).bindings.resolve name offset .value = some id) :
    ∃ d ∈ (build text root).declarationsAround offset, d.name = name ∧ d.kind ≠ .typeParameter := by
  rcases build_lists_or_empty text root with hlists | hempty
  · obtain ⟨s, scope, d, hs, hscope, hmem, hd, hname, hspace⟩ := hlists.exists_of_resolve hid
    refine ⟨d, List.mem_flatMap.mpr ⟨s, hs, ?_⟩, hname, ?_⟩
    · rw [hscope]
      exact List.mem_filterMap.mpr ⟨id, hmem, hd⟩
    · intro hkind
      rw [hkind] at hspace
      exact absurd hspace (by decide)
  · rw [hempty] at hid
    cases hid

theorem symbolsInScope_build (text : List Char) (root : Node) (position : Position)
    (kinds : List SymbolKind) :
    (build text root).symbolsInScope position kinds =
      collectSymbols kinds []
        ((build text root).declarationsAround (Text.offsetOf text position)) := by
  unfold build symbolsInScope
  cases root.ensureDepth maxModelDepth <;> rfl

/-- The symbols at a position of a document have distinct names. Of all kinds, they are the names of
the declarations in the scopes around the position that are no type parameters, from the inside out
and each where it occurs first, and a symbol describes the first such declaration of its name. Every
name that refers to a value at the position is among them. Asking for some kinds gives those of
these kinds, in the same order. -/
theorem build_symbolsInScope (text : List Char) (root : Node) (position : Position) :
    let m := build text root
    let offset := Text.offsetOf text position
    let around := m.declarationsAround offset
    let symbols := m.symbolsInScope position []
    (∀ kinds, ((m.symbolsInScope position kinds).map (·.name)).Nodup) ∧
    symbols.map (·.name) =
      ((around.filter (·.kind != .typeParameter)).map (·.name)).eraseDups ∧
    (∀ s, s ∈ symbols ↔
      (around.find? (·.isListedAs s.name)).bind (·.symbol?) = some s) ∧
    (∀ name, (m.bindings.resolve name offset .value).isSome →
      name ∈ symbols.map (·.name)) ∧
    ∀ kinds, kinds ≠ [] →
      m.symbolsInScope position kinds = symbols.filter fun s => kinds.contains s.kind := by
  intro m offset around symbols
  have hsymbols : ∀ kinds, m.symbolsInScope position kinds = collectSymbols kinds [] around :=
    symbolsInScope_build text root position
  have hnames : symbols.map (·.name) =
      ((around.filter (·.kind != .typeParameter)).map (·.name)).eraseDups := by
    simpa [symbols, hsymbols] using map_name_collectSymbols [] around
  refine ⟨fun kinds => ?_, hnames, fun s => ?_, fun name hname => ?_, fun kinds hkinds => ?_⟩
  · rw [hsymbols]
    exact (nodup_collectSymbols kinds [] around).1
  · simpa [symbols, hsymbols] using mem_collectSymbols [] around
  · obtain ⟨id, hid⟩ := Option.isSome_iff_exists.mp hname
    obtain ⟨d, hd, rfl, hkind⟩ := exists_around_of_resolve text root hid
    rw [hnames, List.mem_eraseDups]
    apply List.mem_map_of_mem
    simpa [hkind] using hd
  · rw [hsymbols, collectSymbols_eq_filter hkinds, ← hsymbols]

section

open Node

/-- `let v = 1; function f(v) { }` -/
def shadowText : List Char :=
  "let v = 1; function f(v) \x7b \x7d".toList

def shadowTree : Node :=
  construct "program" 0 28 none
    [construct "lexical_declaration" 0 10 none
      [token "let" 0 3 (some "kind"),
        construct "variable_declarator" 4 9 none
          [construct "identifier" 4 5 (some "name") [],
            token "=" 6 7 none,
            construct "number" 8 9 (some "value") []],
        token ";" 9 10 none],
      construct "function_declaration" 11 28 none
        [token "function" 11 19 none,
          construct "identifier" 20 21 (some "name") [],
          construct "formal_parameters" 21 24 (some "parameters")
            [token "(" 21 22 none,
              construct "required_parameter" 22 23 none
                [construct "identifier" 22 23 (some "pattern") []],
              token ")" 23 24 none],
          construct "statement_block" 25 28 (some "body")
            [token "\x7b" 25 26 none, token "\x7d" 27 28 none]]]

/-- In the body of the function the parameter hides the variable, and both are of one kind. -/
theorem build_symbolsInScope_shadowed :
    let m := build shadowText shadowTree
    let symbols := m.symbolsInScope ⟨0, 26⟩ []
    (m.bindings.resolve "v" 26 .value).isSome ∧ symbols.map (·.name) = ["v", "f"] ∧
      "v" ∈ symbols.map (·.name) ∧
      m.symbolsInScope ⟨0, 26⟩ [.variable] =
        symbols.filter fun s => [.variable].contains s.kind := by
  intro m symbols
  have hoffset : Text.offsetOf shadowText ⟨0, 26⟩ = 26 := by decide +kernel
  have hresolve : (m.bindings.resolve "v" 26 .value).isSome = true := by decide +kernel
  obtain ⟨_, hnames, _, hlisted, hkinds⟩ := build_symbolsInScope shadowText shadowTree ⟨0, 26⟩
  rw [hoffset] at hnames hlisted
  refine ⟨hresolve, ?_, hlisted "v" hresolve, hkinds [.variable] (List.cons_ne_nil _ _)⟩
  rw [hnames]
  decide +kernel

end

end Model

end UtsInsight
