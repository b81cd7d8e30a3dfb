import UtsInsight.Proofs.Scope.Sites

/-!
# Names bound by parameters

The names that a pattern binds are found on the way down, and whether a parameter binds a name is
found on the way up. Both ways go through the same children: the value of a pair, the left side of a
default and the constructs of any other pattern. On the way up only the right side of a default is
told apart from the rest, so the two agree in trees in which nothing but these children looks like a
name or a pattern. The grammar says for some kinds of children where they stand; for identifiers and
patterns it is a condition on the tree.
-/
namespace UtsInsight

/-- A pattern with a default value. -/
def isDefaultKind (kind : String) : Bool :=
  kind == "assignment_pattern" || kind == "object_assignment_pattern"

/-- Of the children of a pair only the value is an identifier or a pattern, and of those of a
pattern with a default value only the two sides. -/
def Node.HoldsPatterns (n : Node) : Prop :=
  ∀ c ∈ (Place.ofRoot n).children,
    c.node.kind = "identifier" ∨ isPatternKind c.node.kind = true →
      (n.kind = "pair_pattern" → c.isChild "value" = true) ∧
      (n.kind = "assignment_pattern" ∨ n.kind = "object_assignment_pattern" →
        c.isChild "left" = true ∨ c.isChild "right" = true)

instance (n : Node) : Decidable n.HoldsPatterns :=
  inferInstanceAs (Decidable (∀ c ∈ _, _))

namespace Place

variable {p q : Place} {role : String}

/-! ### Children in a role -/

theorem isChild_of_getElem? {i : Nat} (h : p.children[i]? = some q) :
    q.isChild role = (p.node.children.findIdx? (·.field == some role) == some i) := by
  rw [getElem?_children] at h
  obtain ⟨c, -, rfl⟩ := Option.map_eq_some_iff.mp h
  rfl

theorem isChild_iff (hq : q ∈ p.children) : q.isChild role = true ↔ p.child? role = some q := by
  obtain ⟨i, hi, rfl⟩ := List.mem_iff_getElem.mp hq
  rw [isChild_of_getElem? (List.getElem?_eq_getElem hi), beq_iff_eq, ← map_node_children,
    List.findIdx?_map, List.findIdx?_eq_some_iff_getElem, child?, List.find?_eq_some_iff_getElem]
  constructor
  · rintro ⟨_, hrole, hbefore⟩
    refine ⟨hrole, i, hi, rfl, fun j hj => ?_⟩
    rw [Bool.not_eq_true', Bool.eq_false_iff]
    exact hbefore j hj
  · rintro ⟨hrole, j, hj, heq, hbefore⟩
    obtain rfl := (p.nodup_children.getElem_inj_iff).mp heq
    refine ⟨hi, hrole, fun k hk => ?_⟩
    exact Bool.eq_false_iff.mp ((Bool.not_eq_true' _).mp (hbefore k hk))

/-- A child is in one role only. -/
theorem isChild_eq_false {other : String} (hq : p.child? role = some q) (hne : role ≠ other) :
    q.isChild other = false := by
  rw [Bool.eq_false_iff, Ne, isChild_iff (mem_children_of_child? hq)]
  intro hother
  exact hne (Option.some.inj ((field_of_child? hq).symm.trans (field_of_child? hother)))

/-! ### One step up -/

theorem inParameterPattern_child (hq : q ∈ p.children) :
    q.inParameterPattern =
      if isPatternKind p.node.kind then
        if isDefaultKind p.node.kind && q.isChild "right" then false else p.inParameterPattern
      else isParameterKind p.node.kind && q.isChild "pattern" := by
  obtain ⟨i, c, -, rfl⟩ := eq_of_mem_children hq
  rfl

end Place

theorem isDefaultKind_iff {kind : String} : isDefaultKind kind = true ↔
    kind = "assignment_pattern" ∨ kind = "object_assignment_pattern" := by
  rw [isDefaultKind, Bool.or_eq_true, beq_iff_eq, beq_iff_eq]

/-! ### Parts of patterns -/

/-- The three ways from a pattern to smaller ones. -/
theorem patternForm_of_isPatternKind {kind : String} (h : isPatternKind kind = true) :
    (kind = "pair_pattern" ∧ patternForm kind = .role "value") ∨
      (isDefaultKind kind = true ∧ patternForm kind = .role "left") ∨
      (isDefaultKind kind = false ∧ patternForm kind = .parts) := by
  have hkinds : ∀ k ∈ patternKinds,
      (k = "pair_pattern" ∧ patternForm k = .role "value") ∨
        (isDefaultKind k = true ∧ patternForm k = .role "left") ∨
        (isDefaultKind k = false ∧ patternForm k = .parts) := by decide
  exact hkinds kind (List.contains_iff_mem.mp h)

theorem mem_bindingKinds_of_isPatternKind {kind : String} (h : isPatternKind kind = true) :
    kind ∈ bindingKinds :=
  List.mem_cons_of_mem _ (List.mem_cons_of_mem _ (List.contains_iff_mem.mp h))

theorem patternForm_of_not_isPatternKind {kind : String} (h : ¬ isPatternKind kind = true) :
    patternForm kind = .name ∨ patternForm kind = .none := by
  have hkinds : ∀ k ∈ bindingKinds, isPatternKind k = true ∨ patternForm k = .name := by decide
  by_cases hnone : patternForm kind = .none
  · exact .inr hnone
  · exact .inl ((hkinds kind (mem_bindingKinds hnone)).resolve_left h)

namespace Place

variable {p q : Place} {root : Node}

/-- The smaller patterns of a pattern. -/
def parts (p : Place) : List Place :=
  match patternForm p.node.kind with
  | .role role => (p.child? role).toList
  | .parts => p.constructs
  | .name | .none => []

theorem boundNames_of_pattern (h : isPatternKind p.node.kind = true) :
    p.boundNames = p.parts.flatMap (·.boundNames) := by
  rw [boundNames_eq, parts]
  rcases patternForm_of_isPatternKind h with ⟨-, hform⟩ | ⟨-, hform⟩ | ⟨-, hform⟩
  all_goals rw [hform]

theorem boundNames_of_name (h : patternForm p.node.kind = .name) : p.boundNames = [p] := by
  rw [boundNames_eq, h]

theorem mem_children_of_mem_parts (h : q ∈ p.parts) : q ∈ p.children := by
  rw [parts] at h
  cases hform : patternForm p.node.kind with
  | role role =>
    rw [hform] at h
    exact mem_children_of_child? (Option.mem_toList.mp h)
  | parts =>
    rw [hform] at h
    exact mem_children_of_mem_constructs h
  | name =>
    rw [hform] at h
    cases h
  | none =>
    rw [hform] at h
    cases h

/-- The right side of a default is no part of the pattern. -/
theorem not_right_of_mem_parts (hpattern : isPatternKind p.node.kind = true) (h : q ∈ p.parts) :
    (isDefaultKind p.node.kind && q.isChild "right") = false := by
  rw [Bool.and_eq_false_imp]
  intro hdefault
  rw [parts] at h
  rcases patternForm_of_isPatternKind hpattern with ⟨hpair, -⟩ | ⟨-, hform⟩ | ⟨hplain, -⟩
  · rw [hpair] at hdefault
    exact absurd hdefault (by decide)
  · rw [hform] at h
    exact isChild_eq_false (Option.mem_toList.mp h) (by decide)
  · exact absurd (hplain.symm.trans hdefault) Bool.false_ne_true

/-- The roles of identifiers and patterns are those that the condition on the tree gives them. -/
theorem roles_of_holdsPatterns (h : p.node.HoldsPatterns) (hq : q ∈ p.children)
    (hkind : q.node.kind = "identifier" ∨ isPatternKind q.node.kind = true) :
    (p.node.kind = "pair_pattern" → q.isChild "value" = true) ∧
      (isDefaultKind p.node.kind = true → q.isChild "left" = true ∨ q.isChild "right" = true) := by
  obtain ⟨i, c, hc, rfl⟩ := eq_of_mem_children hq
  -- the roles of a child are those that it has in the tree that begins with its parent
  have hmem : (⟨c, [⟨p.node, i⟩]⟩ : Place) ∈ (ofRoot p.node).children := by
    refine List.mem_of_getElem? (i := i) ?_
    rw [getElem?_children]
    exact congrArg _ hc
  have hroles := h ⟨c, [⟨p.node, i⟩]⟩ hmem hkind
  exact hroles.imp_right fun hsides hdefault => hsides (isDefaultKind_iff.mp hdefault)

/-- The roles of names that are properties as well are those of the grammar. -/
theorem roles_of_grammatical (h : p.node.Grammatical) (hq : q ∈ p.children)
    (hkind : q.node.kind = "shorthand_property_identifier_pattern") :
    p.node.kind ≠ "pair_pattern" ∧
      (isDefaultKind p.node.kind = true → q.isChild "left" = true) := by
  have hnone : ¬ (p.node.kind = "pair_pattern" ∨ p.node.kind = "assignment_pattern") :=
    fun hparent => h.shorthand hparent q.node (node_mem_of_mem_children hq) hkind
  refine ⟨mt .inl hnone, fun hdefault => ?_⟩
  have hparent := (isDefaultKind_iff.mp hdefault).resolve_left (mt .inr hnone)
  obtain ⟨i, c, hc, rfl⟩ := eq_of_mem_children hq
  obtain ⟨hi, rfl⟩ := List.getElem?_eq_some_iff.mp hc
  exact h.shorthandLeft hparent i hi hkind

theorem roles_of_bindingKind (hgrammar : p.node.Grammatical) (hholds : p.node.HoldsPatterns)
    (hq : q ∈ p.children) (hkind : q.node.kind ∈ bindingKinds) :
    (p.node.kind = "pair_pattern" → q.isChild "value" = true) ∧
      (isDefaultKind p.node.kind = true → q.isChild "left" = true ∨ q.isChild "right" = true) := by
  simp only [bindingKinds, List.mem_cons] at hkind
  rcases hkind with hkind | hkind | hkind
  · exact roles_of_holdsPatterns hholds hq (.inl hkind)
  · obtain ⟨hpair, hleft⟩ := roles_of_grammatical hgrammar hq hkind
    exact ⟨fun hparent => absurd hparent hpair, fun hdefault => .inl (hleft hdefault)⟩
  · exact roles_of_holdsPatterns hholds hq (.inr (List.contains_iff_mem.mpr hkind))

/-- What looks like a name or a pattern is a part, unless it is the right side of a default. -/
theorem mem_parts (hgrammar : p.node.Grammatical) (hholds : p.node.HoldsPatterns)
    (hpattern : isPatternKind p.node.kind = true) (hq : q ∈ p.children)
    (hnamed : q.node.isNamed = true) (hkind : q.node.kind ∈ bindingKinds)
    (hright : ¬ (isDefaultKind p.node.kind && q.isChild "right") = true) : q ∈ p.parts := by
  have hroles := roles_of_bindingKind hgrammar hholds hq hkind
  rw [parts]
  rcases patternForm_of_isPatternKind hpattern with ⟨hpair, hform⟩ | ⟨hdefault, hform⟩ | ⟨-, hform⟩
  · rw [hform]
    exact Option.mem_toList.mpr ((isChild_iff hq).mp (hroles.1 hpair))
  · rw [hdefault, Bool.true_and] at hright
    rw [hform]
    exact Option.mem_toList.mpr ((isChild_iff hq).mp ((hroles.2 hdefault).resolve_right hright))
  · rw [hform]
    exact List.mem_filter.mpr ⟨hq, hnamed⟩

/-! ### The way up -/

/-- The way up ends at the pattern of a parameter, which binds what is bound where it began. -/
theorem exists_parameter (hgrammar : root.Everywhere Node.Grammatical)
    (hroot : root.Everywhere Node.HoldsPatterns) (hp : Below (ofRoot root) p)
    (hnamed : p.node.isNamed = true) (hkind : p.node.kind ∈ bindingKinds)
    (h : p.inParameterPattern = true) :
    ∃ r q, Below (ofRoot root) r ∧ isParameterKind r.node.kind = true ∧
      r.child? "pattern" = some q ∧ p.boundNames ⊆ q.boundNames := by
  induction hp with
  | refl => cases h
  | @child p i c hp hc ih =>
    have hmem : (⟨c, ⟨p.node, i⟩ :: p.steps⟩ : Place) ∈ p.children := by
      refine List.mem_of_getElem? (i := i) ?_
      rw [getElem?_children, hc]
      rfl
    generalize (⟨c, ⟨p.node, i⟩ :: p.steps⟩ : Place) = q at hmem hnamed hkind h ⊢
    rw [inParameterPattern_child hmem] at h
    split_ifs at h with hpattern hright
    · -- the parent is a pattern itself, and the way goes on from there
      have hplace := hp.at? rfl
      have hparent := (hgrammar.at? hplace).self
      obtain ⟨r, q', hr, hparameter, hq', hsubset⟩ :=
        ih (hparent.pattern hpattern) (mem_bindingKinds_of_isPatternKind hpattern) h
      refine ⟨r, q', hr, hparameter, hq', fun x hx => hsubset ?_⟩
      rw [boundNames_of_pattern hpattern]
      have hpart := mem_parts hparent (hroot.at? hplace).self hpattern hmem hnamed hkind hright
      exact List.mem_flatMap.mpr ⟨q, hpart, hx⟩
    · obtain ⟨hparameter, hchild⟩ := Bool.and_eq_true_iff.mp h
      exact ⟨p, q, hp, hparameter, (isChild_iff hmem).mp hchild, List.Subset.refl _⟩

/-! ### The way down -/

/-- What is bound by a pattern that leads to a parameter leads to the parameter. -/
theorem inParameterPattern_of_mem_boundNames (hq : q.inParameterPattern = true)
    (hp : p ∈ q.boundNames) : p.inParameterPattern = true := by
  induction q using Place.induction with
  | h q ih =>
    by_cases hpattern : isPatternKind q.node.kind = true
    · rw [boundNames_of_pattern hpattern] at hp
      obtain ⟨c, hc, hp⟩ := List.mem_flatMap.mp hp
      have hmem := mem_children_of_mem_parts hc
      refine ih c hmem ?_ hp
      rw [inParameterPattern_child hmem, if_pos hpattern, not_right_of_mem_parts hpattern hc, hq]
      rfl
    · rcases patternForm_of_not_isPatternKind hpattern with hform | hform
      · rw [boundNames_of_name hform] at hp
        rwa [List.mem_singleton.mp hp]
      · rw [boundNames_eq, hform] at hp
        exact absurd hp List.not_mem_nil

theorem inParameterPattern_of_child? (hparameter : isParameterKind p.node.kind = true)
    (hq : p.child? "pattern" = some q) : q.inParameterPattern = true := by
  have hmem := mem_children_of_child? hq
  have hplain : ¬ isPatternKind p.node.kind = true := by
    have hkinds : ∀ k ∈ patternKinds, isParameterKind k = false := by decide
    intro hpattern
    rw [hkinds _ (List.contains_iff_mem.mp hpattern)] at hparameter
    cases hparameter
  rw [inParameterPattern_child hmem, if_neg hplain, hparameter, Bool.true_and]
  exact (isChild_iff hmem).mpr hq

/-- In a tree whose identifiers and patterns are in their places, a name leads up to a parameter if
and only if it is among the names that the pattern of some parameter binds. -/
theorem inParameterPattern_iff (tree : SyntaxTree)
    (hroot : tree.root.Everywhere Node.HoldsPatterns) (hp : Below (ofRoot tree.root) p)
    (hnamed : p.node.isNamed = true)
    (hkind : p.node.kind = "identifier" ∨ p.node.kind = "shorthand_property_identifier_pattern") :
    p.inParameterPattern = true ↔
      ∃ r q, Below (ofRoot tree.root) r ∧
        (r.node.kind = "required_parameter" ∨ r.node.kind = "optional_parameter") ∧
        r.child? "pattern" = some q ∧ p ∈ q.boundNames := by
  have hparameter : ∀ {kind}, isParameterKind kind = true ↔
      kind = "required_parameter" ∨ kind = "optional_parameter" := by
    intro kind
    rw [isParameterKind, Bool.or_eq_true, beq_iff_eq, beq_iff_eq]
  have hform : patternForm p.node.kind = .name := if_pos hkind
  constructor
  · intro h
    have hbinding : p.node.kind ∈ bindingKinds := mem_bindingKinds (by rw [hform]; decide)
    obtain ⟨r, q, hr, hkind, hq, hsubset⟩ :=
      exists_parameter tree.grammatical hroot hp hnamed hbinding h
    refine ⟨r, q, hr, hparameter.mp hkind, hq, hsubset ?_⟩
    rw [boundNames_of_name hform]
    exact List.mem_singleton_self p
  · rintro ⟨r, q, -, hkind, hq, hmem⟩
    exact inParameterPattern_of_mem_boundNames
      (inParameterPattern_of_child? (hparameter.mpr hkind) hq) hmem

section

open Node

/-- The tree of `function f({ a: b = c, d = (e) => e }) {}`. -/
def defaultsTree : Node :=
  let pair : Node :=
    construct "pair_pattern" 13 21 none
      [construct "property_identifier" 13 14 (some "key") [], token ":" 14 15 none,
        construct "assignment_pattern" 16 21 (some "value")
          [construct "identifier" 16 17 (some "left") [], token "=" 18 19 none,
            construct "identifier" 20 21 (some "right") []]]
  let function : Node :=
    construct "arrow_function" 27 35 (some "right")
      [construct "formal_parameters" 27 30 (some "parameters")
          [token "(" 27 28 none,
            construct "required_parameter" 28 29 none
              [construct "identifier" 28 29 (some "pattern") []],
            token ")" 29 30 none],
        token "=>" 31 33 none, construct "identifier" 34 35 (some "body") []]
  let pattern : Node :=
    construct "object_pattern" 11 37 (some "pattern")
      [token "\x7b" 11 12 none, pair, token "," 21 22 none,
        construct "object_assignment_pattern" 23 35 none
          [construct "shorthand_property_identifier_pattern" 23 24 (some "left") [],
            token "=" 25 26 none, function],
        token "\x7d" 36 37 none]
  construct "program" 0 41 none
    [construct "function_declaration" 0 41 none
      [token "function" 0 8 none, construct "identifier" 9 10 (some "name") [],
        construct "formal_parameters" 10 38 (some "parameters")
          [token "(" 10 11 none, construct "required_parameter" 11 37 none [pattern],
            token ")" 37 38 none],
        construct "statement_block" 39 41 (some "body")
          [token "\x7b" 39 40 none, token "\x7d" 40 41 none]]]

/-- Of the names in the tree, parameters bind `b`, `d` and the `e` that is a parameter inside a
default value. They do not bind the default value `c`. -/
theorem inParameterPattern_iff_defaults :
    defaultsTree.Everywhere Node.Grammatical ∧ defaultsTree.Everywhere Node.HoldsPatterns ∧
      ∀ p ∈ defaultsTree.checkedPlaces [],
        p.node.kind = "identifier" ∨ p.node.kind = "shorthand_property_identifier_pattern" →
          ((∃ r q, Below (ofRoot defaultsTree) r ∧
            (r.node.kind = "required_parameter" ∨ r.node.kind = "optional_parameter") ∧
            r.child? "pattern" = some q ∧ p ∈ q.boundNames) ↔
              p.node.range ∈ [(⟨16, 17⟩ : ByteSpan), ⟨23, 24⟩, ⟨28, 29⟩]) := by
  have hgrammar : defaultsTree.Everywhere Node.Grammatical := by decide +kernel
  have hroot : defaultsTree.Everywhere Node.HoldsPatterns := by decide +kernel
  have hnames : ∀ p ∈ defaultsTree.checkedPlaces [], p.node.isNamed = true ∧
      (p.node.kind = "identifier" ∨ p.node.kind = "shorthand_property_identifier_pattern" →
        (p.inParameterPattern = true ↔
          p.node.range ∈ [(⟨16, 17⟩ : ByteSpan), ⟨23, 24⟩, ⟨28, 29⟩])) := by decide +kernel
  refine ⟨hgrammar, hroot, fun p hp hkind => ?_⟩
  obtain ⟨hnamed, hbound⟩ := hnames p hp
  have hbelow := below_of_mem_checkedPlaces defaultsTree [] hp
  rw [← inParameterPattern_iff ⟨defaultsTree, hgrammar⟩ hroot hbelow hnamed hkind]
  exact hbound hkind

end

end Place

end UtsInsight
