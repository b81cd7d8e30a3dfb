import UtsInsight.Proofs.Finding.Sources
import UtsInsight.Proofs.Scope.Comments
import UtsInsight.Proofs.Typing.Comments

/-!
# Findings without comments

Nothing is found at a comment, and what is found anywhere else is found without comments too, at the
same bytes. So a document has the same findings, and its declarations the same types, without its
comments, as long as no comment is taken for a construct.
-/
namespace UtsInsight

open Node (CommentsAside)

variable {root n c : Node} {source : List Char} {b : Bindings} {p p' : Place}

/-! ### Syntax errors -/

mutual

theorem syntaxErrors_bare (source : List Char) : ∀ n : Node, n.Everywhere CommentsAside →
    n.bare.syntaxErrors source = n.syntaxErrors source
  | ⟨info, children⟩, h => by
    have hrange := Node.range_bare ⟨info, children⟩
    have hchars := Node.chars_bare ⟨info, children⟩ source
    simp only [Node.bare] at hrange hchars ⊢
    simp only [Node.syntaxErrors, hrange, hchars, syntaxErrorsBelow_bare source children h.2]

theorem syntaxErrorsBelow_bare (source : List Char) : ∀ cs : List Node,
    EverywhereBelow CommentsAside cs →
      syntaxErrorsBelow source (bareBelow cs) = syntaxErrorsBelow source cs
  | [], _ => rfl
  | c :: cs, h => by
    have hrest := syntaxErrorsBelow_bare source cs h.2
    cases hc : c.isComment with
    | true =>
      obtain ⟨info, rfl, _, herror, hmissing⟩ := h.1.self.1.exists_leaf hc
      have hnone : Node.syntaxErrors source ⟨info, []⟩ = [] := by
        simp [Node.syntaxErrors, syntaxErrorsBelow, herror, hmissing]
      simp [bareBelow, hc, syntaxErrorsBelow, hnone, hrest]
    | false =>
      simp [bareBelow, hc, syntaxErrorsBelow, hrest, syntaxErrors_bare source c h.1]

end

/-! ### Names -/

namespace Place.Bare

theorem any_head?_ancestors (h : Bare p p') {q : Node → Bool} (hq : ∀ n : Node, q n.bare = q n) :
    p'.ancestors.head?.any q = p.ancestors.head?.any q := by
  rw [h.ancestors, List.head?_map]
  cases p.ancestors.head? <;> simp [hq]

/-- Whether the export around a name is one from elsewhere. -/
theorem any_exported (h : Bare p p') :
    ((p'.ancestorOfKind? ["export_statement"]).any fun e => (e.child? "source").isSome) =
      (p.ancestorOfKind? ["export_statement"]).any fun e => (e.child? "source").isSome := by
  rw [h.ancestorOfKind?]
  cases hexport : p.ancestorOfKind? ["export_statement"] with
  | none => rfl
  | some e =>
    have haside := h.aside_of_mem_ancestors (List.mem_of_find?_eq_some hexport)
    simp [Node.child?_bare haside.plain]

theorem isReferencePosition (h : Bare p p') :
    p'.isReferencePosition = p.isReferencePosition := by
  have hexported := h.any_exported
  have halias := h.isChild "alias"
  obtain ⟨node, steps⟩ := p
  obtain ⟨node', steps'⟩ := p'
  cases h.steps with
  | nil => rfl
  | @cons s s' rest rest' hstep hrest =>
    have hparent : Bare ⟨s.parent, rest⟩ ⟨s.parent.bare, rest'⟩ := ⟨rfl, hrest, hstep.aside⟩
    have hnamespace := hparent.any_head?_ancestors
      (q := fun n => n.kind == "internal_module" || n.kind == "module") (by simp)
    simp only [Place.isReferencePosition, Place.parent?, halias, hexported, hnamespace,
      hstep.parent, Node.bare_toNodeInfo]

theorem isReference (h : Bare p p') (b : Bindings) : p'.isReference b = p.isReference b := by
  simp only [Place.isReference, h.node, Node.bare_toNodeInfo, Node.range_bare, h.inParameterPattern,
    h.ancestorOfKind?, Option.isNone_map, h.isReferencePosition]

theorem target? (h : Bare p p') (b : Bindings) (source : List Char) :
    p'.target? b source = p.target? b source := by
  simp only [Place.target?, h.node, Node.text_bare, Node.bare_toNodeInfo]

theorem unknownName? (h : Bare p p') (b : Bindings) (source : List Char) :
    p'.unknownName? b source = p.unknownName? b source := by
  simp only [Place.unknownName?, h.isReference, h.target?, h.node, Node.text_bare, Node.range_bare]

end Place.Bare

/-! ### Statements -/

@[simp] theorem literalType?_bare (n : Node) (source : List Char) :
    n.bare.literalType? source = n.literalType? source := by
  simp [Node.literalType?]

@[simp] theorem mismatch?_bare (expected : String) (n : Node) (source : List Char) :
    mismatch? expected n.bare source = mismatch? expected n source := by
  simp [mismatch?]

theorem initializerMismatch?_bare (h : n.Everywhere CommentsAside) :
    initializerMismatch? n.bare source = initializerMismatch? n source := by
  unfold initializerMismatch?
  simp only [Node.child?_bare h.plain]
  cases n.child? "name" with
  | none => rfl
  | some name =>
    cases htype : n.child? "type" with
    | none => rfl
    | some stated =>
      have hstated := Node.annotationText_bare (h.child? htype).self.2 source
      cases n.child? "value" <;> simp [hstated]

theorem Place.Bare.returnMismatch? (h : p.Bare p') (hkind : p.node.kind = "return_statement") :
    returnMismatch? p' source = UtsInsight.returnMismatch? p source := by
  have hhead := h.aside.self.2
  rw [Node.takesComment_of_first (by simp [firstTakers, hkind])] at hhead
  unfold UtsInsight.returnMismatch?
  rw [h.node, Node.namedChildren_bare, head?_bareBelow hhead, h.ancestorOfKind?]
  cases p.node.namedChildren.head? with
  | none => rfl
  | some value =>
    cases hfunction : p.ancestorOfKind? functionKinds with
    | none => rfl
    | some function =>
      have haside := h.aside_of_mem_ancestors (List.mem_of_find?_eq_some hfunction)
      simp only [Option.map_some, Option.bind_eq_bind, Option.bind_some,
        Node.child?_bare haside.plain]
      cases hstated : function.child? "return_type" with
      | none => rfl
      | some stated => simp [Node.annotationText_bare (haside.child? hstated).self.2]

/-- Comments are no statements. -/
theorem unreachableStatements_bare (n : Node) :
    unreachableStatements n.bare = (unreachableStatements n).map Node.bare := by
  have hstatements :
      n.bare.namedChildren.filter (fun c => c.kind != "comment" && c.kind != "empty_statement") =
      (n.namedChildren.filter fun c => c.kind != "comment" && c.kind != "empty_statement").map
        Node.bare := by
    rw [Node.namedChildren_bare, filter_bareBelow (by simp), bareBelow_eq_map, List.filter_filter]
    congr 1
    apply List.filter_congr
    intro c _
    simp [Node.isComment, bne]
  unfold unreachableStatements
  simp only [hstatements, List.dropWhile_map, List.filter_map, ← List.map_drop]
  simp [Function.comp_def]

theorem unreachable?_bare (n : Node) : unreachable? n.bare = unreachable? n := by
  unfold unreachable?
  rw [unreachableStatements_bare, List.head?_map, List.getLast?_map]
  cases (unreachableStatements n).head? <;> cases (unreachableStatements n).getLast? <;> simp

/-! ### Checked places -/

theorem Place.Bare.findings (h : p.Bare p') (b : Bindings) (source : List Char) :
    p'.findings b source = p.findings b source := by
  unfold Place.findings
  rw [h.unknownName?, h.node, Node.bare_toNodeInfo, initializerMismatch?_bare h.aside,
    unreachable?_bare]
  split_ifs with _ _ hreturn
  · rfl
  · rfl
  · rw [h.returnMismatch? hreturn]
  · rfl
  · rfl

theorem findings_comment (h : p.node.isComment = true) : p.findings b source = [] := by
  have hkind : p.node.kind = "comment" := beq_iff_eq.mp h
  simp [Place.findings, hkind]

theorem isReference_comment (h : p.node.isComment = true) : p.isReference b = false := by
  have hkind : p.node.kind = "comment" := beq_iff_eq.mp h
  simp [Place.isReference, hkind]

section

variable {α : Type} {f : Place → List α}

mutual

/-- What is collected at the checked places is the same without comments, if nothing is collected at
a comment. -/
theorem flatMap_checkedPlaces_bare (hbare : ∀ {p p' : Place}, p.Bare p' → f p' = f p)
    (hcomment : ∀ p : Place, p.node.isComment = true → f p = []) :
    ∀ (n : Node) {steps steps' : List Step}, Place.Bare ⟨n, steps⟩ ⟨n.bare, steps'⟩ →
      (n.bare.checkedPlaces steps').flatMap f = (n.checkedPlaces steps).flatMap f
  | ⟨info, children⟩, steps, steps', hp => by
    have hbelow := flatMap_checkedBelow_bare hbare hcomment children [] rfl hp
    have hhere := hbare hp
    simp only [Node.bare] at hbelow hhere ⊢
    unfold Node.checkedPlaces
    split
    · rfl
    · rw [List.flatMap_cons, List.flatMap_cons, hhere]
      exact congrArg (_ ++ ·) hbelow

theorem flatMap_checkedBelow_bare (hbare : ∀ {p p' : Place}, p.Bare p' → f p' = f p)
    (hcomment : ∀ p : Place, p.node.isComment = true → f p = []) :
    ∀ (cs before : List Node) {parent : Node} {steps steps' : List Step},
      parent.children = before ++ cs → Place.Bare ⟨parent, steps⟩ ⟨parent.bare, steps'⟩ →
      (checkedBelow steps' parent.bare (bareBelow before).length (bareBelow cs)).flatMap f =
        (checkedBelow steps parent before.length cs).flatMap f
  | [], _, _, _, _, _, _ => rfl
  | c :: cs, before, parent, steps, steps', hchildren, hp => by
    have hrest := flatMap_checkedBelow_bare hbare hcomment cs (before ++ [c])
      (by simp [hchildren]) hp
    simp only [List.length_append, List.length_singleton, bareBelow_append] at hrest
    cases hc : c.isComment with
    | true =>
      have hnothing : (c.checkedPlaces (⟨parent, before.length⟩ :: steps)).flatMap f = [] := by
        have hplain := hp.aside.plain c (by simp [hchildren])
        have hhere := hcomment ⟨c, ⟨parent, before.length⟩ :: steps⟩ hc
        obtain ⟨info, rfl, _⟩ := hplain.exists_leaf hc
        unfold Node.checkedPlaces
        split <;> simp [checkedBelow, hhere]
      simp only [bareBelow, hc, if_true] at hrest ⊢
      rw [checkedBelow, List.flatMap_append, ← hrest]
      cases c.isNamed <;> simp [hnothing]
    | false =>
      have hchild := flatMap_checkedPlaces_bare hbare hcomment c (hp.child hchildren hc)
      simp only [bareBelow, hc, Bool.false_eq_true, if_false, List.length_singleton] at hrest ⊢
      rw [checkedBelow, checkedBelow, List.flatMap_append, List.flatMap_append, hrest,
        Node.bare_toNodeInfo]
      cases c.isNamed <;> simp [hchild]

end

end

theorem referenceTargets_bare (haside : root.Everywhere CommentsAside) (b : Bindings)
    (source : List Char) :
    referenceTargets b source (root.bare.checkedPlaces []) =
      referenceTargets b source (root.checkedPlaces []) := by
  unfold referenceTargets
  rw [List.filterMap_eq_flatMap_toList, List.filterMap_eq_flatMap_toList]
  apply flatMap_checkedPlaces_bare
  · intro p p' h
    rw [h.isReference, h.target?]
  · intro p h
    simp [isReference_comment h]
  · exact ⟨rfl, .nil, haside⟩

theorem check_bare (haside : root.Everywhere CommentsAside) (source : List Char) (b : Bindings) :
    check root.bare source b = check root source b := by
  have hplaces : (root.bare.checkedPlaces []).flatMap (·.findings b source) =
      (root.checkedPlaces []).flatMap (·.findings b source) :=
    flatMap_checkedPlaces_bare (fun h => h.findings b source) (fun _ h => findings_comment h) root
      ⟨rfl, .nil, haside⟩
  unfold check collectFindings
  simp only [syntaxErrors_bare source root haside, hplaces, referenceTargets_bare haside,
    Node.bare_toNodeInfo]

/-! ### Documents -/

/-- Nothing is found at a `return` that takes a comment for its value. -/
theorem findings_of_takesComment (hkind : n.kind = "return_statement") (h : n.takesComment = true)
    (steps : List Step) (b : Bindings) (source : List Char) :
    (Place.mk n steps).findings b source = [] := by
  obtain ⟨c, hc, hcomment⟩ := n.exists_of_takesComment (by simp [firstTakers, hkind]) h
  have hliteral : c.literalType? source = none := by
    have hcommentKind : c.kind = "comment" := beq_iff_eq.mp hcomment
    simp [Node.literalType?, hcommentKind]
  have hmismatch : ∀ expected, mismatch? expected c source = none := by
    intro expected
    simp [mismatch?, hliteral]
  simp [Place.findings, hkind, returnMismatch?, hc, hmismatch]

/-- Comments change neither types nor findings as long as none is taken for a construct. A comment
that is taken hides what is behind it: nothing is found at a `return`, and a value has the unknown
type. -/
theorem semantics_bare (hroot : root.WellFormed) (hplain : root.Everywhere Node.PlainIfComment)
    (source : List Char) :
    let b := (Binder.bind root source).resolveTypes root source
    (root.Everywhere (fun n => n.takesComment = false) →
      (Binder.bind root.bare source).resolveTypes root.bare source = b ∧
        check root.bare source b = check root source b) ∧
    ∀ n : Node, n.takesComment = true →
      (∀ (context : TypingContext) (lookup : DeclId → StateM ProgressTable String),
        n.Obscured context lookup) ∧
      (n.kind = "return_statement" → ∀ steps, (Place.mk n steps).findings b source = []) := by
  intro b
  constructor
  · intro htakes
    have haside : root.Everywhere CommentsAside := hplain.and htakes
    have hsources := Binder.bind_pastComments root source
    refine ⟨?_, check_bare haside source b⟩
    rw [Binder.bind_bare haside, resolveTypes_bare hroot haside hsources]
  · intro n hn
    exact ⟨fun context lookup => n.obscured_of_takesComment context lookup hn,
      fun hkind steps => findings_of_takesComment hkind hn steps b source⟩

section

open Node (construct token)

/-- The tree of a function of the given statement, with the return type `number`. -/
def returningTree (statement : Node) : Node :=
  construct "program" 0 44 none
    [construct "function_declaration" 0 44 none
      [token "function" 0 8 none,
        construct "identifier" 9 10 (some "name") [],
        construct "formal_parameters" 10 12 (some "parameters")
          [token "(" 10 11 none, token ")" 11 12 none],
        construct "type_annotation" 12 20 (some "return_type")
          [token ":" 12 13 none,
            construct "predefined_type" 14 20 none [token "number" 14 20 none]],
        construct "statement_block" 21 44 (some "body")
          [token "\x7b" 21 22 none, statement, token "\x7d" 43 44 none]]]

def commentBehindText : List Char :=
  "function f(): number \x7b return 's' /* c */; \x7d".toList

def commentBehind : Node :=
  construct "return_statement" 23 42 none
    [token "return" 23 29 none,
      construct "string" 30 33 none
        [token "'" 30 31 none, construct "string_fragment" 31 32 none [], token "'" 32 33 none],
      construct "comment" 34 41 none [],
      token ";" 41 42 none]

def commentBeforeText : List Char :=
  "function f(): number \x7b return /* c */ 's'; \x7d".toList

def commentBefore : Node :=
  construct "return_statement" 23 42 none
    [token "return" 23 29 none,
      construct "comment" 30 37 none [],
      construct "string" 38 41 none
        [token "'" 38 39 none, construct "string_fragment" 39 40 none [], token "'" 40 41 none],
      token ";" 41 42 none]

/-- Behind a returned value a comment is of no matter, and before it the value is overlooked. -/
theorem semantics_bare_returned :
    let behind := returningTree commentBehind
    let before := returningTree commentBefore
    let b := (Binder.bind behind commentBehindText).resolveTypes behind commentBehindText
    let b' := (Binder.bind before commentBeforeText).resolveTypes before commentBeforeText
    (Binder.bind behind.bare commentBehindText).resolveTypes behind.bare commentBehindText = b ∧
      ⟨⟨30, 33⟩, .notAssignable "string" "number"⟩ ∈ check behind.bare commentBehindText b ∧
      ∀ steps, (Place.mk commentBefore steps).findings b' commentBeforeText = [] := by
  intro behind before b b'
  have hbehind : behind.WellFormed ∧ behind.Everywhere Node.PlainIfComment := by decide
  have hbefore : before.WellFormed ∧ before.Everywhere Node.PlainIfComment := by decide
  have haside : behind.Everywhere fun n => n.takesComment = false := by decide
  have htaken : commentBefore.takesComment = true := by decide
  obtain ⟨hb, hcheck⟩ := (semantics_bare hbehind.1 hbehind.2 commentBehindText).1 haside
  refine ⟨hb, ?_, ((semantics_bare hbefore.1 hbefore.2 commentBeforeText).2 _ htaken).2 rfl⟩
  rw [hcheck]
  obtain ⟨p, hp, hf⟩ : ∃ p ∈ behind.checkedPlaces [],
      ⟨⟨30, 33⟩, .notAssignable "string" "number"⟩ ∈ p.findings b commentBehindText := by
    decide +kernel
  exact mem_check_of_mem_findings hp hf

end

end UtsInsight
