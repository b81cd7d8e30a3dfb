import UtsInsight.Proofs.Finding.Sources
import UtsInsight.Proofs.Syntax.WellFormed
import UtsInsight.Scope.Binder

/-!
# Names that are exported from elsewhere

The names in an export with a source belong to another document, and the rule for exports says that
they are no references. The construct right around a name is looked at first, however: the names
listed in the braces of an export are taken for references whether or not there is a source. Here
every name that is reported or counted is shown to be a reference, and for names in an export from
elsewhere the ways past the rule are told apart.
-/
namespace UtsInsight

namespace Place

variable {p : Place} {b : Bindings} {source : List Char}

/-- An export from elsewhere is around the place. -/
def InReexport (p : Place) : Prop :=
  ∃ e ∈ p.ancestors, e.kind = "export_statement" ∧ (e.child? "source").isSome

/-- The ways past the rule that names in an export from elsewhere are no references. -/
inductive EscapesReexport (p : Place) : Prop
  /-- The name is listed in the braces, and is not the new name that it gets. -/
  | listed {parent : Place} (hparent : p.parent? = some parent)
    (hkind : parent.node.kind = "export_specifier") (halias : p.isChild "alias" = false)
  /-- The name is a part of a dotted name that does not name a namespace. -/
  | dotted {parent : Place} (hparent : p.parent? = some parent)
    (hkind : parent.node.kind = "nested_identifier")
    (hspace : ∀ n ∈ parent.ancestors.head?, n.kind ≠ "internal_module" ∧ n.kind ≠ "module")
  /-- An export without a source stands between. -/
  | inner {parent : Place} {e : Node} (hparent : p.parent? = some parent)
    (hspecifier : parent.node.kind ≠ "export_specifier")
    (hdotted : parent.node.kind ≠ "nested_identifier")
    (hnearest : p.ancestorOfKind? ["export_statement"] = some e)
    (hsource : e.child? "source" = none)

/-- Nothing else keeps an identifier from being a reference: it declares nothing, no parameter binds
it, and it stands in no context without references. -/
structure MayRefer (p : Place) (b : Bindings) : Prop where
  undeclared : b.declarationNamedAt p.node.range = none
  unbound : p.inParameterPattern = false
  context : ∀ n ∈ p.ancestors, n.kind ∉ nonReferenceKinds

theorem InReexport.exists_nearest (h : p.InReexport) :
    ∃ e, p.ancestorOfKind? ["export_statement"] = some e := by
  obtain ⟨e, he, hkind, _⟩ := h
  refine Option.isSome_iff_exists.mp (List.find?_isSome.mpr ⟨e, he, ?_⟩)
  rw [hkind]
  rfl

theorem InReexport.exists_parent (h : p.InReexport) : ∃ parent, p.parent? = some parent := by
  obtain ⟨e, he, _⟩ := h
  unfold ancestors at he
  unfold parent?
  cases hsteps : p.steps with
  | nil =>
    rw [hsteps] at he
    exact absurd he List.not_mem_nil
  | cons s rest => exact ⟨_, rfl⟩

/-- In an export from elsewhere a place stands where references do only if it escapes the rule. -/
theorem InReexport.isReferencePosition_iff (h : p.InReexport) :
    p.isReferencePosition = true ↔ p.EscapesReexport := by
  obtain ⟨nearest, hnearest⟩ := h.exists_nearest
  obtain ⟨parent, hparent⟩ := h.exists_parent
  have hunique : ∀ {other}, p.parent? = some other → other = parent := fun hother =>
    Option.some.inj (hother.symm.trans hparent)
  unfold isReferencePosition
  rw [hparent]
  dsimp only
  by_cases hspecifier : parent.node.kind = "export_specifier"
  · rw [if_pos hspecifier, Bool.not_eq_true']
    refine ⟨.listed hparent hspecifier, fun hescapes => ?_⟩
    cases hescapes with
    | listed _ _ halias => exact halias
    | dotted hother hkind _ =>
      rw [hunique hother, hspecifier] at hkind
      exact absurd hkind (by decide)
    | inner hother hkind _ _ _ =>
      rw [hunique hother] at hkind
      exact absurd hspecifier hkind
  by_cases hdotted : parent.node.kind = "nested_identifier"
  · have hspace : (parent.ancestors.head?.any fun n =>
        n.kind == "internal_module" || n.kind == "module") = false ↔
        ∀ n ∈ parent.ancestors.head?, n.kind ≠ "internal_module" ∧ n.kind ≠ "module" := by
      cases parent.ancestors.head? with
      | none => simp
      | some n => simp
    rw [if_neg hspecifier, if_pos hdotted, Bool.not_eq_true', hspace]
    refine ⟨.dotted hparent hdotted, fun hescapes => ?_⟩
    cases hescapes with
    | listed hother hkind _ => exact absurd (hunique hother ▸ hkind) hspecifier
    | dotted hother _ hspace => exact hunique hother ▸ hspace
    | inner hother _ hkind _ _ => exact absurd hdotted (hunique hother ▸ hkind)
  · rw [if_neg hspecifier, if_neg hdotted, hnearest, Option.any_some, Bool.not_eq_true',
      Option.isSome_eq_false_iff, Option.isNone_iff_eq_none]
    refine ⟨.inner hparent hspecifier hdotted hnearest, fun hescapes => ?_⟩
    cases hescapes with
    | listed hother hkind _ => exact absurd (hunique hother ▸ hkind) hspecifier
    | dotted hother hkind _ => exact absurd (hunique hother ▸ hkind) hdotted
    | inner _ _ _ hother hsource =>
      rwa [Option.some.inj (hother.symm.trans hnearest)] at hsource

/-- An identifier in an export from elsewhere is a reference only if it escapes the rule. -/
theorem InReexport.isReference_iff (h : p.InReexport) (hkind : p.node.kind = "identifier")
    (b : Bindings) : p.isReference b = true ↔ p.EscapesReexport ∧ p.MayRefer b := by
  have hcontext : (p.ancestorOfKind? nonReferenceKinds).isNone = true ↔
      ∀ n ∈ p.ancestors, n.kind ∉ nonReferenceKinds := by
    rw [Option.isNone_iff_eq_none, ancestorOfKind?, List.find?_eq_none]
    simp only [List.contains_iff_mem]
  unfold isReference
  simp only [hkind, beq_self_eq_true, Bool.true_or, Bool.true_and, Bool.and_eq_true, hcontext,
    h.isReferencePosition_iff, Option.isNone_iff_eq_none, Bool.not_eq_true']
  exact ⟨fun ⟨⟨⟨hundeclared, hunbound⟩, hcontext⟩, hescapes⟩ =>
      ⟨hescapes, hundeclared, hunbound, hcontext⟩,
    fun ⟨hescapes, hmay⟩ => ⟨⟨⟨hmay.undeclared, hmay.unbound⟩, hmay.context⟩, hescapes⟩⟩

end Place

/-! ### What is reported and what is counted -/

section

variable {root : Node} {source : List Char} {b : Bindings} {p : Place} {f : Finding} {name : String}

/-- Only a reference to nothing is reported as an unknown name. -/
theorem reference_of_mem_check (hf : f ∈ check root source b)
    (hname : f.problem = .unknownName name) :
    ∃ p ∈ root.checkedPlaces [], p.isReference b = true ∧ p.target? b source = none ∧
      f = ⟨p.node.range, .unknownName (p.node.text source)⟩ := by
  have hroot : root.Everywhere fun _ => True := root.everywhere_of_forall fun _ => trivial
  rcases mem_check hroot hf with ⟨n, _, rfl | rfl⟩ | ⟨d, _, _, hproblem⟩ | ⟨p, hp, hf⟩
  · cases hname
  · dsimp only [missingProblem] at hname
    split at hname
    · cases hname
    · cases hname
  · rw [hname] at hproblem
    rcases hproblem with h | ⟨_, h | h | h⟩
    all_goals cases h
  · rcases mem_findings hf with h | ⟨_, _, _, _, rfl⟩ | h
    · refine ⟨p, hp, ?_⟩
      have heq := eq_of_unknownName? h
      unfold Place.unknownName? at h
      split at h
      next hcondition =>
        simp only [Bool.and_eq_true, Option.isNone_iff_eq_none] at hcondition
        exact ⟨hcondition.1.1, hcondition.1.2, heq⟩
      next => cases h
    · cases hname
    · unfold unreachable? at h
      split at h
      · obtain rfl := Option.some.inj h
        cases hname
      · cases h

/-- A declaration is counted once for each reference that resolves to it. -/
theorem count_referenceTargets (places : List Place) (id : DeclId) :
    (referenceTargets b source places).count id =
      places.countP fun p => p.isReference b && p.target? b source == some id := by
  unfold referenceTargets
  rw [List.count_filterMap]
  refine List.countP_congr fun p _ => ?_
  split <;> simp_all

/-- Names are reported as unknown and declarations are counted as read for references only, and an
identifier in an export from elsewhere is a reference only if it escapes the rule for exports. One
that does is treated like any other reference: if it resolves to nothing, it is reported. -/
theorem check_reexports (root : Node) (source : List Char) (b : Bindings) :
    let places := root.checkedPlaces []
    (∀ f ∈ check root source b, ∀ name, f.problem = .unknownName name →
      ∃ p ∈ places, p.isReference b = true ∧ p.target? b source = none ∧
        f = ⟨p.node.range, .unknownName (p.node.text source)⟩) ∧
    (∀ id, (referenceTargets b source places).count id =
      places.countP fun p => p.isReference b && p.target? b source == some id) ∧
    ∀ p ∈ places, p.node.kind = "identifier" → p.InReexport →
      (p.isReference b = true ↔ p.EscapesReexport ∧ p.MayRefer b) ∧
      (p.isReference b = true → p.target? b source = none →
        Vocabulary.isGlobal (p.node.text source) = false →
          ⟨p.node.range, .unknownName (p.node.text source)⟩ ∈ check root source b) := by
  intro places
  refine ⟨fun f hf name => reference_of_mem_check hf, count_referenceTargets places, ?_⟩
  intro p hp hkind hexport
  refine ⟨hexport.isReference_iff hkind b, fun hreference htarget hglobal => ?_⟩
  refine mem_check_of_mem_findings hp ?_
  unfold Place.findings Place.unknownName?
  rw [if_pos (.inl hkind), hreference, htarget, hglobal]
  exact List.mem_singleton_self _

end

section

open Node

/-- `export { d } from 'm';` -/
def reexportText : List Char :=
  "export \x7b d \x7d from 'm';".toList

def reexportTree : Node :=
  construct "program" 0 22 none
    [construct "export_statement" 0 22 none
      [token "export" 0 6 none,
        construct "export_clause" 7 12 none
          [token "\x7b" 7 8 none,
            construct "export_specifier" 9 10 none [construct "identifier" 9 10 (some "name") []],
            token "\x7d" 11 12 none],
        token "from" 13 17 none,
        construct "string" 18 21 (some "source")
          [token "'" 18 19 none, construct "string_fragment" 19 20 none [], token "'" 20 21 none],
        token ";" 21 22 none]]

/-- The name that is exported from elsewhere is taken for a reference and reported as unknown. -/
theorem check_reexports_listed :
    let b := Binder.bind reexportTree reexportText
    ∃ p ∈ reexportTree.checkedPlaces [], p.node.range = ⟨9, 10⟩ ∧ p.InReexport ∧
      p.EscapesReexport ∧ p.MayRefer b ∧
      ⟨⟨9, 10⟩, .unknownName "d"⟩ ∈ check reexportTree reexportText b := by
  intro b
  obtain ⟨p, hp, hkind, hrange, hname, hancestors, hreference, htarget⟩ :
      ∃ p ∈ reexportTree.checkedPlaces [], p.node.kind = "identifier" ∧ p.node.range = ⟨9, 10⟩ ∧
        p.node.text reexportText = "d" ∧
        (p.ancestors.any fun e =>
          e.kind == "export_statement" && (e.child? "source").isSome) = true ∧
        p.isReference b = true ∧ p.target? b reexportText = none :=
    ⟨_, List.mem_of_getElem? (i := 4) rfl, by decide +kernel⟩
  have hexport : p.InReexport := by
    obtain ⟨e, he, hsource⟩ := List.any_eq_true.mp hancestors
    rw [Bool.and_eq_true, beq_iff_eq] at hsource
    exact ⟨e, he, hsource⟩
  obtain ⟨hiff, hreported⟩ :=
    (check_reexports reexportTree reexportText b).2.2 p hp hkind hexport
  obtain ⟨hescapes, hmay⟩ := hiff.mp hreference
  have hmem := hreported hreference htarget (by rw [hname]; decide +kernel)
  rw [hrange, hname] at hmem
  exact ⟨p, hp, hrange, hexport, hescapes, hmay, hmem⟩

end

end UtsInsight
