import UtsInsight.Proofs.Finding.Messages
import UtsInsight.Proofs.Finding.Ranges
import UtsInsight.Proofs.Finding.Unreachable

/-!
# Findings of the tree

What is found in a tree is about some of its nodes. Syntax errors are about nodes that stand one
behind the other. A place that is checked may be inside another one, but two findings of one kind are
then still about different bytes: an identifier has nothing in it, a literal does not fill the
construct that gives it its type, and the statements that are not reached stand behind another one.
-/
namespace UtsInsight

/-- In the grammar of the language there are no constructs in an identifier, a statement that leaves
its block has a keyword, the value of a return statement stands behind it, and an annotation has its
colon. -/
def Node.Delimited (n : Node) : Prop :=
  (n.kind = "identifier" ∨ n.kind = "shorthand_property_identifier" → n.namedChildren = []) ∧
  (leavesBlock n.kind = true → n.start < n.stop) ∧
  (n.kind = "return_statement" → ∀ c ∈ n.namedChildren, n.start < c.start) ∧
  (n.kind = "variable_declarator" → ∀ c ∈ n.child? "type", c.start < c.stop)

instance (n : Node) : Decidable n.Delimited :=
  inferInstanceAs (Decidable (_ ∧ _ ∧ _ ∧ _))

namespace Node

variable {n c c' : Node}

/-- Of two children of a node one ends before the other begins. -/
theorem Nested.ordered (h : n.Nested) (hc : c ∈ n.children) (hc' : c' ∈ n.children) (hne : c ≠ c') :
    c.stop ≤ c'.start ∨ c'.stop ≤ c.start := by
  have hboth : n.children.Pairwise fun c c' => c.stop ≤ c'.start ∨ c'.stop ≤ c.start :=
    h.2.2.imp .inl
  have : Std.Symm fun c c' : Node => c.stop ≤ c'.start ∨ c'.stop ≤ c.start :=
    ⟨fun _ _ => Or.symm⟩
  exact hboth.forall hc hc' hne

end Node

/-! ### Syntax errors -/

section

variable {n : Node} {source : List Char} {f : Finding}

theorem Node.markFinding_range (source : List Char) (n : Node) :
    (n.markFinding source).range = n.range := by
  unfold markFinding
  split_ifs <;> rfl

theorem within_of_mem_syntaxErrors (hn : n.WellFormed) (hf : f ∈ n.syntaxErrors source) :
    n.start ≤ f.range.start ∧ f.range.stop ≤ n.stop := by
  induction n using Node.induction with
  | h n ih =>
    rw [n.syntaxErrors_eq] at hf
    split_ifs at hf
    · rw [List.mem_singleton.mp hf, n.markFinding_range]
      exact ⟨Nat.le_refl _, Nat.le_refl _⟩
    · obtain ⟨c, hc, hf⟩ := List.mem_flatMap.mp hf
      have hchild := hn.self.2.1 c hc
      have hwithin := ih c hc (hn.below.of_mem hc) hf
      omega
    · exact absurd hf List.not_mem_nil

/-- Syntax errors are found one behind the other. -/
theorem syntaxErrors_ordered (source : List Char) (hn : n.WellFormed) :
    (n.syntaxErrors source).Pairwise fun f g => f.range.stop ≤ g.range.start := by
  induction n using Node.induction with
  | h n ih =>
    rw [n.syntaxErrors_eq]
    split_ifs
    · exact List.pairwise_singleton _ _
    · refine List.pairwise_flatMap.mpr ⟨fun c hc => ih c hc (hn.below.of_mem hc), ?_⟩
      refine hn.self.2.2.imp_of_mem fun {c c'} hc hc' hle f hf g hg => ?_
      have hwithin := within_of_mem_syntaxErrors (hn.below.of_mem hc) hf
      have hwithin' := within_of_mem_syntaxErrors (hn.below.of_mem hc') hg
      omega
    · exact .nil

end

/-! ### Places that are checked -/

namespace Place

theorem checkedPlaces_eq (p : Place) :
    p.node.checkedPlaces p.steps =
      if p.node.kind = "ERROR" then []
      else p :: p.constructs.flatMap fun c => c.node.checkedPlaces c.steps := by
  have hbelow : ∀ (steps : List Step) (parent : Node) (index : Nat) (cs : List Node),
      checkedBelow steps parent index cs =
        ((placesFrom steps parent index cs).filter (·.node.isNamed)).flatMap
          fun c => c.node.checkedPlaces c.steps := by
    intro steps parent index cs
    induction cs generalizing index with
    | nil => rfl
    | cons c cs ih =>
      rw [checkedBelow, ih, placesFrom, List.filter_cons]
      split_ifs
      · rw [List.flatMap_cons]
      · rfl
  obtain ⟨⟨info, children⟩, steps⟩ := p
  rw [Node.checkedPlaces, hbelow]
  rfl

/-- Of two places that are checked, the later one is apart from the earlier one or in one of the
constructs in it. -/
theorem checkedPlaces_pairwise (p : Place) :
    (p.node.checkedPlaces p.steps).Pairwise fun q r =>
      Apart q r ∨ ∃ c ∈ q.constructs, Below c r := by
  induction p using Place.induction with
  | h p ih =>
    rw [checkedPlaces_eq]
    split_ifs
    · exact .nil
    · refine List.pairwise_cons.mpr ⟨fun r hr => .inr ?_, List.pairwise_flatMap.mpr ⟨?_, ?_⟩⟩
      · obtain ⟨c, hc, hr⟩ := List.mem_flatMap.mp hr
        exact ⟨c, hc, below_of_mem_checkedPlaces c.node c.steps hr⟩
      · exact fun c hc => ih c (mem_children_of_mem_constructs hc)
      · refine (p.children_apart.sublist p.constructs_sublist).imp fun hapart q hq r hr => .inl ?_
        exact hapart.mono (below_of_mem_checkedPlaces _ _ hq) (below_of_mem_checkedPlaces _ _ hr)

end Place

/-! ### What is found at a place -/

/-- How a finding lies in the construct at which it is found. -/
inductive Node.Finds (n : Node) (f : Finding) : Prop
  /-- It is about the whole construct, which has no constructs in it. -/
  | whole (hleaf : n.namedChildren = []) (hrange : f.range = n.range)
      (hcause : f.problem.ctorIdx = (Problem.unknownName "").ctorIdx)
  /-- It is about a part that does not fill the construct. -/
  | part {c : Node} (hc : c ∈ n.children) (hfills : c.range ≠ n.range) (hrange : f.range = c.range)
      (hcause : f.problem.ctorIdx = (Problem.notAssignable "" "").ctorIdx)
  /-- It begins with a part that stands behind another one. -/
  | behind {leaving first : Node} (hleaving : leaving ∈ n.children)
      (hlength : leaving.start < leaving.stop) (hfirst : first ∈ n.children)
      (hforward : first.start ≤ first.stop) (hbehind : leaving.stop ≤ first.start)
      (hstart : f.range.start = first.start) (hstop : f.range.stop ≤ n.stop)
      (hcause : f.problem.ctorIdx = Problem.unreachable.ctorIdx)

section

variable {n : Node} {p : Place} {source : List Char} {b : Bindings} {f : Finding}

theorem finds_of_unknownName? (hdelimited : p.node.Delimited)
    (h : p.unknownName? b source = some f) : p.node.Finds f := by
  have hreference : p.isReference b = true := by
    unfold Place.unknownName? at h
    split at h
    next hunknown => exact (Bool.and_eq_true_iff.mp (Bool.and_eq_true_iff.mp hunknown).1).1
    next => cases h
  have hkind : p.node.kind = "identifier" ∨ p.node.kind = "shorthand_property_identifier" := by
    simp only [Place.isReference, Bool.and_eq_true, Bool.or_eq_true, beq_iff_eq] at hreference
    exact hreference.1.1.1.1
  rw [eq_of_unknownName? h]
  exact .whole (hdelimited.1 hkind) rfl rfl

/-- Beside the name of a variable its annotation has characters too. -/
theorem finds_of_initializerMismatch? (hnested : n.Nested) (hdelimited : n.Delimited)
    (hkind : n.kind = "variable_declarator") (h : initializerMismatch? n source = some f) :
    n.Finds f := by
  unfold initializerMismatch? at h
  obtain ⟨name, hname, h⟩ := Option.bind_eq_some_iff.mp h
  obtain ⟨stated, hstated, h⟩ := Option.bind_eq_some_iff.mp h
  obtain ⟨_, _, h⟩ := Option.bind_eq_some_iff.mp h
  obtain ⟨problem, hproblem, h⟩ := Option.bind_eq_some_iff.mp h
  obtain rfl := Option.some.inj h
  have hmem : name ∈ n.children := List.mem_of_find?_eq_some hname
  have hmem' : stated ∈ n.children := List.mem_of_find?_eq_some hstated
  have hne : name ≠ stated := by
    rintro rfl
    have hrole : name.field = some "name" := beq_iff_eq.mp
      (List.find?_some (p := fun c : Node => c.field == some "name") hname)
    have hrole' : name.field = some "type" := beq_iff_eq.mp
      (List.find?_some (p := fun c : Node => c.field == some "type") hstated)
    rw [hrole] at hrole'
    exact absurd hrole' (by decide)
  obtain ⟨_, _, rfl⟩ := exists_of_mismatch? hproblem
  refine .part hmem (fun hfills => ?_) rfl rfl
  have hstart : name.start = n.start := congrArg ByteSpan.start hfills
  have hstop : name.stop = n.stop := congrArg ByteSpan.stop hfills
  have hlength := hdelimited.2.2.2 hkind stated hstated
  have hwithin := hnested.2.1 stated hmem'
  have hordered := hnested.ordered hmem hmem' hne
  omega

theorem finds_of_returnMismatch? (hdelimited : p.node.Delimited)
    (hkind : p.node.kind = "return_statement") (h : returnMismatch? p source = some f) :
    p.node.Finds f := by
  unfold returnMismatch? at h
  obtain ⟨value, hvalue, h⟩ := Option.bind_eq_some_iff.mp h
  obtain ⟨_, _, h⟩ := Option.bind_eq_some_iff.mp h
  obtain ⟨_, _, h⟩ := Option.bind_eq_some_iff.mp h
  obtain ⟨problem, hproblem, h⟩ := Option.bind_eq_some_iff.mp h
  obtain rfl := Option.some.inj h
  have hnamed : value ∈ p.node.namedChildren := List.mem_of_head? hvalue
  obtain ⟨_, _, rfl⟩ := exists_of_mismatch? hproblem
  refine .part (List.mem_filter.mp hnamed).1 (fun hfills => ?_) rfl rfl
  have hstart : value.start = p.node.start := congrArg ByteSpan.start hfills
  have hbehind := hdelimited.2.2.1 hkind value hnamed
  omega

/-- The statements that are not reached stand behind one that leaves their block. -/
theorem exists_leaving {block first : Node} (hfirst : first ∈ unreachableStatements block) :
    ∃ leaving, leavesBlock leaving.kind = true ∧ [leaving, first].Sublist block.children := by
  obtain ⟨before, leaving, behind, hleft⟩ := Node.exists_leftAt (List.ne_nil_of_mem hfirst)
  have hbehind := (hleft.mem_unreachableStatements_iff.mp hfirst).1
  have hpair : [leaving, first].Sublist (leaving :: behind) :=
    (List.singleton_sublist.mpr hbehind).cons_cons leaving
  exact ⟨leaving, hleft.leaves, hpair.trans hleft.behind_sublist⟩

theorem finds_of_unreachable? (hn : n.Everywhere fun n => n.Nested ∧ n.Delimited)
    (h : unreachable? n = some f) : n.Finds f := by
  unfold unreachable? at h
  split at h
  next first last hfirst hlast =>
    obtain rfl := Option.some.inj h
    obtain ⟨leaving, hleaves, hpair⟩ := exists_leaving (List.mem_of_head? hfirst)
    have hmem : leaving ∈ n.children := hpair.subset List.mem_cons_self
    have hmem' : first ∈ n.children := hpair.subset (by simp)
    have hbehind := List.pairwise_pair.mp (hn.self.1.2.2.sublist hpair)
    have hlength := (hn.below.of_mem hmem).self.2.2.1 hleaves
    have hwithin := hn.self.1.2.1 last
      ((unreachableStatements_sublist n).subset (List.mem_of_getLast? hlast))
    have hforward := (hn.below.of_mem hmem').self.1.1
    exact .behind hmem hlength hmem' hforward hbehind rfl hwithin.2 rfl
  next => cases h

theorem finds_of_mem_findings (hp : p.node.Everywhere fun n => n.Nested ∧ n.Delimited)
    (hf : f ∈ p.findings b source) : p.node.Finds f := by
  obtain ⟨hnested, hdelimited⟩ := hp.self
  unfold Place.findings at hf
  split_ifs at hf with _ hdeclarator hreturn
  · exact finds_of_unknownName? hdelimited (Option.mem_toList.mp hf)
  · exact finds_of_initializerMismatch? hnested hdelimited hdeclarator (Option.mem_toList.mp hf)
  · exact finds_of_returnMismatch? hdelimited hreturn (Option.mem_toList.mp hf)
  · exact finds_of_unreachable? hp (Option.mem_toList.mp hf)
  · exact absurd hf List.not_mem_nil

/-- At one place there is one finding at most. -/
theorem findings_pairwise (p : Place) (b : Bindings) (source : List Char)
    {R : Finding → Finding → Prop} : (p.findings b source).Pairwise R := by
  have hoption : ∀ found : Option Finding, found.toList.Pairwise R := by
    intro found
    cases found with
    | none => exact .nil
    | some f => exact List.pairwise_singleton R f
  unfold Place.findings
  split_ifs
  · exact hoption _
  · exact hoption _
  · exact hoption _
  · exact hoption _
  · exact .nil

end

/-! ### Findings of the whole tree -/

namespace Node.Finds

variable {n m c : Node} {f g : Finding}

theorem within (h : n.Finds f) (hn : n.Nested) :
    n.start ≤ f.range.start ∧ f.range.stop ≤ n.stop := by
  cases h with
  | whole _ hrange => exact hrange ▸ ⟨Nat.le_refl _, Nat.le_refl _⟩
  | part hc _ hrange => exact hrange ▸ hn.2.1 _ hc
  | behind _ _ hfirst _ _ hstart hstop => exact ⟨hstart ▸ (hn.2.1 _ hfirst).1, hstop⟩

/-- What is found about a part of a construct is not about a part that fills it, so what is found
further inside is about other bytes. -/
theorem differs_of_inside (hf : n.Finds f) (hg : m.Finds g) (hn : n.Nested) (hm : m.Nested)
    (hc : c ∈ n.namedChildren) (hwithin : c.start ≤ m.start ∧ m.stop ≤ c.stop) : f.Differs g := by
  have hchild : c ∈ n.children := (List.mem_filter.mp hc).1
  by_cases hsame : f.problem.ctorIdx = g.problem.ctorIdx
  case neg => exact Finding.differs_of_ctorIdx_ne hsame
  intro hlength hrange
  exfalso
  cases hf with
  | whole hleaf =>
    rw [hleaf] at hc
    exact absurd hc List.not_mem_nil
  | @part d hd _ hrangef hcause =>
    cases hg with
    | whole _ _ hcause' => exact absurd (hcause.symm.trans (hsame.trans hcause')) (by decide)
    | behind _ _ _ _ _ _ _ hcause' =>
      exact absurd (hcause.symm.trans (hsame.trans hcause')) (by decide)
    | @part e he hfills hrangeg =>
      have hparts : d.range = e.range := hrangef.symm.trans (hrange.trans hrangeg)
      have hstart : d.start = e.start := congrArg ByteSpan.start hparts
      have hstop : d.stop = e.stop := congrArg ByteSpan.stop hparts
      have hpart := hm.2.1 e he
      rw [hrangef] at hlength
      have hlength : d.start < d.stop := hlength
      by_cases heq : d = c
      · -- the inner construct fills the part, so its own part fills it
        subst heq
        exact hfills (congrArg₂ ByteSpan.mk (by omega) (by omega))
      · have hordered := hn.ordered hd hchild heq
        omega
  | @behind _ first _ _ hfirst hforward _ hstart _ hcause =>
    cases hg with
    | whole _ _ hcause' => exact absurd (hcause.symm.trans (hsame.trans hcause')) (by decide)
    | part _ _ _ hcause' => exact absurd (hcause.symm.trans (hsame.trans hcause')) (by decide)
    | @behind leaving first' hleaving hlength' _ _ hbehind hstart' hstop =>
      have hstarts : first.start = first'.start := by rw [← hstart, ← hstart', hrange]
      have hinside := hm.2.1 leaving hleaving
      rw [hrange] at hlength
      by_cases heq : c = first
      · subst heq
        omega
      · have hordered := hn.ordered hchild hfirst heq
        omega

end Node.Finds

variable {root : Node}

/-- The findings at the places of a tree differ from each other. -/
theorem flatMap_findings_differs (hroot : root.WellFormed) (hgrammar : root.Everywhere Node.Delimited)
    (b : Bindings) (source : List Char) :
    ((root.checkedPlaces []).flatMap (·.findings b source)).Pairwise Finding.Differs := by
  have hfinds : ∀ {p f}, p ∈ root.checkedPlaces [] → f ∈ p.findings b source →
      p.node.Nested ∧ p.node.Finds f := by
    intro p f hp hf
    have hnode := (Node.Everywhere.and hroot hgrammar).at? (at?_of_mem_checkedPlaces hp)
    exact ⟨hnode.self.1, finds_of_mem_findings hnode hf⟩
  refine List.pairwise_flatMap.mpr ⟨fun p _ => findings_pairwise p b source, ?_⟩
  refine (Place.ofRoot root).checkedPlaces_pairwise.imp_of_mem ?_
  intro p q hp hq hpq f hf g hg
  obtain ⟨hnested, hfindsf⟩ := hfinds hp hf
  obtain ⟨hnested', hfindsg⟩ := hfinds hq hg
  have hatp := at?_of_mem_checkedPlaces hp
  have hatq := at?_of_mem_checkedPlaces hq
  rcases hpq with hapart | ⟨c, hc, hcq⟩
  · have hordered := hroot.apart hatp hatq hapart.1 hapart.2
    have hwithin := hfindsf.within hnested
    have hwithin' := hfindsg.within hnested'
    exact Finding.differs_of_ordered (by omega)
  · have hatc := (below_of_mem_checkedPlaces root [] hp).trans
      (Place.below_of_mem_children (Place.mem_children_of_mem_constructs hc)) |>.at? rfl
    refine hfindsf.differs_of_inside hfindsg hnested hnested' ?_ (hroot.contains hcq.suffix hatc hatq)
    rw [← p.map_node_constructs]
    exact List.mem_map_of_mem hc

end UtsInsight
