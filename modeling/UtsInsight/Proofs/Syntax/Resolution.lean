import UtsInsight.Proofs.Syntax.Order
import UtsInsight.Proofs.Syntax.References

/-!
# References lead back to their nodes

A reference to a node says no more than its kind and its bytes. The search for the bytes ends at the
innermost place that reaches over them, which may be below the node. In a well-formed tree the places
from there up to the node all cover the same bytes, because siblings do not share any, so a climb
through them meets the node or stops before it at another one that the reference fits as well.

A node without bytes may be missed: an empty range is reached over by several siblings.
-/
namespace UtsInsight

open Place (Below)

variable {start stop index : Nat} {steps : List Step} {p q r : Place} {ref : NodeRef}

/-- The node reaches over the bytes of a range. -/
def NodeInfo.ReachesOver (start stop : Nat) (info : NodeInfo) : Prop :=
  info.start ≤ start ∧ stop ≤ info.stop

/-! ### The search for a range -/

/-- Children that are passed over do not count. -/
theorem placeAmong_append {parent : Node} {before : List Node}
    (h : ∀ c ∈ before, c.PassedOver start stop) (cs : List Node) :
    placeAmong start stop steps parent index (before ++ cs) =
      placeAmong start stop steps parent (index + before.length) cs := by
  induction before generalizing index with
  | nil => rfl
  | cons c before ih =>
    rw [List.cons_append, placeAmong_cons, if_pos (h c List.mem_cons_self),
      ih fun c' hc' => h c' (List.mem_cons_of_mem c hc'), List.length_cons, Nat.add_assoc,
      Nat.add_comm 1]

/-- A child that reaches over a range with bytes in it is not passed over, and the search goes on
there. -/
theorem placeAmong_of_reachesOver {parent c : Node} (hlt : start < stop)
    (hc : c.ReachesOver start stop) (cs : List Node) :
    placeAmong start stop steps parent index (c :: cs) =
      c.placeAt start stop (⟨parent, index⟩ :: steps) := by
  obtain ⟨hstart, hstop⟩ := hc
  have hpassed : ¬ c.PassedOver start stop := by
    unfold NodeInfo.PassedOver
    split <;> omega
  rw [placeAmong_cons, if_neg hpassed, if_neg (Nat.not_lt.mpr hstart)]

/-- If no child reaches over the range, the parent is the answer. -/
theorem placeAmong_of_not_reachesOver {parent : Node} {cs : List Node}
    (h : ∀ c ∈ cs, ¬ c.ReachesOver start stop) :
    placeAmong start stop steps parent index cs = ⟨parent, steps⟩ := by
  induction cs generalizing index with
  | nil => rfl
  | cons c cs ih =>
    have hrest : placeAmong start stop steps parent (index + 1) cs = ⟨parent, steps⟩ :=
      ih fun c' hc' => h c' (List.mem_cons_of_mem c hc')
    rw [placeAmong_cons, hrest]
    by_cases hpassed : c.PassedOver start stop
    · rw [if_pos hpassed]
    · have hbehind : start < c.start := by
        by_contra hstart
        have hstop : ¬ c.stop < stop := fun h => hpassed (.inl h)
        exact h c List.mem_cons_self ⟨Nat.le_of_not_lt hstart, Nat.le_of_not_lt hstop⟩
      rw [if_neg hpassed, if_pos hbehind]

theorem Node.placeAt_eq (n : Node) :
    n.placeAt start stop steps = placeAmong start stop steps n 0 n.children := by
  cases n
  rfl

namespace Place

/-- What holds everywhere from a place down holds everywhere from a place below it down. -/
theorem Below.everywhere {P : Node → Prop} (h : Below p q) (hp : p.node.Everywhere P) :
    q.node.Everywhere P := by
  induction h with
  | refl => exact hp
  | child _ hc ih => exact ih.below.of_mem (List.mem_of_getElem? hc)

/-- The ranges of all nodes below a place fit together, so what is around a place reaches over
whatever the place reaches over. -/
theorem Below.reachesOver (h : Below p q) (hnested : p.node.Everywhere Node.Nested)
    (hq : q.node.ReachesOver start stop) : p.node.ReachesOver start stop := by
  have hcontains : p.node.start ≤ q.node.start ∧ q.node.stop ≤ p.node.stop := by
    induction p using Place.induction with
    | h p ih =>
      rcases h.eq_or_child with rfl | ⟨c, hc, hcq⟩
      · omega
      · have hmem := node_mem_of_mem_children hc
        have hchild := hnested.self.2.1 c.node hmem
        have hinner := ih c hc hcq (hnested.below.of_mem hmem)
        omega
  unfold NodeInfo.ReachesOver at hq ⊢
  omega

/-- Children share no bytes. -/
theorem eq_of_reachesOver {c d : Place} (hnested : p.node.Nested) (hlt : start < stop)
    (hc : c ∈ p.children) (hd : d ∈ p.children) (hcr : c.node.ReachesOver start stop)
    (hdr : d.node.ReachesOver start stop) : c = d := by
  obtain ⟨hcstart, hcstop⟩ := hcr
  obtain ⟨hdstart, hdstop⟩ := hdr
  obtain ⟨i, m, hm, rfl⟩ := eq_of_mem_children hc
  obtain ⟨j, n, hn, rfl⟩ := eq_of_mem_children hd
  obtain ⟨hi, rfl⟩ := List.getElem?_eq_some_iff.mp hm
  obtain ⟨hj, rfl⟩ := List.getElem?_eq_some_iff.mp hn
  have hordered := List.pairwise_iff_getElem.mp hnested.2.2
  dsimp only at hcstart hcstop hdstart hdstop
  rcases Nat.lt_trichotomy i j with hij | rfl | hji
  · have := hordered i j hi hj hij
    omega
  · rfl
  · have := hordered j i hj hi hji
    omega

/-- The search goes on below the child that reaches over the range. -/
theorem placeAt_of_reachesOver (hnested : p.node.Nested) (hlt : start < stop) (hq : q ∈ p.children)
    (hreach : q.node.ReachesOver start stop) :
    p.node.placeAt start stop p.steps = q.node.placeAt start stop q.steps := by
  obtain ⟨i, n, hn, rfl⟩ := eq_of_mem_children hq
  obtain ⟨hi, rfl⟩ := List.getElem?_eq_some_iff.mp hn
  have hsplit : p.node.children = p.node.children.take i ++
      p.node.children[i] :: p.node.children.drop (i + 1) := by
    rw [← List.drop_eq_getElem_cons hi, List.take_append_drop]
  -- the children before it end where it begins, or earlier
  have hbefore : ∀ c ∈ p.node.children.take i, c.PassedOver start stop := by
    intro c hc
    obtain ⟨j, hj, rfl⟩ := List.mem_take_iff_getElem.mp hc
    have hordered := List.pairwise_iff_getElem.mp hnested.2.2 j i (by omega) hi (by omega)
    obtain ⟨hstart, _⟩ := hreach
    dsimp only at hstart
    exact .inl (by omega)
  have hlength : 0 + (p.node.children.take i).length = i := by
    rw [List.length_take]
    omega
  rw [Node.placeAt_eq]
  conv_lhs => rw [hsplit]
  rw [placeAmong_append hbefore, placeAmong_of_reachesOver hlt hreach, hlength]

/-- The search for a range with bytes in it ends at the innermost place that reaches over the range.
-/
theorem placeAt_innermost (hnested : p.node.Everywhere Node.Nested) (hlt : start < stop)
    (hp : p.node.ReachesOver start stop) :
    Below p (p.node.placeAt start stop p.steps) ∧
      (p.node.placeAt start stop p.steps).node.ReachesOver start stop ∧
      ∀ r, Below p r → r.node.ReachesOver start stop →
        Below r (p.node.placeAt start stop p.steps) := by
  induction p using Place.induction with
  | h p ih =>
    by_cases hchild : ∃ c ∈ p.children, c.node.ReachesOver start stop
    · obtain ⟨c, hc, hreach⟩ := hchild
      have hbelow := below_of_mem_children hc
      obtain ⟨hinner, hover, hinnermost⟩ :=
        ih c hc (hnested.below.of_mem (node_mem_of_mem_children hc)) hreach
      rw [placeAt_of_reachesOver hnested.self hlt hc hreach]
      refine ⟨hbelow.trans hinner, hover, fun r hr hrange => ?_⟩
      rcases hr.eq_or_child with rfl | ⟨d, hd, hdr⟩
      · exact hbelow.trans hinner
      · have hdrange := hdr.reachesOver (hnested.below.of_mem (node_mem_of_mem_children hd)) hrange
        obtain rfl := eq_of_reachesOver hnested.self hlt hc hd hreach hdrange
        exact hinnermost r hdr hrange
    · have hnone : ∀ n ∈ p.node.children, ¬ n.ReachesOver start stop := by
        intro n hn hreach
        rw [← map_node_children] at hn
        obtain ⟨c, hc, rfl⟩ := List.mem_map.mp hn
        exact hchild ⟨c, hc, hreach⟩
      rw [Node.placeAt_eq, placeAmong_of_not_reachesOver hnone]
      refine ⟨.refl, hp, fun r hr hrange => ?_⟩
      rcases hr.eq_or_child with rfl | ⟨d, hd, hdr⟩
      · exact .refl
      · exact absurd ⟨d, hd,
          hdr.reachesOver (hnested.below.of_mem (node_mem_of_mem_children hd)) hrange⟩ hchild

end Place

mutual

/-- The search for a range goes down from the node. -/
theorem Node.placeAt_below : ∀ (n : Node) (steps : List Step),
    Below ⟨n, steps⟩ (n.placeAt start stop steps)
  | ⟨_, children⟩, steps => placeAmong_below children steps _ 0 rfl

theorem placeAmong_below : ∀ (cs : List Node) (steps : List Step) (parent : Node) (index : Nat),
    parent.children.drop index = cs →
      Below ⟨parent, steps⟩ (placeAmong start stop steps parent index cs)
  | [], _, _, _, _ => .refl
  | c :: cs, steps, parent, index, hcs => by
    obtain ⟨hc, hcs'⟩ : Below ⟨parent, steps⟩ ⟨c, ⟨parent, index⟩ :: steps⟩ ∧ _ :=
      Below.of_drop hcs
    rw [placeAmong_cons]
    split_ifs
    · exact placeAmong_below cs steps parent (index + 1) hcs'
    · exact .refl
    · exact hc.trans (c.placeAt_below _)

end

/-! ### The climb -/

namespace NodeRef

theorem of_eq_iff {n : Node} :
    NodeRef.of n = ref ↔ n.kind = ref.kind ∧ n.start = ref.start ∧ n.stop = ref.stop := by
  obtain ⟨start, stop, kind⟩ := ref
  rw [NodeRef.of, NodeRef.mk.injEq]
  tauto

theorem climb?_of_eq {n : Node} (h : NodeRef.of n = ref) :
    ref.climb? n steps = some ⟨n, steps⟩ := by
  have hn := of_eq_iff.mp h
  cases steps <;> rw [climb?, if_pos hn]

theorem climb?_cons_of_ne {n : Node} {s : Step} (h : NodeRef.of n ≠ ref)
    (hstart : s.parent.start = ref.start) (hstop : s.parent.stop = ref.stop) :
    ref.climb? n (s :: steps) = ref.climb? s.parent steps := by
  rw [climb?, if_neg (mt of_eq_iff.mpr h), if_pos ⟨hstart, hstop⟩]

/-- A climb from a place below one that the reference fits, through nodes of the same range, ends at
the innermost place on the way that the reference fits. -/
theorem exists_climb? (h : Below p q) (hp : NodeRef.of p.node = ref)
    (hrange : ∀ r, Below p r → Below r q → r.node.start = ref.start ∧ r.node.stop = ref.stop) :
    ∃ m, ref.climb? q.node q.steps = some m ∧ Below p m ∧ Below m q ∧
      NodeRef.of m.node = ref ∧
      ∀ r, Below p r → Below r q → NodeRef.of r.node = ref → Below r m := by
  induction h with
  | refl => exact ⟨p, climb?_of_eq hp, .refl, .refl, hp, fun r _ hrp _ => hrp⟩
  | @child q i c h hc ih =>
    have hstep : Below q ⟨c, ⟨q.node, i⟩ :: q.steps⟩ := Below.refl.child hc
    by_cases hfits : NodeRef.of c = ref
    · exact ⟨_, climb?_of_eq hfits, h.trans hstep, .refl, hfits, fun r _ hr _ => hr⟩
    · obtain ⟨hstart, hstop⟩ := hrange q h hstep
      obtain ⟨m, hm, hpm, hmq, hfound, hinnermost⟩ :=
        ih fun r hpr hrq => hrange r hpr (hrq.trans hstep)
      refine ⟨m, (climb?_cons_of_ne hfits hstart hstop).trans hm, hpm, hmq.trans hstep, hfound, ?_⟩
      intro r hpr hr hrfits
      rcases hr.eq_or_parent with rfl | hrq
      · exact absurd hrfits hfits
      · exact hinnermost r hpr hrq hrfits

theorem climb?_below {root n : Node} (h : Below (.ofRoot root) ⟨n, steps⟩)
    (hq : ref.climb? n steps = some q) : Below (.ofRoot root) q := by
  induction steps generalizing n with
  | nil =>
    rw [climb?] at hq
    split_ifs at hq
    obtain rfl := Option.some.inj hq
    exact h
  | cons s steps ih =>
    have hparent : Below (.ofRoot root) ⟨s.parent, steps⟩ := by
      rcases Below.eq_or_parent (q := ⟨s.parent, steps⟩) h with heq | hparent
      · cases heq
      · exact hparent
    rw [climb?] at hq
    split_ifs at hq
    · obtain rfl := Option.some.inj hq
      exact h
    · exact ih hparent hq

/-- What a reference leads to is in the tree. -/
theorem resolve?_below {root : Node} (h : ref.resolve? root = some p) : Below (.ofRoot root) p :=
  climb?_below (root.placeAt_below []) h

/-- In a well-formed tree, the reference to a node with bytes leads to a node of the same kind and
range at or below it: to the innermost one that there is, which is the node itself unless another
one of the same kind and range is below it. -/
theorem of_resolves {root : Node} (hroot : root.WellFormed) {p : Place}
    (hp : Below (.ofRoot root) p) (hwidth : p.node.start < p.node.stop) :
    ∃ q, (NodeRef.of p.node).resolve? root = some q ∧ Below p q ∧
      q.node.kind = p.node.kind ∧ q.node.range = p.node.range ∧
      (∀ r, Below p r → r.node.kind = p.node.kind → r.node.range = p.node.range → Below r q) ∧
      ((∀ r, Below p r → r ≠ p →
        ¬ (r.node.kind = p.node.kind ∧ r.node.range = p.node.range)) → q = p) := by
  have hreach : ∀ r : Place, r.node.ReachesOver r.node.start r.node.stop :=
    fun r => ⟨Nat.le_refl _, Nat.le_refl _⟩
  have hfits : ∀ r : Place, NodeRef.of r.node = NodeRef.of p.node ↔
      r.node.kind = p.node.kind ∧ r.node.range = p.node.range := by
    intro r
    rw [of_eq_iff, Node.range, Node.range, ByteSpan.mk.injEq]
    rfl
  -- the search ends below the node, and below whatever else the reference fits
  obtain ⟨_, hover, hinnermost⟩ := Place.placeAt_innermost (p := .ofRoot root) hroot hwidth
    (hp.reachesOver hroot (hreach p))
  change NodeInfo.ReachesOver _ _ (root.placeAt p.node.start p.node.stop []).node.toNodeInfo at hover
  change ∀ r, Below (.ofRoot root) r → r.node.ReachesOver p.node.start p.node.stop →
    Below r (root.placeAt p.node.start p.node.stop []) at hinnermost
  have hrange : ∀ r, Below p r → Below r (root.placeAt p.node.start p.node.stop []) →
      r.node.start = p.node.start ∧ r.node.stop = p.node.stop := by
    intro r hpr hr
    obtain ⟨hstart, hstop⟩ := hpr.reachesOver (hp.everywhere hroot) (hreach r)
    obtain ⟨hstart', hstop'⟩ := hr.reachesOver ((hp.trans hpr).everywhere hroot) hover
    omega
  obtain ⟨q, hq, hpq, _, hfound, hlast⟩ := exists_climb? (hinnermost p hp (hreach p)) rfl hrange
  refine ⟨q, hq, hpq, ((hfits q).mp hfound).1, ((hfits q).mp hfound).2, fun r hr hkind hbytes => ?_,
    fun hnone => ?_⟩
  · have hrfits := (hfits r).mpr ⟨hkind, hbytes⟩
    obtain ⟨_, hstart, hstop⟩ := of_eq_iff.mp hrfits
    exact hlast r hr (hinnermost r (hp.trans hr) ⟨Nat.le_of_eq hstart, Nat.le_of_eq hstop.symm⟩)
      hrfits
  · by_contra hne
    exact hnone q hpq hne ((hfits q).mp hfound)

end NodeRef

/-! ### A statement that its expression fills -/

section

open Node

/-- The tree of `a` with a made-up name before the statement and a made-up semicolon in it. -/
def filledTree : Node :=
  let madeUp (kind : String) (offset : Nat) : Node :=
    ⟨⟨kind, true, true, false, true, offset, offset, none⟩, []⟩
  construct "program" 0 1 none
    [madeUp "identifier" 0,
      construct "expression_statement" 0 1 none [construct "identifier" 0 1 none [], madeUp ";" 1]]

/-- The search passes the made-up name, goes on below the statement to the identifier of the same
range, and the climb comes back to the statement. -/
theorem of_resolves_filled :
    let statement : Place := ⟨filledTree.children[1], [⟨filledTree, 1⟩]⟩
    filledTree.WellFormed ∧ Below (.ofRoot filledTree) statement ∧
      statement.node.start < statement.node.stop ∧ (filledTree.placeAt 0 1 []).path = [0, 1] ∧
      (NodeRef.of statement.node).resolve? filledTree = some statement := by
  intro statement
  have hwellFormed : filledTree.WellFormed := by decide +kernel
  have hbelow : Below (.ofRoot filledTree) statement := Below.refl.child rfl
  have hwidth : statement.node.start < statement.node.stop := by decide +kernel
  have hother : EverywhereBelow (·.kind ≠ statement.node.kind) statement.node.children := by
    refine ⟨?_, ?_, trivial⟩ <;> decide +kernel
  obtain ⟨q, hq, -, -, -, -, hself⟩ := NodeRef.of_resolves hwellFormed hbelow hwidth
  refine ⟨hwellFormed, hbelow, hwidth, by decide +kernel, hq.trans (congrArg some (hself ?_))⟩
  rintro r hr hne ⟨hkind, -⟩
  rcases hr.eq_or_child with rfl | ⟨c, hc, hcr⟩
  · exact hne rfl
  · exact (hcr.everywhere (hother.of_mem (Place.node_mem_of_mem_children hc))).self hkind

end

end UtsInsight
