import Mathlib.Data.Option.Defs
import UtsInsight.Proofs.Syntax.Comments
import UtsInsight.Proofs.Syntax.WellFormed

/-!
# Finding nodes again without comments

A reference finds its node by range and kind, from the innermost node of the range upwards. In a
well-formed tree a comment changes the way there in one case only: the range lies within the
comment. Then the search ends at the comment, and without it at the parent. The climb goes on from
the parent in both trees if the parent has exactly the range, and otherwise finds nothing in either.
-/
namespace UtsInsight

variable {ref : NodeRef} {n parent : Node} {steps steps' : List Step}

namespace NodeRef

theorem kind_of_climb? {p : Place} (h : ref.climb? n steps = some p) : p.node.kind = ref.kind := by
  induction steps generalizing n with
  | nil =>
    unfold climb? at h
    split at h
    · rename_i hn
      cases h
      exact hn.1
    · cases h
  | cons s steps ih =>
    unfold climb? at h
    split at h
    · rename_i hn
      cases h
      exact hn.1
    split at h
    · exact ih h
    · cases h

/-- Climbing passes the same nodes with and without comments. -/
theorem climb?_bare {n' : Node} (h : Place.Bare ⟨n, steps⟩ ⟨n', steps'⟩) :
    Option.Rel Place.Bare (ref.climb? n steps) (ref.climb? n' steps') := by
  obtain ⟨hnode, hsteps, haside⟩ := h
  dsimp only at hnode hsteps haside
  induction hsteps generalizing n n' with
  | nil =>
    simp only [climb?, hnode, Node.bare_toNodeInfo]
    split
    · exact .some ⟨rfl, .nil, haside⟩
    · exact .none
  | cons hstep hrest ih =>
    simp only [climb?, hnode, hstep.parent, Node.bare_toNodeInfo]
    split
    · exact .some ⟨rfl, .cons hstep hrest, haside⟩
    split
    · exact ih rfl hstep.aside
    · exact .none

/-- Where the range is inside a node but is not its range, no node around has that range. -/
theorem climb?_eq_none
    (hinside : ∀ s ∈ steps.head?, s.parent.start ≤ n.start ∧ n.stop ≤ s.parent.stop)
    (hstart : n.start ≤ ref.start) (hstop : ref.stop ≤ n.stop)
    (hrange : ¬ (n.start = ref.start ∧ n.stop = ref.stop)) : ref.climb? n steps = none := by
  have hn : ¬ (n.kind = ref.kind ∧ n.start = ref.start ∧ n.stop = ref.stop) :=
    fun h => hrange h.2
  cases steps with
  | nil => rw [climb?, if_neg hn]
  | cons s steps =>
    have hs := hinside s rfl
    rw [climb?, if_neg hn, if_neg (by omega)]

end NodeRef

/-! ### The innermost place -/

variable {start stop : Nat}

/-- Whether a child is passed over in the search for a range. -/
def NodeInfo.PassedOver (start stop : Nat) (info : NodeInfo) : Prop :=
  info.stop < stop ∨ if info.start = info.stop then info.stop < start else info.stop ≤ start

instance (info : NodeInfo) : Decidable (info.PassedOver start stop) :=
  inferInstanceAs (Decidable (_ ∨ _))

theorem placeAmong_cons (c : Node) (cs : List Node) (index : Nat) :
    placeAmong start stop steps parent index (c :: cs) =
      if c.PassedOver start stop then placeAmong start stop steps parent (index + 1) cs
      else if start < c.start then ⟨parent, steps⟩
      else c.placeAt start stop (⟨parent, index⟩ :: steps) := by
  rw [placeAmong]
  by_cases hstop : c.stop < stop
  · simp [NodeInfo.PassedOver, hstop]
  · simp [NodeInfo.PassedOver, hstop]

/-- Children behind the start of the range leave the parent as the answer. -/
theorem placeAmong_of_lt {cs : List Node} (h : ∀ c ∈ cs, start < c.start) (index : Nat) :
    placeAmong start stop steps parent index cs = ⟨parent, steps⟩ := by
  induction cs generalizing index with
  | nil => rfl
  | cons c cs ih =>
    have hrest := ih fun c' hc' => h c' (List.mem_cons_of_mem c hc')
    rw [placeAmong, hrest, if_pos (h c List.mem_cons_self)]
    simp only [ite_self]

theorem placeAt_of_leaf (h : n.children = []) : n.placeAt start stop steps = ⟨n, steps⟩ := by
  obtain ⟨info, children⟩ := n
  obtain rfl : children = [] := h
  rfl

namespace Place

/-- The node lies inside its parent. -/
def Inside (p : Place) : Prop :=
  ∀ s ∈ p.steps.head?, s.parent.start ≤ p.node.start ∧ p.node.stop ≤ s.parent.stop

/-- A comment that contains the range of a reference to something else is passed on to the parent,
if that has exactly the range. -/
theorem Bare.climb?_comment {c : Node} {p' : Place} {index : Nat} (h : Bare ⟨parent, steps⟩ p')
    (hinside : Inside ⟨parent, steps⟩) (hc : c.kind ≠ ref.kind)
    (hchild : parent.start ≤ c.start ∧ c.stop ≤ parent.stop)
    (hrange : c.start ≤ ref.start ∧ ref.stop ≤ c.stop) :
    Option.Rel Bare (ref.climb? c (⟨parent, index⟩ :: steps)) (ref.climb? p'.node p'.steps) := by
  have hkind : ¬ (c.kind = ref.kind ∧ c.start = ref.start ∧ c.stop = ref.stop) :=
    fun h => hc h.1
  rw [NodeRef.climb?, if_neg hkind]
  dsimp only
  have hclimb : Option.Rel Bare (ref.climb? parent steps) (ref.climb? p'.node p'.steps) :=
    NodeRef.climb?_bare h
  split
  · exact hclimb
  · rename_i hne
    rw [NodeRef.climb?_eq_none hinside (by dsimp only; omega) (by dsimp only; omega) hne] at hclimb
    exact hclimb

end Place

mutual

/-- A reference to something else than a comment leads to the same node with and without
comments. -/
theorem Node.placeAt_bare (hkind : ref.kind ≠ "comment") : ∀ (n : Node) {steps steps' : List Step},
    Place.Bare ⟨n, steps⟩ ⟨n.bare, steps'⟩ → Place.Inside ⟨n, steps⟩ →
    n.Everywhere Node.Nested →
      let p := n.placeAt ref.start ref.stop steps
      let p' := n.bare.placeAt ref.start ref.stop steps'
      Option.Rel Place.Bare (ref.climb? p.node p.steps) (ref.climb? p'.node p'.steps)
  | ⟨_, children⟩, _, _, hp, hinside, hnested =>
    placeAmong_bare hkind children [] rfl hp hinside hnested.1 hnested.2

theorem placeAmong_bare (hkind : ref.kind ≠ "comment") : ∀ (cs before : List Node) {parent : Node}
    {steps steps' : List Step}, parent.children = before ++ cs →
    Place.Bare ⟨parent, steps⟩ ⟨parent.bare, steps'⟩ → Place.Inside ⟨parent, steps⟩ →
    parent.Nested → EverywhereBelow Node.Nested cs →
      let p := placeAmong ref.start ref.stop steps parent before.length cs
      let p' := placeAmong ref.start ref.stop steps' parent.bare (bareBelow before).length
        (bareBelow cs)
      Option.Rel Place.Bare (ref.climb? p.node p.steps) (ref.climb? p'.node p'.steps)
  | [], _, _, _, _, _, hp, _, _, _ => NodeRef.climb?_bare hp
  | c :: cs, before, parent, steps, steps', hchildren, hp, hinside, hnested, hcs => by
    have hmem : c ∈ parent.children := by simp [hchildren]
    have hplain := hp.aside.plain c hmem
    have hnext := placeAmong_bare hkind cs (before ++ [c]) (by simp [hchildren]) hp hinside hnested
      hcs.2
    simp only [List.length_append, List.length_singleton, bareBelow_append] at hnext
    have hchild := hnested.2.1 c hmem
    -- the children behind this one start behind its end
    have hbehind : ∀ c' ∈ cs, c.stop ≤ c'.start := by
      have hordered := hnested.2.2
      rw [hchildren, List.pairwise_append] at hordered
      exact fun c' hc' => (List.pairwise_cons.mp hordered.2.1).1 c' hc'
    have hhere : Option.Rel Place.Bare (ref.climb? parent steps) (ref.climb? parent.bare steps') :=
      NodeRef.climb?_bare hp
    rw [placeAmong_cons]
    cases hc : c.isComment with
    | true =>
      obtain ⟨hleaf, _, _, _, hlength⟩ := hplain hc
      -- unless the comment is passed over, its siblings are behind the start of the range
      have hgone : ref.start < c.stop →
          placeAmong ref.start ref.stop steps' parent.bare (bareBelow before).length
            (bareBelow cs) = ⟨parent.bare, steps'⟩ := by
        intro hlt
        apply placeAmong_of_lt
        rw [bareBelow_eq_map]
        intro c' hc'
        obtain ⟨c', hmem', rfl⟩ := List.mem_map.mp hc'
        have := hbehind c' (List.mem_of_mem_filter hmem')
        rw [Node.bare_toNodeInfo]
        omega
      simp only [bareBelow, hc, if_true] at hnext ⊢
      split_ifs with hpassed hbefore
      · exact hnext
      · rw [hgone (by omega)]
        exact hhere
      · have hrange : ref.start < c.stop ∧ ref.stop ≤ c.stop := by
          simp only [NodeInfo.PassedOver, if_neg (Nat.ne_of_lt hlength)] at hpassed
          omega
        rw [hgone hrange.1, placeAt_of_leaf hleaf]
        have hother : c.kind ≠ ref.kind := by
          rintro heq
          exact hkind (heq.symm.trans (beq_iff_eq.mp hc))
        exact hp.climb?_comment hinside hother hchild ⟨Nat.le_of_not_lt hbefore, hrange.2⟩
    | false =>
      simp only [bareBelow, hc, Bool.false_eq_true, if_false, List.length_singleton,
        placeAmong_cons, Node.bare_toNodeInfo] at hnext ⊢
      split_ifs with hpassed hbefore
      · exact hnext
      · exact hhere
      · have hinner : Place.Inside ⟨c, ⟨parent, before.length⟩ :: steps⟩ := by
          rintro s ⟨⟩
          exact hchild
        exact Node.placeAt_bare hkind c (hp.child hchildren hc) hinner hcs.1

end

/-- A reference to something else than a comment finds the same node in the tree without comments,
or none in either tree. -/
theorem NodeRef.resolve?_bare {root : Node} (hroot : root.WellFormed)
    (haside : root.Everywhere Node.CommentsAside) (hkind : ref.kind ≠ "comment") :
    (ref.resolve? root = none ∧ ref.resolve? root.bare = none) ∨
      ∃ p p', ref.resolve? root = some p ∧ ref.resolve? root.bare = some p' ∧ p.Bare p' := by
  have hrel : Option.Rel Place.Bare (ref.resolve? root) (ref.resolve? root.bare) :=
    root.placeAt_bare hkind ⟨rfl, .nil, haside⟩ (fun _ hs => nomatch hs) hroot
  generalize ref.resolve? root = found, ref.resolve? root.bare = found' at hrel
  cases hrel with
  | none => exact .inl ⟨rfl, rfl⟩
  | some h => exact .inr ⟨_, _, rfl, rfl, h⟩

theorem NodeRef.kind_of_resolve? {root : Node} {p : Place} (h : ref.resolve? root = some p) :
    p.node.kind = ref.kind :=
  kind_of_climb? h

end UtsInsight
