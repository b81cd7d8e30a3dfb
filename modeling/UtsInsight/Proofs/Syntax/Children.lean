import Mathlib.Data.List.Nodup
import Mathlib.Data.List.Pairwise
import UtsInsight.Proofs.Syntax.WellFormed

/-!
# Children as places

Functions on trees go through the children of a node with a counter. Here the children of a place
are places themselves, so that such a function is a list operation on them, and what it finds is
below the place. Two places are apart if neither is around the other; children of one place are.
-/
namespace UtsInsight

mutual

theorem Node.everywhere_of_children {motive : Node → Prop}
    (h : ∀ n : Node, (∀ c ∈ n.children, motive c) → motive n) : ∀ n : Node, n.Everywhere motive
  | ⟨_, children⟩ =>
    ⟨h _ fun _ hc => ((everywhereBelow_of_children h children).of_mem hc).self,
      everywhereBelow_of_children h children⟩

theorem everywhereBelow_of_children {motive : Node → Prop}
    (h : ∀ n : Node, (∀ c ∈ n.children, motive c) → motive n) :
    ∀ ns : List Node, EverywhereBelow motive ns
  | [] => trivial
  | c :: cs => ⟨c.everywhere_of_children h, everywhereBelow_of_children h cs⟩

end

/-- What holds of a node if it holds of all its children holds of every node. -/
theorem Node.induction {motive : Node → Prop}
    (h : ∀ n : Node, (∀ c ∈ n.children, motive c) → motive n) (n : Node) : motive n :=
  (n.everywhere_of_children h).self

/-- The places of the children of `parent` from the given index on. -/
def placesFrom (steps : List Step) (parent : Node) (index : Nat) : List Node → List Place
  | [] => []
  | c :: cs => ⟨c, ⟨parent, index⟩ :: steps⟩ :: placesFrom steps parent (index + 1) cs

theorem map_node_placesFrom (steps : List Step) (parent : Node) (index : Nat) (cs : List Node) :
    (placesFrom steps parent index cs).map (·.node) = cs := by
  induction cs generalizing index with
  | nil => rfl
  | cons c cs ih => rw [placesFrom, List.map_cons, ih]

namespace Place

variable {p q r : Place}

def children (p : Place) : List Place :=
  placesFrom p.steps p.node 0 p.node.children

def constructs (p : Place) : List Place :=
  p.children.filter (·.node.isNamed)

def child? (p : Place) (role : String) : Option Place :=
  p.children.find? (·.node.field == some role)

theorem map_node_children (p : Place) : p.children.map (·.node) = p.node.children :=
  map_node_placesFrom _ _ _ _

theorem map_node_constructs (p : Place) : p.constructs.map (·.node) = p.node.namedChildren := by
  rw [constructs, Node.namedChildren, ← map_node_children, List.filter_map]
  rfl

theorem map_node_child? (p : Place) (role : String) :
    (p.child? role).map (·.node) = p.node.child? role := by
  rw [child?, Node.child?, ← map_node_children, List.find?_map]
  rfl

theorem map_node_toList_child? (p : Place) (role : String) :
    (p.child? role).toList.map (·.node) = (p.node.child? role).toList := by
  rw [← map_node_child?]
  cases p.child? role <;> rfl

theorem field_of_child? {role : String} (h : p.child? role = some q) :
    q.node.field = some role :=
  beq_iff_eq.mp (List.find?_some (p := fun q : Place => q.node.field == some role) h)

theorem mem_children_of_child? {role : String} (h : p.child? role = some q) : q ∈ p.children :=
  List.mem_of_find?_eq_some h

theorem mem_children_of_mem_constructs (h : q ∈ p.constructs) : q ∈ p.children :=
  List.mem_of_mem_filter h

theorem getElem?_placesFrom (steps : List Step) (parent : Node) (index : Nat) (cs : List Node)
    (i : Nat) : (placesFrom steps parent index cs)[i]? =
      cs[i]?.map fun c => ⟨c, ⟨parent, index + i⟩ :: steps⟩ := by
  induction cs generalizing index i with
  | nil => rfl
  | cons c cs ih =>
    cases i with
    | zero => rfl
    | succ i =>
      rw [placesFrom, List.getElem?_cons_succ, List.getElem?_cons_succ, ih, Nat.add_assoc,
        Nat.add_comm 1]

theorem getElem?_children (p : Place) (i : Nat) :
    p.children[i]? = p.node.children[i]?.map fun c => ⟨c, ⟨p.node, i⟩ :: p.steps⟩ := by
  rw [children, getElem?_placesFrom, Nat.zero_add]

theorem eq_of_mem_placesFrom {steps : List Step} {parent : Node} {index : Nat} {cs : List Node}
    (h : q ∈ placesFrom steps parent index cs) :
    ∃ (i : Nat) (c : Node), cs[i]? = some c ∧ q = ⟨c, ⟨parent, index + i⟩ :: steps⟩ := by
  obtain ⟨i, hi⟩ := List.mem_iff_getElem?.mp h
  rw [getElem?_placesFrom] at hi
  obtain ⟨c, hc, rfl⟩ := Option.map_eq_some_iff.mp hi
  exact ⟨i, c, hc, rfl⟩

theorem eq_of_mem_children (h : q ∈ p.children) :
    ∃ (i : Nat) (c : Node), p.node.children[i]? = some c ∧ q = ⟨c, ⟨p.node, i⟩ :: p.steps⟩ := by
  obtain ⟨i, c, hc, rfl⟩ := eq_of_mem_placesFrom h
  exact ⟨i, c, hc, by rw [Nat.zero_add]⟩

theorem below_of_mem_children (h : q ∈ p.children) : Below p q := by
  obtain ⟨i, c, hc, rfl⟩ := eq_of_mem_children h
  exact Below.refl.child hc

theorem node_mem_of_mem_children (h : q ∈ p.children) : q.node ∈ p.node.children := by
  obtain ⟨i, c, hc, rfl⟩ := eq_of_mem_children h
  exact List.mem_of_getElem? hc

theorem path_ne_nil_of_mem_children (h : q ∈ p.children) : q.path ≠ [] := by
  obtain ⟨i, c, _, rfl⟩ := eq_of_mem_children h
  exact List.cons_ne_nil _ _

/-- What holds of a place if it holds of all its children holds of every place. -/
theorem induction {motive : Place → Prop}
    (h : ∀ p : Place, (∀ q ∈ p.children, motive q) → motive p) (p : Place) : motive p := by
  obtain ⟨n, steps⟩ := p
  induction n using Node.induction generalizing steps with
  | h n ih => exact h _ fun q hq => ih q.node (node_mem_of_mem_children hq) q.steps

/-! ### Below a place -/

namespace Below

theorem path_ne_cons (h : Below p q) (i : Nat) : p.path ≠ i :: q.path := by
  intro hpath
  have hlength := h.suffix.length_le
  rw [hpath, List.length_cons] at hlength
  omega

/-- A place below another one is the place itself or comes later on the way down. -/
theorem eq_or_ne (h : Below p q) : p = q ∨ p.path ≠ q.path := by
  cases h with
  | refl => exact .inl rfl
  | @child q i c h hc => exact .inr (h.path_ne_cons i)

theorem antisymm (h : Below p q) (h' : Below q p) : p = q :=
  h.eq_or_ne.resolve_right fun hne =>
    hne (List.IsSuffix.eq_of_length h.suffix
      (Nat.le_antisymm h.suffix.length_le h'.suffix.length_le))

/-- Below a place, a path says which place it is. -/
theorem eq_of_path_eq (hq : Below p q) (hr : Below p r) (h : q.path = r.path) : q = r := by
  induction hq generalizing r with
  | refl => exact hr.eq_or_ne.resolve_right fun hne => hne h
  | @child q i c hq hc ih =>
    cases hr with
    | refl => exact absurd h.symm (hq.path_ne_cons i)
    | @child r j d hr hd =>
      obtain ⟨rfl, hpath⟩ := List.cons.inj h
      obtain rfl := ih hr hpath
      rw [Option.some.inj (hc.symm.trans hd)]

/-- What is around a child is the child or around its parent. -/
theorem eq_or_parent {c : Node} {i : Nat} (h : Below p ⟨c, ⟨q.node, i⟩ :: q.steps⟩) :
    p = ⟨c, ⟨q.node, i⟩ :: q.steps⟩ ∨ Below p q := by
  generalize hr : (⟨c, ⟨q.node, i⟩ :: q.steps⟩ : Place) = r at h
  cases h with
  | refl => exact .inl rfl
  | @child q' j d h _ =>
    cases q
    cases q'
    cases hr
    exact .inr h

theorem total (hp : Below p r) (hq : Below q r) : Below p q ∨ Below q p := by
  induction hp with
  | refl => exact .inr hq
  | @child r i c hp hc ih =>
    rcases hq.eq_or_parent with rfl | hq
    · exact .inl (hp.child hc)
    · exact ih hq

end Below

/-! ### Places apart -/

/-- Neither place is around the other. -/
def Apart (p q : Place) : Prop :=
  ¬ p.path <:+ q.path ∧ ¬ q.path <:+ p.path

theorem Apart.symm (h : Apart p q) : Apart q p :=
  ⟨h.2, h.1⟩

instance : Std.Symm Apart :=
  ⟨fun _ _ => Apart.symm⟩

theorem Apart.path_ne (h : Apart p q) : p.path ≠ q.path := fun hpath =>
  h.1 (hpath ▸ List.suffix_refl _)

/-- What is below one of two places apart is apart from what is below the other. -/
theorem Apart.mono {p' q' : Place} (h : Apart p q) (hp : Below p p') (hq : Below q q') :
    Apart p' q' := by
  have hboth : ∀ path, p.path <:+ path → ¬ q.path <:+ path := by
    intro path hp hq
    rcases List.suffix_or_suffix_of_suffix hp hq with hpq | hqp
    · exact h.1 hpq
    · exact h.2 hqp
  exact ⟨fun hsuffix => hboth _ (hp.suffix.trans hsuffix) hq.suffix,
    fun hsuffix => hboth _ hp.suffix (hq.suffix.trans hsuffix)⟩

theorem placesFrom_apart (steps : List Step) (parent : Node) (index : Nat) (cs : List Node) :
    (placesFrom steps parent index cs).Pairwise Apart := by
  induction cs generalizing index with
  | nil => exact .nil
  | cons c cs ih =>
    refine List.pairwise_cons.mpr ⟨fun q hq => ?_, ih (index + 1)⟩
    obtain ⟨i, d, _, rfl⟩ := eq_of_mem_placesFrom hq
    have hne : index ≠ index + 1 + i := by omega
    have hlength : ∀ (i j : Nat) (path : List Nat), i ≠ j → ¬ (i :: path) <:+ j :: path := by
      intro i j path hne hsuffix
      exact hne (List.cons.inj (List.IsSuffix.eq_of_length hsuffix rfl)).1
    exact ⟨hlength _ _ _ hne, hlength _ _ _ (Ne.symm hne)⟩

theorem children_apart (p : Place) : p.children.Pairwise Apart :=
  placesFrom_apart _ _ _ _

theorem nodup_children (p : Place) : p.children.Nodup :=
  p.children_apart.imp fun hapart heq => hapart.path_ne (congrArg path heq)

theorem apart_of_mem_children (hq : q ∈ p.children) (hr : r ∈ p.children) (hne : q ≠ r) :
    Apart q r :=
  p.children_apart.forall hq hr hne

/-- Places that are found below places apart are apart, if those below one place are. -/
theorem flatMap_apart {f : Place → List Place} {ps : List Place} (hps : ps.Pairwise Apart)
    (hbelow : ∀ p ∈ ps, ∀ q ∈ f p, Below p q) (hf : ∀ p ∈ ps, (f p).Pairwise Apart) :
    (ps.flatMap f).Pairwise Apart := by
  refine List.pairwise_flatMap.mpr ⟨hf, hps.imp_of_mem ?_⟩
  intro p q hp hq hapart x hx y hy
  exact hapart.mono (hbelow p hp x hx) (hbelow q hq y hy)

theorem constructs_sublist (p : Place) : p.constructs.Sublist p.children :=
  List.filter_sublist

theorem toList_child?_sublist (p : Place) (role : String) :
    (p.child? role).toList.Sublist p.children := by
  cases h : p.child? role with
  | none => exact List.nil_sublist _
  | some q => exact List.singleton_sublist.mpr (mem_children_of_child? h)

/-! ### Places found on the way down -/

/-- Places found below a place or at it by going down through nodes with a property: the search ends
at a place, or goes on at some of the children in order. -/
inductive Found (P : Node → Prop) : Place → List Place → Prop
  | nothing {p : Place} : Found P p []
  | here {p : Place} : Found P p [p]
  | onward {p : Place} {ps : List Place} {f : Place → List Place} (hp : P p.node)
    (hps : ps.Sublist p.children) (h : ∀ q ∈ ps, Found P q (f q)) : Found P p (ps.flatMap f)

/-- The way to what is found below a child leads through the child. -/
theorem child_on_way {c : Place} (hc : c ∈ p.children) (hcq : Below c q) (hpr : Below p r)
    (hrq : Below r q) (hne : p ≠ r) : Below c r := by
  rcases hrq.total hcq with hrc | hcr
  · -- a place around a child and below its parent is one of the two
    obtain ⟨i, n, _, rfl⟩ := eq_of_mem_children hc
    rcases hrc.eq_or_parent with rfl | hrp
    · exact .refl
    · exact absurd (hpr.antisymm hrp) hne
  · exact hcr

namespace Found

variable {P Q : Node → Prop} {ps : List Place}

theorem mono (hPQ : ∀ n, P n → Q n) (h : Found P p ps) : Found Q p ps := by
  induction h with
  | nothing => exact nothing
  | here => exact here
  | onward hp hps _ ih => exact onward (hPQ _ hp) hps ih

theorem child (hp : P p.node) (hq : q ∈ p.children) (h : Found P q ps) : Found P p ps := by
  rw [← List.flatMap_singleton (fun _ => ps) q]
  exact onward hp (List.singleton_sublist.mpr hq) fun r hr => (List.mem_singleton.mp hr).symm ▸ h

theorem child? (role : String) (hp : (p.child? role).isSome → P p.node) :
    Found P p (p.child? role).toList := by
  cases h : p.child? role with
  | none => exact nothing
  | some q =>
    rw [h] at hp
    exact child (hp rfl) (mem_children_of_child? h) here

theorem atOrBelow (h : Found P p ps) : ∀ q ∈ ps, Below p q := by
  induction h with
  | nothing => exact fun q hq => absurd hq List.not_mem_nil
  | here =>
    intro q hq
    rw [List.mem_singleton.mp hq]
    exact .refl
  | onward _ hps _ ih =>
    intro q hq
    obtain ⟨r, hr, hq⟩ := List.mem_flatMap.mp hq
    exact (below_of_mem_children (hps.subset hr)).trans (ih r hr q hq)

theorem apart (h : Found P p ps) : ps.Pairwise Apart := by
  induction h with
  | nothing => exact .nil
  | here => exact List.pairwise_singleton _ _
  | @onward p ps f _ hps h ih =>
    exact flatMap_apart (p.children_apart.sublist hps) (fun q hq => (h q hq).atOrBelow) ih

/-- The nodes between the place and a place that is found have the property. -/
theorem between (h : Found P p ps) (hq : q ∈ ps) (hpr : Below p r) (hrq : Below r q)
    (hne : r ≠ q) : P r.node := by
  induction h generalizing q r with
  | nothing => exact absurd hq List.not_mem_nil
  | here =>
    obtain rfl := List.mem_singleton.mp hq
    exact absurd (hrq.antisymm hpr) hne
  | @onward p ps f hp hps h ih =>
    by_cases hpath : p = r
    · exact hpath ▸ hp
    · obtain ⟨c, hc, hq⟩ := List.mem_flatMap.mp hq
      have hcr := child_on_way (hps.subset hc) ((h c hc).atOrBelow q hq) hpr hrq hpath
      exact ih c hc hq hcr hrq hne

end Found

/-- Places found below a place by searching some of its children, each once. -/
def FoundBelow (P : Node → Prop) (p : Place) (qs : List Place) : Prop :=
  ∃ searched : List (Place × List Place), (searched.map (·.1)).Nodup ∧
    (∀ s ∈ searched, s.1 ∈ p.children ∧ Found P s.1 s.2) ∧ searched.flatMap (·.2) = qs

namespace FoundBelow

variable {P Q : Node → Prop} {qs : List Place}

theorem nothing : FoundBelow P p [] :=
  ⟨[], .nil, fun _ hs => absurd hs List.not_mem_nil, rfl⟩

theorem mono (hPQ : ∀ n, P n → Q n) (h : FoundBelow P p qs) : FoundBelow Q p qs := by
  obtain ⟨searched, hnodup, hsearched, hqs⟩ := h
  exact ⟨searched, hnodup, fun s hs => (hsearched s hs).imp_right (·.mono hPQ), hqs⟩

theorem children {ps : List Place} {f : Place → List Place} (hps : ps.Sublist p.children)
    (h : ∀ q ∈ ps, Found P q (f q)) : FoundBelow P p (ps.flatMap f) := by
  refine ⟨ps.map fun q => (q, f q), ?_, fun s hs => ?_, ?_⟩
  · rw [List.map_map]
    exact (List.map_id ps).symm ▸ p.nodup_children.sublist hps
  · obtain ⟨q, hq, rfl⟩ := List.mem_map.mp hs
    exact ⟨hps.subset hq, h q hq⟩
  · rw [List.flatMap_map]

theorem roles (parts : List (String × (Place → List Place))) (hroles : (parts.map (·.1)).Nodup)
    (h : ∀ part ∈ parts, ∀ q, p.child? part.1 = some q → Found P q (part.2 q)) :
    FoundBelow P p (parts.flatMap fun part => (p.child? part.1).toList.flatMap part.2) := by
  refine ⟨parts.flatMap fun part => (p.child? part.1).toList.map fun q => (q, part.2 q), ?_, ?_, ?_⟩
  · rw [List.map_flatMap]
    simp only [List.map_map, Function.comp_def, List.map_id']
    refine List.nodup_flatMap.mpr
      ⟨fun part _ => p.nodup_children.sublist (p.toList_child?_sublist part.1), ?_⟩
    refine (List.pairwise_map.mp hroles).imp fun hne q hq hq' => hne ?_
    have hfield := field_of_child? (Option.mem_toList.mp hq)
    exact Option.some.inj (hfield.symm.trans (field_of_child? (Option.mem_toList.mp hq')))
  · intro s hs
    obtain ⟨part, hpart, hs⟩ := List.mem_flatMap.mp hs
    obtain ⟨q, hq, rfl⟩ := List.mem_map.mp hs
    have hchild := Option.mem_toList.mp hq
    exact ⟨mem_children_of_child? hchild, h part hpart q hchild⟩
  · rw [List.flatMap_assoc]
    simp only [List.flatMap_map]

theorem apart (h : FoundBelow P p qs) : qs.Pairwise Apart := by
  obtain ⟨searched, hnodup, hsearched, rfl⟩ := h
  refine List.pairwise_flatMap.mpr ⟨fun s hs => (hsearched s hs).2.apart, ?_⟩
  refine (List.pairwise_map.mp hnodup).imp_of_mem fun {s t} hs ht hne x hx y hy => ?_
  obtain ⟨hs', hfound⟩ := hsearched s hs
  obtain ⟨ht', hfound'⟩ := hsearched t ht
  exact (apart_of_mem_children hs' ht' hne).mono (hfound.atOrBelow x hx) (hfound'.atOrBelow y hy)

theorem below (h : FoundBelow P p qs) (hq : q ∈ qs) : Below p q ∧ p ≠ q := by
  obtain ⟨searched, _, hsearched, rfl⟩ := h
  obtain ⟨s, hs, hq⟩ := List.mem_flatMap.mp hq
  obtain ⟨hchild, hfound⟩ := hsearched s hs
  have hcq := hfound.atOrBelow q hq
  refine ⟨(below_of_mem_children hchild).trans hcq, ?_⟩
  rintro rfl
  obtain ⟨i, n, _, hs⟩ := eq_of_mem_children hchild
  rw [hs] at hcq
  exact hcq.path_ne_cons i rfl

/-- The nodes on the way from the place to one that is found have the property, both ends apart. -/
theorem between (h : FoundBelow P p qs) (hq : q ∈ qs) (hpr : Below p r) (hrq : Below r q)
    (hp : p ≠ r) (hne : r ≠ q) : P r.node := by
  obtain ⟨searched, _, hsearched, rfl⟩ := h
  obtain ⟨s, hs, hq⟩ := List.mem_flatMap.mp hq
  obtain ⟨hchild, hfound⟩ := hsearched s hs
  have hcr := child_on_way hchild (hfound.atOrBelow q hq) hpr hrq hp
  exact hfound.between hq hcr hrq hne

end FoundBelow

end Place

end UtsInsight
