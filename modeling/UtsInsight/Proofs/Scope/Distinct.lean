import UtsInsight.Proofs.Scope.Sites

/-!
# Every name is declared once

Two walks that declare names go over the same nodes: one from node to node, and from some of them a
search for the names of a pattern, of parameters or of an import. A name that such a search finds is
not declared again when the walk comes by, since nothing on the way to it declares names itself. So
no two declarations are of one place, and a name with characters has a range of its own.
-/
namespace UtsInsight

namespace Binder

variable {p : Place}

/-! ### Names of a document -/

/-- What means nothing for scopes declares no names. -/
theorem namesAt_eq_nil (h : form p.node.kind = .other) : namesAt p = [] := by
  unfold namesAt outerNames innerNames
  rw [h]
  rfl

/-- A place that the walk enters later is apart from one that it entered before, or below it. -/
def EnteredBefore (p q : Place) : Prop :=
  Place.Apart p q ∨ (Place.Below p q ∧ p ≠ q ∧ (form p.node.kind).descends)

mutual

theorem walkedPlaces_pairwise : ∀ (n : Node) (steps : List Step),
    (walkedPlaces steps n).Pairwise EnteredBefore
  | ⟨info, children⟩, steps => by
    unfold walkedPlaces
    dsimp only
    split
    next hdescends =>
      refine List.pairwise_cons.mpr ⟨fun q hq => .inr ?_,
        walkedPlacesBelow_pairwise children steps _ 0 _⟩
      obtain ⟨c, hc, hbelow⟩ := exists_child_of_mem_walkedPlacesBelow children steps _ 0 _ hq
      refine ⟨(Place.below_of_mem_children hc).trans hbelow, ?_, hdescends⟩
      rintro rfl
      obtain ⟨i, _, _, rfl⟩ := Place.eq_of_mem_placesFrom hc
      exact hbelow.path_ne_cons _ rfl
    next => exact List.pairwise_singleton _ _

theorem walkedPlacesBelow_pairwise : ∀ (cs : List Node) (steps : List Step) (parent : Node)
    (index : Nat) (skipsName : Bool),
    (walkedPlacesBelow steps parent index skipsName cs).Pairwise EnteredBefore
  | [], _, _, _, _ => .nil
  | c :: cs, steps, parent, index, skipsName => by
    unfold walkedPlacesBelow
    dsimp only
    refine List.pairwise_append.mpr ⟨?_, walkedPlacesBelow_pairwise cs steps parent _ _, ?_⟩
    · split
      · exact walkedPlaces_pairwise c _
      · exact .nil
    · intro p hp q hq
      split at hp
      · obtain ⟨c', hc', hbelow⟩ := exists_child_of_mem_walkedPlacesBelow cs steps parent _ _ hq
        have hapart := Place.placesFrom_apart steps parent index (c :: cs)
        exact .inl (((List.pairwise_cons.mp hapart).1 c' hc').mono
          (below_of_mem_walkedPlaces c _ hp) hbelow)
      · exact absurd hp List.not_mem_nil

end

section

variable {root : Node} {q : Place}

/-- No name is declared at two places that are entered, or twice at one. -/
theorem declaredNames_distinct (hgrammar : root.Everywhere Node.HoldsNames) :
    ((declaredNames root).map (·.place.path)).Nodup := by
  have hsite : ∀ {p}, p ∈ walkedPlacesBelow [] root 0 false root.children →
      Place.Below (.ofRoot root) p ∧ Place.FoundBelow
        (fun n => (form p.node.kind).descends → form n.kind = .other) p
        ((namesAt p).map (·.place)) := by
    intro p hp
    obtain ⟨c, hc, hcp⟩ := exists_child_of_mem_walkedPlacesBelow root.children [] root 0 false hp
    have hchild : c ∈ (Place.ofRoot root).children := hc
    have hbelow := (Place.below_of_mem_children hchild).trans hcp
    exact ⟨hbelow, foundBelow_namesAt (hgrammar.at? (hbelow.at? rfl)).self⟩
  -- one place finds its names apart, and two places are apart or one is entered below the other
  rw [declaredNames, List.Nodup, List.pairwise_map, List.pairwise_flatMap]
  refine ⟨fun p hp => ?_, ?_⟩
  · exact (List.pairwise_map.mp (hsite hp).2.apart).imp Place.Apart.path_ne
  · refine (walkedPlacesBelow_pairwise root.children [] root 0 false).imp_of_mem ?_
    intro p q hp hq hbefore n hn m hm
    obtain ⟨hrp, hfound⟩ := hsite hp
    obtain ⟨hrq, hfound'⟩ := hsite hq
    obtain ⟨hpn, _⟩ := hfound.below (List.mem_map_of_mem hn)
    obtain ⟨hqm, hne⟩ := hfound'.below (List.mem_map_of_mem hm)
    rcases hbefore with hapart | ⟨hpq, hpne, hdescends⟩
    · exact (hapart.mono hpn hqm).path_ne
    · -- the later place would be on the way to the name of the earlier one
      intro hpath
      have heq := (hrp.trans hpn).eq_of_path_eq (hrq.trans hqm) hpath
      have hother := hfound.between (List.mem_map_of_mem hn) hpq (heq ▸ hqm) hpne (heq ▸ hne)
      rw [namesAt_eq_nil (hother hdescends)] at hm
      exact absurd hm List.not_mem_nil

end

end Binder

/-! ### Look-up by range -/

namespace Bindings

variable {b : Bindings}

/-- Enters a declaration under the range of its name, in place of an earlier one. -/
def enterName (table : ByteSpan → Option DeclId) (d : Declaration × DeclId) :
    ByteSpan → Option DeclId :=
  Function.update table d.1.nameRange (some d.2)

/-- The table from the ranges of names to declarations in which the last one of a range is kept. -/
def nameTable (b : Bindings) : ByteSpan → Option DeclId :=
  b.declarations.zipIdx.foldl enterName fun _ => none

theorem foldl_enterName (ds : List (Declaration × DeclId)) (table : ByteSpan → Option DeclId)
    (range : ByteSpan) :
    ds.foldl enterName table range =
      ((ds.reverse.find? (·.1.nameRange == range)).map (·.2)).or (table range) := by
  induction ds generalizing table with
  | nil => rfl
  | cons d ds ih =>
    rw [List.foldl_cons, ih, List.reverse_cons, List.find?_append, Option.map_or, Option.or_assoc,
      List.find?_singleton, enterName]
    congr 1
    by_cases h : d.1.nameRange = range
    · rw [if_pos (beq_iff_eq.mpr h), h, Function.update_self]
      rfl
    · rw [if_neg (mt beq_iff_eq.mp h), Function.update_of_ne (Ne.symm h)]
      rfl

theorem nameTable_eq (b : Bindings) (range : ByteSpan) :
    b.nameTable range =
      (b.declarations.zipIdx.reverse.find? (·.1.nameRange == range)).map (·.2) := by
  rw [nameTable, foldl_enterName, Option.or_none]

/-- What the table has for a range is a declaration whose name covers it. -/
theorem exists_of_nameTable {range : ByteSpan} {id : DeclId} (h : b.nameTable range = some id) :
    ∃ d, b.declaration? id = some d ∧ d.nameRange = range := by
  rw [nameTable_eq] at h
  obtain ⟨⟨d, id'⟩, hfound, rfl⟩ := Option.map_eq_some_iff.mp h
  have hmem := List.mem_reverse.mp (List.mem_of_find?_eq_some hfound)
  have hrange := List.find?_some hfound
  exact ⟨d, List.mem_zipIdx_iff_getElem?.mp hmem, beq_iff_eq.mp hrange⟩

/-- The table knows the same ranges as the search for the first declaration. -/
theorem isSome_nameTable (b : Bindings) (range : ByteSpan) :
    (b.nameTable range).isSome = (b.declarationNamedAt range).isSome := by
  rw [nameTable_eq, Option.isSome_map, Bool.eq_iff_iff, List.find?_isSome, declarationNamedAt,
    List.findIdx?_isSome, List.any_eq_true]
  simp only [List.mem_reverse, Prod.exists, List.mem_zipIdx_iff_getElem?]
  constructor
  · rintro ⟨d, id, hd, hrange⟩
    exact ⟨d, List.mem_of_getElem? hd, hrange⟩
  · rintro ⟨d, hd, hrange⟩
    obtain ⟨id, hd⟩ := List.getElem?_of_mem hd
    exact ⟨d, id, hd, hrange⟩

end Bindings

namespace Binder

variable {root : Node} {source : List Char}

/-- Names that are different leaves do not cover the same range, unless it is empty. -/
theorem path_eq_of_range_eq (hroot : root.WellFormed) {p q : Place}
    (hp : root.at? p.path = some p.node) (hq : root.at? q.path = some q.node)
    (hpleaf : p.node.children = []) (hqleaf : q.node.children = [])
    (hlength : p.node.start < p.node.stop) (hrange : p.node.range = q.node.range) :
    p.path = q.path := by
  by_contra hne
  have hstart : p.node.start = q.node.start := congrArg ByteSpan.start hrange
  have hstop : p.node.stop = q.node.stop := congrArg ByteSpan.stop hrange
  rcases hroot.apart hp hq (fun h => hne (Node.path_eq_of_leaf hp hpleaf hq h))
    (fun h => hne (Node.path_eq_of_leaf hq hqleaf hp h).symm) with h | h
  · omega
  · omega

/-- In a well-formed tree of the grammar in which the names are leaves, a name with characters leads
back to its declaration. -/
theorem declarationNamedAt_nameRange (hroot : root.WellFormed)
    (hgrammar : root.Everywhere Node.HoldsNames)
    (hleaf : ∀ n ∈ declaredNames root, n.place.node.children = []) {id : DeclId} {d : Declaration}
    (hd : (bind root source).declaration? id = some d)
    (hlength : d.nameRange.start < d.nameRange.stop) :
    (bind root source).declarationNamedAt d.nameRange = some id := by
  have hsome : ((bind root source).declarationNamedAt d.nameRange).isSome := by
    rw [Bindings.declarationNamedAt, List.findIdx?_isSome, List.any_eq_true]
    exact ⟨d, List.mem_of_getElem? hd, beq_self_eq_true _⟩
  obtain ⟨first, hnamed⟩ := Option.isSome_iff_exists.mp hsome
  obtain ⟨hlt, hsame, _⟩ := List.findIdx?_eq_some_iff_getElem.mp hnamed
  -- the first declaration of the range is of the same place, which is declared once
  obtain ⟨n, hn, hsettles⟩ := exists_settles hd
  obtain ⟨m, hm, hsettles'⟩ := exists_settles (List.getElem?_eq_getElem hlt)
  have hrange := (beq_iff_eq.mp hsame).symm
  rw [hsettles.range] at hrange hlength
  rw [hsettles'.range] at hrange
  have hnmem := List.mem_of_getElem? hn
  have hmmem := List.mem_of_getElem? hm
  have hpath := path_eq_of_range_eq hroot (at?_of_mem_declaredNames hnmem)
    (at?_of_mem_declaredNames hmmem) (hleaf n hnmem) (hleaf m hmmem) hlength hrange
  have hid : id < ((declaredNames root).map (·.place.path)).length := by
    rw [List.length_map]
    exact (List.getElem?_eq_some_iff.mp hn).1
  have heq : id = first := by
    refine (List.getElem?_inj hid (declaredNames_distinct hgrammar)).mp ?_
    rw [List.getElem?_map, List.getElem?_map, hn, hm, Option.map_some, Option.map_some, hpath]
  rw [hnamed, heq]

/-- Every name node is declared once. In a well-formed tree in which the names are leaves, each
declaration is that of one place of the tree, and no two are of the same place. So a name with
characters leads back to its declaration, and it makes no difference for ranges with characters
whether the first or the last declaration of a range is kept. -/
theorem bind_names_distinct (tree : SyntaxTree) (source : List Char)
    (hroot : tree.root.WellFormed)
    (hleaf : ∀ n ∈ declaredNames tree.root, n.place.node.children = []) :
    let root := tree.root
    let b := bind root source
    (List.Forall₂ (fun n d => n.place.node.range = d.nameRange ∧ n.place.node.text source = d.name)
        (declaredNames root) b.declarations ∧
      (∀ n ∈ declaredNames root, root.at? n.place.path = some n.place.node) ∧
      ((declaredNames root).map (·.place.path)).Nodup) ∧
    (∀ id d, b.declaration? id = some d → d.nameRange.start < d.nameRange.stop →
      b.declarationNamedAt d.nameRange = some id) ∧
    ∀ range : ByteSpan, range.start < range.stop →
      b.nameTable range = b.declarationNamedAt range := by
  intro root b
  have hgrammar : root.Everywhere Node.HoldsNames := tree.holdsNames
  have hnames : List.Forall₂
      (fun n d => n.place.node.range = d.nameRange ∧ n.place.node.text source = d.name)
      (declaredNames root) b.declarations :=
    (bind_settles root source).imp fun n d h => ⟨h.range.symm, h.name.symm⟩
  have hnodup := declaredNames_distinct hgrammar
  have hfirst : ∀ id d, b.declaration? id = some d → d.nameRange.start < d.nameRange.stop →
      b.declarationNamedAt d.nameRange = some id :=
    fun _ _ hd hlength => declarationNamedAt_nameRange hroot hgrammar hleaf hd hlength
  refine ⟨⟨hnames, fun _ => at?_of_mem_declaredNames, hnodup⟩, hfirst,
    fun range hlength => ?_⟩
  cases hlast : b.nameTable range with
  | some id =>
    obtain ⟨d, hd, rfl⟩ := Bindings.exists_of_nameTable hlast
    exact (hfirst id d hd hlength).symm
  | none =>
    have hsome := b.isSome_nameTable range
    rw [hlast, Option.isSome_none] at hsome
    exact (Option.isSome_eq_false_iff.mp hsome.symm |> Option.isNone_iff_eq_none.mp).symm

end Binder

section

open Node

/-- `function f(a) { let b; }` -/
def localText : List Char :=
  "function f(a) \x7b let b; \x7d".toList

def localTree : Node :=
  construct "program" 0 24 none
    [construct "function_declaration" 0 24 none
      [token "function" 0 8 none,
        construct "identifier" 9 10 (some "name") [],
        construct "formal_parameters" 10 13 (some "parameters")
          [token "(" 10 11 none,
            construct "required_parameter" 11 12 none
              [construct "identifier" 11 12 (some "pattern") []],
            token ")" 12 13 none],
        construct "statement_block" 14 24 (some "body")
          [token "\x7b" 14 15 none,
            construct "lexical_declaration" 16 22 none
              [token "let" 16 19 (some "kind"),
                construct "variable_declarator" 20 21 none
                  [construct "identifier" 20 21 (some "name") []],
                token ";" 21 22 none],
            token "\x7d" 23 24 none]]]

/-- The function, its parameter and its variable are three declarations, and each name leads back to
its own. -/
theorem bind_names_distinct_local :
    let b := Binder.bind localTree localText
    localTree.WellFormed ∧ localTree.Everywhere Node.Grammatical ∧
      b.declarations.map (·.nameRange) = [⟨9, 10⟩, ⟨11, 12⟩, ⟨20, 21⟩] ∧
      b.declarationNamedAt ⟨11, 12⟩ = some 1 ∧ b.nameTable ⟨20, 21⟩ = some 2 ∧
      ((Binder.declaredNames localTree).map (·.place.path)).Nodup := by
  intro b
  have hwellFormed : localTree.WellFormed := by decide +kernel
  have hgrammar : localTree.Everywhere Node.Grammatical := by decide +kernel
  have hleaf : ∀ n ∈ Binder.declaredNames localTree, n.place.node.children = [] := by
    have hall : (Binder.declaredNames localTree).all (·.place.node.children.isEmpty) = true := by
      decide +kernel
    exact fun n hn => List.isEmpty_iff.mp (List.all_eq_true.mp hall n hn)
  obtain ⟨⟨_, _, hnodup⟩, hfirst, htable⟩ :=
    Binder.bind_names_distinct ⟨localTree, hgrammar⟩ localText hwellFormed hleaf
  have hranges : b.declarations.map (·.nameRange) = [⟨9, 10⟩, ⟨11, 12⟩, ⟨20, 21⟩] := by
    decide +kernel
  have hnamed : ∀ {id : DeclId} {range : ByteSpan}, range.start < range.stop →
      (b.declarations.map (·.nameRange))[id]? = some range →
        b.declarationNamedAt range = some id := by
    intro id range hlength hrange
    rw [List.getElem?_map] at hrange
    obtain ⟨d, hd, rfl⟩ := Option.map_eq_some_iff.mp hrange
    exact hfirst id d hd hlength
  refine ⟨hwellFormed, hgrammar, hranges, hnamed (by decide) (by rw [hranges]; rfl), ?_, hnodup⟩
  rw [htable ⟨20, 21⟩ (by decide)]
  exact hnamed (by decide) (by rw [hranges]; rfl)

end

end UtsInsight
