import UtsInsight.Model
import UtsInsight.Proofs.Finding.Sources
import UtsInsight.Proofs.Scope.Sites
import UtsInsight.Proofs.Typing.Finished

/-!
# Ranges of findings

A finding has the range of a node, or reaches from the start of one statement of a block to the end
of a later one. So its end is not before its start if that holds of the nodes of the tree and
siblings are in order.
-/
namespace UtsInsight

/-- A node does not end before it starts, and its children start one after another. -/
def Node.Sequenced (n : Node) : Prop :=
  n.start ≤ n.stop ∧ n.children.Pairwise fun c c' => c.start ≤ c'.start

instance (n : Node) : Decidable n.Sequenced :=
  inferInstanceAs (Decidable (_ ∧ _))

variable {root : Node} {source : List Char} {f : Finding}

/-- The statements of a block that are not reached are among its children, in order. -/
theorem unreachableStatements_sublist (block : Node) :
    (unreachableStatements block).Sublist block.children := by
  unfold unreachableStatements
  refine List.filter_sublist.trans ((List.drop_sublist _ _).trans ?_)
  exact (List.dropWhile_sublist _).trans (List.filter_sublist.trans List.filter_sublist)

theorem range_le_of_unreachable? {block : Node} (hblock : block.Everywhere Node.Sequenced)
    (hf : unreachable? block = some f) : f.range.start ≤ f.range.stop := by
  unfold unreachable? at hf
  have hsublist := unreachableStatements_sublist block
  generalize unreachableStatements block = statements at hf hsublist
  cases statements with
  | nil => cases hf
  | cons first rest =>
    have hlast := List.getLast?_eq_some_getLast (List.cons_ne_nil first rest)
    generalize (first :: rest).getLast _ = last at hlast
    rw [hlast] at hf
    obtain rfl := Option.some.inj hf
    have hmem := List.mem_of_getLast? hlast
    have hstop : last.start ≤ last.stop :=
      (hblock.below.of_mem (hsublist.subset hmem)).self.1
    dsimp only
    rcases List.mem_cons.mp hmem with rfl | hmem
    · exact hstop
    · have hordered := hblock.self.2.sublist hsublist
      exact Nat.le_trans ((List.pairwise_cons.mp hordered).1 last hmem) hstop

theorem range_le_of_mem_findings {p : Place} {b : Bindings}
    (hp : p.node.Everywhere Node.Sequenced) (hf : f ∈ p.findings b source) :
    f.range.start ≤ f.range.stop := by
  rcases mem_findings hf with hf | ⟨c, hc, _, _, rfl⟩ | hf
  · rw [eq_of_unknownName? hf]
    exact hp.self.1
  · exact (hp.below.of_mem hc).self.1
  · exact range_le_of_unreachable? hp hf

/-- The name of a declaration has the range of a node, also after its type was computed. -/
theorem range_le_of_mem_declarations (hroot : root.Everywhere Node.Sequenced) {d : Declaration}
    (hd : d ∈ ((Binder.bind root source).resolveTypes root source).declarations) :
    d.nameRange.start ≤ d.nameRange.stop := by
  obtain ⟨id, hid⟩ := List.mem_iff_getElem?.mp hd
  obtain ⟨declared, type, members, hdeclared, _, rfl⟩ := Bindings.declaration?_of_resolveTypes hid
  obtain ⟨n, hn, hsettles⟩ := Binder.exists_settles hdeclared
  have hplace := Binder.at?_of_mem_declaredNames (List.mem_of_getElem? hn)
  have hrange : (declared.withTypes type members).nameRange = n.place.node.range := hsettles.range
  rw [hrange]
  exact (hroot.at? hplace).self.1

theorem range_le_of_mem_check (hroot : root.Everywhere Node.Sequenced)
    (hf : f ∈ check root source ((Binder.bind root source).resolveTypes root source)) :
    f.range.start ≤ f.range.stop := by
  rcases mem_check hroot hf with ⟨n, hn, rfl | rfl⟩ | ⟨d, hd, hrange, _⟩ | ⟨p, hp, hf⟩
  · exact hn.1
  · exact hn.1
  · exact hrange ▸ range_le_of_mem_declarations hroot hd
  · exact range_le_of_mem_findings (hroot.at? (at?_of_mem_checkedPlaces hp)) hf

/-- A model knows nothing, or its findings are those of the tree. -/
theorem range_le_of_mem_build (hroot : root.Everywhere Node.Sequenced)
    (hf : f ∈ (Model.build source root).findings) : f.range.start ≤ f.range.stop := by
  unfold Model.build Node.ensureDepth at hf
  split at hf
  · exact absurd hf List.not_mem_nil
  next hdepth =>
    split at hdepth
    · cases hdepth
    · obtain rfl := Except.ok.inj hdepth
      exact range_le_of_mem_check hroot hf

end UtsInsight
