import UtsInsight.Proofs.Scope.Structure
import UtsInsight.Proofs.Typing.Finished

/-!
# Looking names up in bindings with their types

The lists and the index of a scope speak of the names and the scopes of declarations, and filling in
types changes neither. So what a scope holds after the types were computed is what the walk put into
it.
-/
namespace UtsInsight

namespace Bindings

variable {b : Bindings} {root : Node} {source : List Char}

theorem length_resolveTypes (b : Bindings) (root : Node) (source : List Char) :
    (b.resolveTypes root source).declarations.length = b.declarations.length := by
  obtain ⟨members, hmembers, heq⟩ := b.resolveTypes_eq root source
  simp [heq, hmembers, length_typesRun]

/-- What does not look at types finds the same declarations. -/
theorem idsWhere_resolveTypes {P : Declaration → Bool}
    (hP : ∀ d type members, P (Declaration.withTypes d type members) = P d) :
    (b.resolveTypes root source).idsWhere P = b.idsWhere P := by
  unfold idsWhere
  rw [length_resolveTypes]
  apply List.filter_congr
  intro i _
  have hmap : ((b.resolveTypes root source).declaration? i).map P = (b.declaration? i).map P :=
    resolveTypes_map P hP i
  simpa only [Option.any_map, id_eq] using congrArg (Option.any id) hmap

theorem scope_lt_of_mem_resolveTypes (h : ∀ d ∈ b.declarations, d.scope < b.scopes.length) :
    ∀ d ∈ (b.resolveTypes root source).declarations,
      d.scope < (b.resolveTypes root source).scopes.length := by
  intro d hd
  obtain ⟨i, hi⟩ := List.mem_iff_getElem?.mp hd
  obtain ⟨d', type, members, hd', _, rfl⟩ := declaration?_of_resolveTypes hi
  rw [resolveTypes_scopes]
  exact h d' (List.mem_of_getElem? hd')

theorem Indexed.resolveTypes (h : b.Indexed) (root : Node) (source : List Char) :
    (b.resolveTypes root source).Indexed := by
  constructor
  · intro id s hs name
    rw [scope?, resolveTypes_scopes] at hs
    exact (h.ids hs name).trans (idsWhere_resolveTypes fun _ _ _ => rfl).symm
  · exact scope_lt_of_mem_resolveTypes h.scope

theorem Listed.resolveTypes (h : b.Listed) (root : Node) (source : List Char) :
    (b.resolveTypes root source).Listed := by
  intro id s hs
  rw [scope?, resolveTypes_scopes] at hs
  exact (h id s hs).trans (idsWhere_resolveTypes fun _ _ _ => rfl).symm

/-- What a name refers to has that name, is admitted by the space, and is on the list of a scope
around the offset. -/
theorem Lists.exists_of_resolve (h : b.Lists) {name : String} {offset : Nat} {space : Space}
    {id : DeclId} (hid : b.resolve name offset space = some id) :
    ∃ s scope d, s ∈ b.scopeChain offset ∧ b.scope? s = some scope ∧ id ∈ scope.declarations ∧
      b.declaration? id = some d ∧ d.name = name ∧ space.admits d.kind := by
  obtain ⟨s, hs, hin⟩ := List.exists_of_findSome?_eq_some hid
  unfold resolveIn at hin
  split at hin
  next scope hscope =>
    have hadmitted := List.find?_some hin
    have hmem := List.mem_of_find?_eq_some hin
    rw [h.index hscope, List.mem_filter] at hmem
    obtain ⟨d, hd, hname⟩ := (Option.any_eq_true _ _).mp hmem.2
    rw [hd, Option.any_some] at hadmitted
    exact ⟨s, scope, d, hs, hscope, hmem.1, hd, by simpa using hname, hadmitted⟩
  next => cases hin

end Bindings

namespace Binder

/-- The lists of a document's scopes, with the types of its declarations. -/
theorem resolveTypes_lists (root : Node) (source : List Char) :
    ((bind root source).resolveTypes root source).Lists :=
  ((bind_listed root source).resolveTypes root source).lists
    ((bind_indexed root source).resolveTypes root source)

end Binder

end UtsInsight
