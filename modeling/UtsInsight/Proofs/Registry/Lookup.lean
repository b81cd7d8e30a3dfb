import Mathlib.Data.List.Basic
import Mathlib.Tactic.SplitIfs
import UtsInsight.Registry

/-!
# Looking up what was registered

What each operation of a registry does to its look-ups. A registry that was built by its operations
holds no address twice, and then its entries are exactly what its look-ups find.
-/
namespace UtsInsight.Registry

variable {α : Type} {registry : Registry α} {uri : Uri} {value : α}

theorem lookup_cons_of_ne {u v : Uri} (h : u ≠ v) (value : α) (entries : List (Uri × α)) :
    ((v, value) :: entries).lookup u = entries.lookup u := by
  rw [List.lookup_cons, beq_false_of_ne h]

theorem lookup_insertEntry (uri u : Uri) (value : α) (entries : List (Uri × α)) :
    (insertEntry uri value entries).lookup u =
      if u = uri then some value else entries.lookup u := by
  induction entries with
  | nil =>
    split_ifs with h
    · simp [insertEntry, h]
    · simp [insertEntry, lookup_cons_of_ne h]
  | cons entry rest ih =>
    obtain ⟨v, old⟩ := entry
    by_cases hv : v = uri
    · subst hv
      rw [insertEntry, if_pos rfl]
      split_ifs with h
      · simp [h]
      · rw [lookup_cons_of_ne h, lookup_cons_of_ne h]
    · rw [insertEntry, if_neg hv]
      by_cases h : u = v
      · subst h
        simp [hv]
      · rw [lookup_cons_of_ne h, lookup_cons_of_ne h, ih]

@[simp] theorem get?_empty (uri : Uri) : (empty : Registry α).get? uri = none := rfl

theorem get?_insert (registry : Registry α) (uri u : Uri) (value : α) :
    (registry.insert uri value).get? u = if u = uri then some value else registry.get? u :=
  lookup_insertEntry uri u value registry.entries

theorem get?_erase (registry : Registry α) (uri u : Uri) :
    (registry.erase uri).get? u = if u = uri then none else registry.get? u := by
  unfold erase get?
  induction registry.entries with
  | nil => simp
  | cons entry rest ih =>
    obtain ⟨v, old⟩ := entry
    by_cases hv : v = uri
    · subst hv
      rw [List.filter_cons_of_neg (by simp), ih]
      split_ifs with h
      · rfl
      · rw [lookup_cons_of_ne h]
    · rw [List.filter_cons_of_pos (by simpa using hv)]
      by_cases h : u = v
      · subst h
        simp [hv]
      · rw [lookup_cons_of_ne h, lookup_cons_of_ne h, ih]

/-- No address is registered twice. -/
def Distinct (registry : Registry α) : Prop :=
  (registry.entries.map Prod.fst).Nodup

theorem distinct_empty : (empty : Registry α).Distinct :=
  List.nodup_nil

theorem mem_insertEntry_keys {u : Uri} {entries : List (Uri × α)}
    (h : u ∈ (insertEntry uri value entries).map Prod.fst) :
    u = uri ∨ u ∈ entries.map Prod.fst := by
  induction entries with
  | nil => exact Or.inl (by simpa [insertEntry] using h)
  | cons entry rest ih =>
    obtain ⟨v, old⟩ := entry
    by_cases hv : v = uri
    · subst hv
      rw [insertEntry, if_pos rfl] at h
      exact Or.inr (by simpa using h)
    · simp only [insertEntry, if_neg hv, List.map_cons, List.mem_cons] at h ⊢
      rcases h with h | h
      · exact Or.inr (Or.inl h)
      · exact (ih h).imp_right Or.inr

theorem Distinct.insert (h : registry.Distinct) (uri : Uri) (value : α) :
    (registry.insert uri value).Distinct := by
  unfold Distinct Registry.insert at *
  generalize registry.entries = entries at h
  induction entries with
  | nil => simp [insertEntry]
  | cons entry rest ih =>
    obtain ⟨v, old⟩ := entry
    simp only [List.map_cons, List.nodup_cons] at h
    by_cases hv : v = uri
    · subst hv
      rw [insertEntry, if_pos rfl]
      exact List.nodup_cons.mpr h
    · simp only [insertEntry, if_neg hv, List.map_cons, List.nodup_cons]
      exact ⟨fun hmem => (mem_insertEntry_keys hmem).elim hv h.1, ih h.2⟩

theorem Distinct.erase (h : registry.Distinct) (uri : Uri) : (registry.erase uri).Distinct :=
  h.sublist (List.filter_sublist.map _)

theorem mem_of_get? (h : registry.get? uri = some value) : (uri, value) ∈ registry.entries := by
  obtain ⟨before, after, he, -⟩ := List.lookup_eq_some_iff.mp h
  rw [he]
  simp

theorem notMem_keys_of_get?_eq_none (h : registry.get? uri = none) :
    uri ∉ registry.entries.map Prod.fst := by
  intro hmem
  obtain ⟨⟨u, value⟩, hentry, rfl⟩ := List.mem_map.mp hmem
  have hne := List.lookup_eq_none_iff.mp h (u, value) hentry
  simp at hne

end UtsInsight.Registry
