import Mathlib.Data.List.Basic
import UtsInsight.Cache

/-!
# Caches that hold only right values

If every value that goes into a cache is a function of its text, then so is every value that comes
out. Neither the hash function nor the choice of victims matters, because a hit compares texts: the
policy may even be another one at each operation.
-/
namespace UtsInsight.Cache

variable {κ α : Type} [DecidableEq κ] {policy : CachePolicy κ α} {cache : Cache κ α}
variable {value : List Char → α}

/-- Every stored value is the one that belongs to the text stored with it. -/
def Faithful (value : List Char → α) (cache : Cache κ α) : Prop :=
  ∀ e ∈ cache.entries, e.value = value e.text

omit [DecidableEq κ] in
theorem faithful_empty (value : List Char → α) (capacity : Nat) :
    (empty capacity : Cache κ α).Faithful value := by
  intro e he
  simp [empty] at he

theorem Faithful.get? (h : cache.Faithful value) {text : List Char} {found : α}
    (hget : cache.get? policy text = some found) : found = value text := by
  obtain ⟨e, he, rfl, rfl⟩ := exists_mem_of_get? hget
  exact h e he

theorem Faithful.invalidate (h : cache.Faithful value) (text : List Char) :
    (cache.invalidate policy text).Faithful value :=
  fun e he => h e (List.mem_of_mem_filter he)

omit [DecidableEq κ] in
theorem Faithful.makeRoom (h : cache.Faithful value) : (cache.makeRoom policy).Faithful value :=
  fun e he => h e ((makeRoom_sublist policy cache).subset he)

theorem Faithful.insert (h : cache.Faithful value) (text : List Char) :
    (cache.insert policy text (value text)).Faithful value := by
  intro e he
  rcases List.mem_append.mp he with he | he
  · exact h.makeRoom.invalidate text e he
  · rw [List.mem_singleton.mp he]

/-- Asking for a value gives the right one, computed or not, and leaves only right ones behind. -/
theorem Faithful.getOrInsert (h : cache.Faithful value) (policy : CachePolicy κ α)
    (text : List Char) :
    (cache.getOrInsert policy text fun _ => value text).1 = value text ∧
      (cache.getOrInsert policy text fun _ => value text).2.2.Faithful value := by
  unfold Cache.getOrInsert
  cases hget : cache.get? policy text with
  | some found => exact ⟨h.get? hget, h⟩
  | none => exact ⟨rfl, h.insert text⟩

end UtsInsight.Cache
