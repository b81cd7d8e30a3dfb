/-!
# A cache of values computed from texts

Values are kept under a hash of the text they were computed from, together with that text. A hit
compares the texts, so two texts with one hash never see each other's value. When the cache is full
a tenth of it is given up before a value is stored, even if the value replaces one that is already
there.

Neither the hash function nor the choice of the entries that are given up is fixed here: both belong
to a `CachePolicy`, and nothing that the cache answers for a stored text depends on them.
-/

namespace UtsInsight

/-- A stored value with its text and the hash of the text. -/
structure CacheEntry (κ α : Type) where
  hash : κ
  text : List Char
  value : α

/-- How texts are hashed, and which entries stay when a number of them is given up. -/
structure CachePolicy (κ α : Type) where
  hash : List Char → κ
  keep : Nat → List (CacheEntry κ α) → List (CacheEntry κ α)
  keep_sublist : ∀ n entries, (keep n entries).Sublist entries
  keep_length : ∀ n entries, (keep n entries).length = entries.length - n

/-- The policy that hashes a text to itself and gives up the oldest entries first. -/
def CachePolicy.oldestFirst (α : Type) : CachePolicy (List Char) α where
  hash := id
  keep n entries := entries.drop n
  keep_sublist n entries := List.drop_sublist n entries
  keep_length _ _ := List.length_drop

/-- The stored entries, one per hash, and the number of entries at which the cache is full. -/
structure Cache (κ α : Type) where
  entries : List (CacheEntry κ α)
  capacity : Nat

namespace Cache

variable {κ α : Type} [DecidableEq κ]

/-- An empty cache. A capacity of zero is raised to one. -/
def empty (capacity : Nat) : Cache κ α :=
  ⟨[], max 1 capacity⟩

def size (cache : Cache κ α) : Nat :=
  cache.entries.length

/-- The value stored for exactly this text. -/
def get? (policy : CachePolicy κ α) (cache : Cache κ α) (text : List Char) : Option α :=
  match cache.entries.find? fun e => e.hash == policy.hash text with
  | some e => if e.text = text then some e.value else none
  | none => none

/-- Removes the entry under the hash of a text. -/
def invalidate (policy : CachePolicy κ α) (cache : Cache κ α) (text : List Char) : Cache κ α :=
  { cache with entries := cache.entries.filter fun e => e.hash != policy.hash text }

/-- Number of entries that a full cache gives up. -/
def evicted (cache : Cache κ α) : Nat :=
  max 1 (cache.capacity / 10)

/-- The cache with room for another entry. -/
def makeRoom (policy : CachePolicy κ α) (cache : Cache κ α) : Cache κ α :=
  if cache.capacity ≤ cache.size then
    { cache with entries := policy.keep cache.evicted cache.entries }
  else cache

/-- Stores a value, in place of the entry with the same hash if there is one. -/
def insert (policy : CachePolicy κ α) (cache : Cache κ α) (text : List Char) (value : α) :
    Cache κ α :=
  let room := (cache.makeRoom policy).invalidate policy text
  { room with entries := room.entries ++ [⟨policy.hash text, text, value⟩] }

/-- The value for a text, computed and stored if it is not there. The flag tells whether it was
computed. -/
def getOrInsert (policy : CachePolicy κ α) (cache : Cache κ α) (text : List Char)
    (compute : Unit → α) : α × Bool × Cache κ α :=
  match cache.get? policy text with
  | some value => (value, false, cache)
  | none =>
    let value := compute ()
    (value, true, cache.insert policy text value)

variable {policy : CachePolicy κ α} {cache : Cache κ α}

/-- A hit compares the texts. -/
theorem exists_mem_of_get? {text : List Char} {value : α}
    (h : cache.get? policy text = some value) :
    ∃ e ∈ cache.entries, e.text = text ∧ e.value = value := by
  unfold get? at h
  split at h
  next e he =>
    obtain ⟨htext, hvalue⟩ := Option.ite_none_right_eq_some.mp h
    exact ⟨e, List.mem_of_find?_eq_some he, htext, Option.some.inj hvalue⟩
  next => contradiction

omit [DecidableEq κ] in
theorem makeRoom_sublist (policy : CachePolicy κ α) (cache : Cache κ α) :
    (cache.makeRoom policy).entries.Sublist cache.entries := by
  unfold makeRoom
  split
  · exact policy.keep_sublist _ _
  · exact List.Sublist.refl _

end Cache

end UtsInsight
