import Mathlib.Data.List.Nodup
import Mathlib.Tactic.SplitIfs
import UtsInsight.Cache

/-!
# Runs of a cache

A run of a cache is recorded as the list of its exchanges, the latest first. What the cache may answer
for a text is said from that record alone: nothing, or the value that was stored for exactly this
text last, unless the text was invalidated after that. The cache never holds more entries than it has
room for, holds one entry under a hash, and gives up entries under other hashes only when it is full.

The hash function belongs to a run and may send different texts to one hash. The choice of victims
belongs to each call, so an eviction may give up any entries at all.
-/
namespace UtsInsight.Cache

variable {κ α : Type}

/-! ### Runs -/

inductive Operation (α : Type) where
  | get (text : List Char)
  | insert (text : List Char) (value : α)
  | getOrInsert (text : List Char) (compute : Unit → α)
  | invalidate (text : List Char)

inductive Answer (α : Type) where
  | done
  | found (value : Option α)
  /-- The value that was there. -/
  | held (value : α)
  /-- A value that was not there and was computed and stored. -/
  | computed (value : α)

/-- An operation with the answer it got. -/
structure Exchange (α : Type) where
  operation : Operation α
  answer : Answer α

/-- An operation with the policy that it meets, one of those with the hash function of the run. -/
structure Call (hash : List Char → κ) (α : Type) where
  policy : CachePolicy κ α
  hash_eq : policy.hash = hash
  operation : Operation α

/-- One operation: the answer, and the cache afterwards. -/
def serve [DecidableEq κ] (policy : CachePolicy κ α) (cache : Cache κ α) :
    Operation α → Answer α × Cache κ α
  | .get text => (.found (cache.get? policy text), cache)
  | .insert text value => (.done, cache.insert policy text value)
  | .getOrInsert text compute =>
    match cache.getOrInsert policy text compute with
    | (value, true, cache) => (.computed value, cache)
    | (value, false, cache) => (.held value, cache)
  | .invalidate text => (.done, cache.invalidate policy text)

/-- Serves calls one after another, with the exchanges before them, the latest first. -/
def run [DecidableEq κ] {hash : List Char → κ} :
    List (Call hash α) → List (Exchange α) → Cache κ α → List (Exchange α) × Cache κ α
  | [], record, cache => (record, cache)
  | call :: calls, record, cache =>
    let (answer, cache) := cache.serve call.policy call.operation
    run calls (⟨call.operation, answer⟩ :: record) cache

/-! ### What a cache may answer -/

/-- The value that was stored last for exactly this text, if it was not invalidated since. -/
def latest? (text : List Char) : List (Exchange α) → Option α
  | [] => none
  | ⟨.insert t value, _⟩ :: earlier => if t = text then some value else latest? text earlier
  | ⟨.getOrInsert t _, .computed value⟩ :: earlier =>
    if t = text then some value else latest? text earlier
  | ⟨.invalidate t, _⟩ :: earlier => if t = text then none else latest? text earlier
  | _ :: earlier => latest? text earlier

/-- The answer to an operation is right after the given exchanges. -/
def Right (earlier : List (Exchange α)) : Exchange α → Prop
  | ⟨.get text, .found value⟩ => value = none ∨ value = latest? text earlier
  | ⟨.insert _ _, .done⟩ => True
  | ⟨.getOrInsert text _, .held value⟩ => latest? text earlier = some value
  | ⟨.getOrInsert _ compute, .computed value⟩ => value = compute ()
  | ⟨.invalidate _, .done⟩ => True
  | _ => False

/-- Every answer of a record was right when it was given. -/
def AllRight : List (Exchange α) → Prop
  | [] => True
  | e :: earlier => Right earlier e ∧ AllRight earlier

/-- What a record says about the cache that made it. -/
structure Coherent (hash : List Char → κ) (capacity : Nat) (record : List (Exchange α))
    (cache : Cache κ α) : Prop where
  capacity_eq : cache.capacity = max 1 capacity
  size_le : cache.size ≤ max 1 capacity
  distinct : (cache.entries.map (·.hash)).Nodup
  hash_eq : ∀ e ∈ cache.entries, e.hash = hash e.text
  latest : ∀ e ∈ cache.entries, latest? e.text record = some e.value
  allRight : AllRight record

variable {policy : CachePolicy κ α} {hash : List Char → κ} {capacity : Nat}
variable {record : List (Exchange α)} {cache : Cache κ α}

/-! ### One operation -/

theorem makeRoom_of_lt (h : cache.size < cache.capacity) : cache.makeRoom policy = cache :=
  if_neg (Nat.not_le.mpr h)

theorem size_makeRoom (h : cache.capacity ≤ cache.size) :
    (cache.makeRoom policy).size = cache.size - cache.evicted := by
  unfold makeRoom
  rw [if_pos h]
  exact policy.keep_length _ _

@[simp]
theorem makeRoom_capacity (policy : CachePolicy κ α) (cache : Cache κ α) :
    (cache.makeRoom policy).capacity = cache.capacity := by
  unfold makeRoom
  split_ifs <;> rfl

/-- There is room for an entry after room was made. -/
theorem size_makeRoom_lt (policy : CachePolicy κ α) (hpos : 0 < cache.capacity)
    (h : cache.size ≤ cache.capacity) : (cache.makeRoom policy).size < cache.capacity := by
  by_cases hfull : cache.capacity ≤ cache.size
  · have hevicted : 1 ≤ cache.evicted := Nat.le_max_left 1 _
    rw [size_makeRoom hfull]
    omega
  · have hlt := Nat.lt_of_not_le hfull
    rwa [makeRoom_of_lt hlt]

namespace Coherent

theorem empty (hash : List Char → κ) (capacity : Nat) :
    Coherent hash capacity [] (Cache.empty capacity : Cache κ α) where
  capacity_eq := rfl
  size_le := Nat.zero_le _
  distinct := List.nodup_nil
  hash_eq _ he := absurd he List.not_mem_nil
  latest _ he := absurd he List.not_mem_nil
  allRight := trivial

/-- An exchange that neither stores nor invalidates. -/
theorem unchanged (h : Coherent hash capacity record cache) {e : Exchange α}
    (hright : Right record e) (hlatest : ∀ t, latest? t (e :: record) = latest? t record) :
    Coherent hash capacity (e :: record) cache :=
  { h with
    latest := fun entry hentry => (hlatest _).trans (h.latest entry hentry)
    allRight := ⟨hright, h.allRight⟩ }

/-- The entries under other hashes are not about the text. -/
theorem latest_of_ne (h : Coherent hash capacity record cache) {e : Exchange α}
    {text : List Char} {outcome : Option α}
    (hlatest : ∀ t, latest? t (e :: record) = if text = t then outcome else latest? t record)
    {entry : CacheEntry κ α} (hentry : entry ∈ cache.entries) (hne : entry.hash ≠ hash text) :
    latest? entry.text (e :: record) = some entry.value := by
  have htext : text ≠ entry.text := by
    rintro rfl
    exact hne (h.hash_eq entry hentry)
  rw [hlatest, if_neg htext, h.latest entry hentry]

/-- Nothing goes if there is room, and otherwise as much as a full cache gives up. -/
theorem makeRoom (h : Coherent hash capacity record cache) (policy : CachePolicy κ α) :
    (cache.size < max 1 capacity → (cache.makeRoom policy).entries = cache.entries) ∧
      (cache.size = max 1 capacity →
        (cache.makeRoom policy).size + max 1 (capacity / 10) = cache.size) := by
  constructor
  · intro hroom
    rw [← h.capacity_eq] at hroom
    rw [makeRoom_of_lt hroom]
  · intro hfull
    have hle : cache.capacity ≤ cache.size := Nat.le_of_eq (h.capacity_eq.trans hfull.symm)
    have hevicted : cache.evicted = max 1 (capacity / 10) := by
      rw [evicted, h.capacity_eq]
      omega
    rw [size_makeRoom hle, hevicted]
    omega

end Coherent

variable [DecidableEq κ]

theorem entries_insert (policy : CachePolicy κ α) (cache : Cache κ α) (text : List Char)
    (value : α) :
    (cache.insert policy text value).entries =
      (cache.makeRoom policy).entries.filter (·.hash != policy.hash text) ++
        [⟨policy.hash text, text, value⟩] :=
  rfl

/-- What was stored is there, also for a look-up that meets another policy. -/
theorem get?_insert {policy other : CachePolicy κ α} (hother : other.hash = policy.hash)
    (cache : Cache κ α) (text : List Char) (value : α) :
    (cache.insert policy text value).get? other text = some value := by
  have hothers : ((cache.makeRoom policy).entries.filter (·.hash != policy.hash text)).find?
      (·.hash == policy.hash text) = none := by
    rw [List.find?_eq_none]
    intro e he
    simpa using (List.mem_filter.mp he).2
  rw [get?, hother, entries_insert, List.find?_append, hothers, Option.none_or,
    List.find?_singleton, if_pos (beq_self_eq_true _)]
  exact if_pos rfl

namespace Coherent

/-- A hit compares the texts, so it finds what was stored for this text and not for another one
with its hash. -/
theorem get? (h : Coherent hash capacity record cache) (policy : CachePolicy κ α)
    (text : List Char) :
    cache.get? policy text = none ∨ cache.get? policy text = latest? text record := by
  cases hget : cache.get? policy text with
  | none => exact .inl rfl
  | some value =>
    obtain ⟨e, he, rfl, rfl⟩ := exists_mem_of_get? hget
    exact .inr (h.latest e he).symm

theorem insert (h : Coherent hash capacity record cache) (hpolicy : policy.hash = hash)
    {e : Exchange α} {text : List Char} {value : α} (hright : Right record e)
    (hlatest : ∀ t, latest? t (e :: record) = if text = t then some value else latest? t record) :
    Coherent hash capacity (e :: record) (cache.insert policy text value) := by
  subst hpolicy
  have hroom := makeRoom_sublist policy cache
  have hkept := List.filter_sublist (p := (·.hash != policy.hash text))
    (l := (cache.makeRoom policy).entries)
  have hothers : ∀ entry ∈ (cache.makeRoom policy).entries.filter (·.hash != policy.hash text),
      entry ∈ cache.entries ∧ entry.hash ≠ policy.hash text := by
    intro entry hentry
    obtain ⟨hmem, hne⟩ := List.mem_filter.mp hentry
    exact ⟨hroom.subset hmem, bne_iff_ne.mp hne⟩
  constructor
  case capacity_eq => exact (makeRoom_capacity policy cache).trans h.capacity_eq
  case size_le =>
    have hlength := hkept.length_le
    have hpos : 0 < cache.capacity := by
      rw [h.capacity_eq]
      omega
    have hlt := size_makeRoom_lt policy hpos (by rw [h.capacity_eq]; exact h.size_le)
    rw [h.capacity_eq] at hlt
    rw [size, entries_insert, List.length_append, List.length_singleton]
    unfold size at hlt
    omega
  case distinct =>
    rw [entries_insert, List.map_append]
    apply List.Nodup.append
    · exact h.distinct.sublist ((hkept.trans hroom).map _)
    · exact List.nodup_singleton _
    · intro key hkey hnew
      obtain ⟨entry, hentry, rfl⟩ := List.mem_map.mp hkey
      exact (hothers entry hentry).2 (List.mem_singleton.mp hnew)
  case hash_eq =>
    intro entry hentry
    rcases List.mem_append.mp hentry with hentry | hentry
    · exact h.hash_eq entry (hothers entry hentry).1
    · rw [List.mem_singleton.mp hentry]
  case latest =>
    intro entry hentry
    rcases List.mem_append.mp hentry with hentry | hentry
    · exact h.latest_of_ne hlatest (hothers entry hentry).1 (hothers entry hentry).2
    · rw [List.mem_singleton.mp hentry, hlatest, if_pos rfl]
  case allRight => exact ⟨hright, h.allRight⟩

theorem invalidate (h : Coherent hash capacity record cache) (hpolicy : policy.hash = hash)
    {e : Exchange α} {text : List Char} (hright : Right record e)
    (hlatest : ∀ t, latest? t (e :: record) = if text = t then none else latest? t record) :
    Coherent hash capacity (e :: record) (cache.invalidate policy text) := by
  subst hpolicy
  have hkept := List.filter_sublist (p := (·.hash != policy.hash text)) (l := cache.entries)
  constructor
  case capacity_eq => exact h.capacity_eq
  case size_le => exact Nat.le_trans hkept.length_le h.size_le
  case distinct => exact h.distinct.sublist (hkept.map _)
  case hash_eq => exact fun entry hentry => h.hash_eq entry (hkept.subset hentry)
  case latest =>
    intro entry hentry
    obtain ⟨hmem, hne⟩ := List.mem_filter.mp hentry
    exact h.latest_of_ne hlatest hmem (bne_iff_ne.mp hne)
  case allRight => exact ⟨hright, h.allRight⟩

/-- One call keeps the cache coherent with its record. -/
theorem serve (h : Coherent hash capacity record cache) (call : Call hash α) :
    Coherent hash capacity
      (⟨call.operation, (cache.serve call.policy call.operation).1⟩ :: record)
      (cache.serve call.policy call.operation).2 := by
  obtain ⟨policy, hpolicy, operation⟩ := call
  cases operation with
  | get text => exact h.unchanged (h.get? policy text) fun _ => rfl
  | insert text value => exact h.insert hpolicy trivial fun _ => rfl
  | getOrInsert text compute =>
    have hheld := h.get? policy text
    simp only [Cache.serve, getOrInsert]
    cases hget : cache.get? policy text with
    | some value =>
      have hlatest : latest? text record = some value := by
        rw [← hheld.resolve_left (by rw [hget]; exact Option.some_ne_none value), hget]
      exact h.unchanged hlatest fun _ => rfl
    | none => exact h.insert hpolicy rfl fun _ => rfl
  | invalidate text => exact h.invalidate hpolicy trivial fun _ => rfl

theorem run (h : Coherent hash capacity record cache) (calls : List (Call hash α)) :
    Coherent hash capacity (Cache.run calls record cache).1 (Cache.run calls record cache).2 := by
  induction calls generalizing record cache with
  | nil => exact h
  | cons call calls ih => exact ih (h.serve call)

end Coherent

/-- A record grows by the operations of the calls, and forgets none. -/
theorem run_operations (calls : List (Call hash α)) (record : List (Exchange α))
    (cache : Cache κ α) :
    (run calls record cache).1.map (·.operation) =
      (calls.map (·.operation)).reverse ++ record.map (·.operation) := by
  induction calls generalizing record cache with
  | nil => rfl
  | cons call calls ih => simp [run, ih]

/-- Whatever is asked of a cache, whichever texts share a hash and whatever evictions give up, every
answer is right, a look-up finds nothing or the value stored last for the text, and the cache has at
most the entries it has room for. A value that is stored is there. It takes the place of the entry
under its hash, and no other entry goes if there is room; a full cache gives up its share first. -/
theorem run_empty_coherent (hash : List Char → κ) (capacity : Nat) (calls : List (Call hash α)) :
    let (record, cache) := run calls [] (Cache.empty capacity)
    record.map (·.operation) = (calls.map (·.operation)).reverse ∧ AllRight record ∧
      cache.size ≤ max 1 capacity ∧ (cache.entries.map (·.hash)).Nodup ∧
      ∀ policy other : CachePolicy κ α, policy.hash = hash → other.hash = hash → ∀ text,
        (cache.get? other text = none ∨ cache.get? other text = latest? text record) ∧
        ∀ value, (cache.insert policy text value).get? other text = some value ∧
          ∃ kept, kept.Sublist cache.entries ∧
            (cache.insert policy text value).entries =
              kept.filter (·.hash != hash text) ++ [⟨hash text, text, value⟩] ∧
            (cache.size < max 1 capacity → kept = cache.entries) ∧
            (cache.size = max 1 capacity →
              kept.length + max 1 (capacity / 10) = cache.size) := by
  have h := (Coherent.empty hash capacity).run calls
  refine ⟨?_, h.allRight, h.size_le, h.distinct, ?_⟩
  · simpa using run_operations calls [] (Cache.empty capacity)
  · rintro policy other rfl hother text
    refine ⟨h.get? other text, fun value => ⟨get?_insert hother _ text value, ?_⟩⟩
    obtain ⟨hroom, hfull⟩ := h.makeRoom policy
    exact ⟨_, makeRoom_sublist policy _, entries_insert policy _ text value, hroom, hfull⟩

/-- Texts are hashed to their lengths, and there is room for two entries. The third text is stored
after the oldest entry was given up, which had its hash but another text. -/
theorem run_empty_coherent_collision :
    let policy : CachePolicy Nat Nat :=
      ⟨List.length, fun n entries => entries.drop n, fun n entries => List.drop_sublist n entries,
        fun _ _ => List.length_drop⟩
    let calls : List (Call List.length Nat) :=
      [⟨policy, rfl, .insert ['a', 'b'] 1⟩, ⟨policy, rfl, .insert ['c'] 2⟩,
        ⟨policy, rfl, .getOrInsert ['d', 'e'] fun _ => 3⟩]
    let cache := (run calls [] (Cache.empty 2)).2
    policy.hash = List.length ∧ cache.size = max 1 2 ∧
      cache.get? policy ['a', 'b'] = none ∧ cache.get? policy ['d', 'e'] = some 3 ∧
      (cache.insert policy ['f', 'g'] 4).get? policy ['f', 'g'] = some 4 ∧
      ∃ kept : List (CacheEntry Nat Nat),
        kept.Sublist cache.entries ∧ kept.length + 1 = cache.size ∧
        (cache.insert policy ['f', 'g'] 4).entries =
          kept.filter (·.hash != 2) ++ [⟨2, ['f', 'g'], 4⟩] := by
  intro policy calls cache
  have hsize : cache.size = max 1 2 := by decide
  obtain ⟨-, -, -, -, hanswers⟩ := run_empty_coherent List.length 2 calls
  obtain ⟨-, hinsert⟩ := hanswers policy policy rfl rfl ['f', 'g']
  obtain ⟨hget, kept, hsublist, hentries, -, hfull⟩ := hinsert 4
  exact ⟨rfl, hsize, by decide, by decide, hget, kept, hsublist, hfull hsize, hentries⟩

end UtsInsight.Cache
