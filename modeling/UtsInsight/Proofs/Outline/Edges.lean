import Mathlib.Data.List.Basic
import UtsInsight.Outline.Header

/-!
# Edges of words in a line

A header is looked for where a word begins or ends. The search goes from left to right, so what it
finds stands at the first edge at which the reader accepts the rest of the line, and it finds nothing
exactly if the reader refuses every edge.
-/
namespace UtsInsight.Outline

open Text

/-- A word begins or ends between the text and the character. -/
def AtEdge (before : List Char) (c : Char) : Prop :=
  before.getLast?.any isWord ≠ isWord c

instance (before : List Char) (c : Char) : Decidable (AtEdge before c) :=
  inferInstanceAs (Decidable (_ ≠ _))

variable {α : Type} {read : List Char → Option α} {passed cs before text : List Char} {a : α}

/-- A word stands on one side of an edge. -/
theorem AtEdge.exists_isWord {c : Char} (h : AtEdge before c) (rest : List Char) :
    ∃ d ∈ before ++ c :: rest, isWord d = true := by
  cases hc : isWord c with
  | true => exact ⟨c, by simp, hc⟩
  | false =>
    cases hlast : before.getLast? with
    | none => simp [AtEdge, hlast, hc] at h
    | some d =>
      refine ⟨d, List.mem_append_left _ (List.mem_of_getLast? hlast), ?_⟩
      simpa [AtEdge, hlast, hc] using h

theorem searchFrom_cons (read : List Char → Option α) (passed : List Char) (c : Char)
    (cs : List Char) :
    searchFrom read passed (c :: cs) =
      match (if AtEdge passed.reverse c then read (c :: cs) else none) with
      | some a => some (passed.reverse, a)
      | none => searchFrom read (c :: passed) cs := by
  by_cases hedge : passed.head?.any isWord = isWord c
  · simp [searchFrom, AtEdge, List.getLast?_reverse, hedge]
  · cases hread : read (c :: cs) <;>
      simp [searchFrom, AtEdge, List.getLast?_reverse, hedge, hread]

theorem searchFrom_eq_none_iff : searchFrom read passed cs = none ↔
    ∀ l d r, cs = l ++ d :: r → AtEdge (passed.reverse ++ l) d → read (d :: r) = none := by
  induction cs generalizing passed with
  | nil => simp [searchFrom]
  | cons c cs ih =>
    have hrest : searchFrom read (c :: passed) cs = none ↔
        ∀ l d r, cs = l ++ d :: r → AtEdge (passed.reverse ++ c :: l) d → read (d :: r) = none := by
      simpa using @ih (c :: passed)
    rw [searchFrom_cons]
    constructor
    · intro h l d r heq hedge
      cases l with
      | nil =>
        obtain ⟨rfl, rfl⟩ := List.cons.inj heq
        rw [if_pos (by simpa using hedge)] at h
        cases hread : read (c :: cs) with
        | none => rfl
        | some a => simp [hread] at h
      | cons e l =>
        obtain ⟨rfl, rfl⟩ := List.cons.inj heq
        split at h
        · cases h
        · exact hrest.mp h l d r rfl hedge
    · intro h
      have hhere : (if AtEdge passed.reverse c then read (c :: cs) else none) = none := by
        split_ifs with hedge
        · exact h [] c cs rfl (by simpa using hedge)
        · rfl
      rw [hhere]
      exact hrest.mpr fun l d r heq => h (c :: l) d r (by simp [heq])

theorem exists_first_of_searchFrom (h : searchFrom read passed cs = some (before, a)) :
    ∃ left c rest, before = passed.reverse ++ left ∧ cs = left ++ c :: rest ∧ AtEdge before c ∧
      read (c :: rest) = some a ∧ ∀ l d r, cs = l ++ d :: r → l.length < left.length →
        AtEdge (passed.reverse ++ l) d → read (d :: r) = none := by
  induction cs generalizing passed with
  | nil => cases h
  | cons c cs ih =>
    rw [searchFrom_cons] at h
    split at h
    next found hfound =>
      obtain ⟨rfl, rfl⟩ := Prod.mk.inj (Option.some.inj h)
      split_ifs at hfound with hedge
      exact ⟨[], c, cs, by simp, rfl, hedge, hfound, by simp⟩
    next hnone =>
      obtain ⟨left, d, rest, rfl, rfl, hedge, hread, hfirst⟩ := ih h
      refine ⟨c :: left, d, rest, by simp, rfl, hedge, hread, fun l e r heq hlt hedge' => ?_⟩
      cases l with
      | nil =>
        obtain ⟨rfl, rfl⟩ := List.cons.inj heq
        simpa [show AtEdge passed.reverse c by simpa using hedge'] using hnone
      | cons f l =>
        obtain ⟨rfl, htail⟩ := List.cons.inj heq
        exact hfirst l e r htail (by simpa using hlt) (by simpa using hedge')

/-! ### Whole lines -/

theorem search_eq_none_iff : search read text = none ↔
    ∀ l d r, text = l ++ d :: r → AtEdge l d → read (d :: r) = none := by
  rw [search, searchFrom_eq_none_iff]
  simp

/-- A search finds the leftmost edge that is accepted. -/
theorem exists_first_of_search (h : search read text = some (before, a)) :
    ∃ c rest, text = before ++ c :: rest ∧ AtEdge before c ∧ read (c :: rest) = some a ∧
      ∀ l d r, text = l ++ d :: r → l.length < before.length → AtEdge l d →
        read (d :: r) = none := by
  obtain ⟨left, c, rest, rfl, htext, hedge, hread, hfirst⟩ := exists_first_of_searchFrom h
  exact ⟨c, rest, htext, hedge, hread, hfirst⟩

end UtsInsight.Outline
