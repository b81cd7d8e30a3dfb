import Mathlib.Data.List.Basic
import UtsInsight.Text.Basic

/-!
# Parts of a text

A word that does not hold a character is found on one side of it or on the other. So the places of a
word in a text that is put together from pieces are the places in the pieces, if what stands between
them does not occur in the word.
-/
namespace UtsInsight.Text

variable {word part text x y a b : List Char} {c : Char}

theorem dropPrefix?_append (part text : List Char) : dropPrefix? part (part ++ text) = some text := by
  rw [dropPrefix?, if_pos (List.isPrefixOf_iff_prefix.mpr (List.prefix_append part text)),
    List.drop_left]

theorem contains_eq_true_iff : contains part text = true ↔ part <:+: text := by
  induction text with
  | nil => rw [contains, List.isEmpty_iff, List.infix_nil]
  | cons c cs ih =>
    rw [contains, Bool.or_eq_true, ih, List.isPrefixOf_iff_prefix, List.infix_cons_iff]

/-- The word stands before the character or behind it. -/
theorem exists_of_append_cons (hc : c ∉ word) (h : x ++ c :: y = a ++ (word ++ b)) :
    (∃ t, x = a ++ (word ++ t) ∧ b = t ++ c :: y) ∨
      ∃ t, a = x ++ c :: t ∧ y = t ++ (word ++ b) := by
  rw [← List.append_assoc] at h
  rcases List.append_eq_append_iff.mp h with ⟨t, hleft, hright⟩ | ⟨t, hleft, hright⟩
  · cases t with
    | nil =>
      rw [List.append_nil] at hleft
      exact .inl ⟨[], by rw [List.append_nil, hleft], hright.symm⟩
    | cons d t =>
      obtain ⟨rfl, rfl⟩ := List.cons.inj hright
      rcases List.append_eq_append_iff.mp hleft with ⟨s, -, hword⟩ | ⟨s, hx, hword⟩
      · exact absurd (hword ▸ List.mem_append_right s List.mem_cons_self) hc
      · cases s with
        | nil => exact absurd (hword ▸ List.mem_cons_self : c ∈ [] ++ word) hc
        | cons d s =>
          obtain ⟨rfl, rfl⟩ := List.cons.inj hword
          exact .inr ⟨s, hx, List.append_assoc _ _ _⟩
  · exact .inl ⟨t, by rw [hleft, List.append_assoc], hright⟩

/-- A word that is on neither side of a character is not in the text. -/
theorem not_infix_append_cons (hc : c ∉ word) (hx : ¬ word <:+: x) (hy : ¬ word <:+: y) :
    ¬ word <:+: x ++ c :: y := by
  rintro ⟨a, b, h⟩
  rw [List.append_assoc] at h
  rcases exists_of_append_cons hc h.symm with ⟨t, rfl, -⟩ | ⟨t, -, rfl⟩
  · exact hx ⟨a, t, List.append_assoc _ _ _⟩
  · exact hy ⟨t, b, List.append_assoc _ _ _⟩

end UtsInsight.Text
