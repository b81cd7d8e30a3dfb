import Mathlib.Data.List.Infix
import UtsInsight.Proofs.Text.Brackets

/-!
# Counting parentheses

Readers of parameter lists look at round brackets alone and count how many are open. In a text whose
brackets match, every parenthesis has its partner too, so the count comes back to nothing at the end
and never falls below it.
-/
namespace UtsInsight.Text

/-- The text closes the given number of parentheses, and all that it opens itself. -/
inductive ClosesParens : Nat → List Char → Prop
  | nil : ClosesParens 0 []
  | opening {depth : Nat} {cs : List Char} : ClosesParens (depth + 1) cs →
      ClosesParens depth ('(' :: cs)
  | closing {depth : Nat} {cs : List Char} : ClosesParens depth cs →
      ClosesParens (depth + 1) (')' :: cs)
  | other {depth : Nat} {cs : List Char} {c : Char} : c ≠ '(' → c ≠ ')' → ClosesParens depth cs →
      ClosesParens depth (c :: cs)

/-- With as many parentheses open before the text, none in it is nested deeper than the bound. -/
def NestsAtMost (bound depth : Nat) (cs : List Char) : Prop :=
  ∀ a, a <+: cs → depth + a.count '(' ≤ a.count ')' + bound

instance (bound depth : Nat) (cs : List Char) : Decidable (NestsAtMost bound depth cs) :=
  decidable_of_iff (∀ a ∈ cs.inits, depth + a.count '(' ≤ a.count ')' + bound)
    ⟨fun h a ha => h a ((List.mem_inits _ _).mpr ha), fun h a ha => h a ((List.mem_inits _ _).mp ha)⟩

namespace NestsAtMost

variable {bound depth : Nat} {c : Char} {cs : List Char}

theorem opening (h : NestsAtMost bound depth ('(' :: cs)) : NestsAtMost bound (depth + 1) cs := by
  intro a ha
  have hcs := h ('(' :: a) (List.cons_prefix_cons.mpr ⟨rfl, ha⟩)
  rw [List.count_cons_self, List.count_cons_of_ne (by decide)] at hcs
  omega

theorem closing (h : NestsAtMost bound (depth + 1) (')' :: cs)) : NestsAtMost bound depth cs := by
  intro a ha
  have hcs := h (')' :: a) (List.cons_prefix_cons.mpr ⟨rfl, ha⟩)
  rw [List.count_cons_self, List.count_cons_of_ne (by decide)] at hcs
  omega

theorem other (h : NestsAtMost bound depth (c :: cs)) (hopen : c ≠ '(') (hclose : c ≠ ')') :
    NestsAtMost bound depth cs := by
  intro a ha
  have hcs := h (c :: a) (List.cons_prefix_cons.mpr ⟨rfl, ha⟩)
  rwa [List.count_cons_of_ne hopen, List.count_cons_of_ne hclose] at hcs

theorem le (h : NestsAtMost bound depth cs) : depth ≤ bound := by
  have hnil := h [] List.nil_prefix
  rwa [List.count_nil, List.count_nil, Nat.zero_add] at hnil

end NestsAtMost

/-- A text that closes a stack of brackets closes the parentheses in it. -/
theorem Closes.closesParens {stack cs : List Char} (h : Closes stack cs) :
    ClosesParens (stack.count ')') cs := by
  induction h with
  | nil => exact .nil
  | arrow _ ih => exact .other (by decide) (by decide) (.other (by decide) (by decide) ih)
  | @opening stack cs o c hc _ ih =>
    rcases closing?_eq_some.mp hc with ⟨rfl, rfl⟩ | hc
    · rw [List.count_cons_self] at ih
      exact .opening ih
    · have hne : o ≠ '(' ∧ o ≠ ')' ∧ c ≠ ')' := by
        rcases hc with ⟨rfl, rfl⟩ | ⟨rfl, rfl⟩ | ⟨rfl, rfl⟩ <;> decide
      rw [List.count_cons_of_ne hne.2.2] at ih
      exact .other hne.1 hne.2.1 ih
  | @closing stack cs c hc _ ih =>
    by_cases hclose : c = ')'
    · subst hclose
      rw [List.count_cons_self]
      exact .closing ih
    · rw [List.count_cons_of_ne hclose]
      refine .other ?_ hclose ih
      rintro rfl
      cases hc
  | plain hopening hclosing _ _ ih =>
    refine .other ?_ ?_ ih
    · rintro rfl
      cases hopening
    · rintro rfl
      cases hclosing

end UtsInsight.Text
