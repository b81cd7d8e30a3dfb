import Mathlib.Tactic.SplitIfs
import UtsInsight.Text.Position

/-!
# Positions of character boundaries

A character boundary of a text splits it into what comes before and what comes after, and only the
part before decides the position: its line is the number of line feeds passed, and its column the
units since the last of them.
-/
namespace UtsInsight

namespace Text

theorem unitSize_pos (c : Char) : 0 < unitSize c := by
  unfold unitSize
  split_ifs <;> omega

theorem byteLength_eq_zero_iff {cs : List Char} : byteLength cs = 0 ↔ cs = [] := by
  cases cs with
  | nil => exact iff_of_true rfl rfl
  | cons c cs => simp [byteLength, Nat.ne_of_gt c.utf8Size_pos]

theorem unitLength_eq_zero_iff {cs : List Char} : unitLength cs = 0 ↔ cs = [] := by
  cases cs with
  | nil => exact iff_of_true rfl rfl
  | cons c cs => simp [unitLength, Nat.ne_of_gt (unitSize_pos c)]

/-- A cut at the length of a beginning gives the beginning back. -/
theorem bytePrefix_byteLength (a b : List Char) : bytePrefix (byteLength a) (a ++ b) = a := by
  induction a with
  | nil =>
    cases b with
    | nil => rfl
    | cons c b =>
      have hsize : ¬ c.utf8Size ≤ 0 := by have := c.utf8Size_pos; omega
      simp only [byteLength, List.nil_append, bytePrefix, if_neg hsize]
  | cons c a ih =>
    have hsize : c.utf8Size ≤ c.utf8Size + byteLength a := Nat.le_add_right _ _
    simp only [byteLength, List.cons_append, bytePrefix, if_pos hsize, Nat.add_sub_cancel_left, ih]

theorem takeUnits_zero (cs : List Char) : takeUnits 0 cs = [] := by
  unfold takeUnits
  rfl

/-- A column behind a character takes the character and what the rest of the column takes. -/
theorem takeUnits_cons (c : Char) (cs : List Char) (n : Nat) :
    takeUnits (unitSize c + n) (c :: cs) = c :: takeUnits n cs := by
  obtain ⟨k, hk⟩ : ∃ k, unitSize c = k + 1 := Nat.exists_eq_add_one.mpr (unitSize_pos c)
  have hcolumn : unitSize c + n = k + n + 1 := by omega
  have hrest : k + n + 1 - unitSize c = n := by omega
  rw [hcolumn, takeUnits, hrest]

theorem takeUnits_isPrefix (n : Nat) (cs : List Char) : takeUnits n cs <+: cs :=
  ⟨dropUnits n cs, takeUnits_append_dropUnits n cs⟩

theorem takeUnits_mono {m n : Nat} (h : m ≤ n) (cs : List Char) :
    takeUnits m cs <+: takeUnits n cs := by
  induction cs generalizing m n with
  | nil =>
    cases m <;> cases n <;> exact List.prefix_refl []
  | cons c cs ih =>
    cases m with
    | zero =>
      rw [takeUnits_zero]
      exact List.nil_prefix
    | succ m =>
      obtain ⟨n, rfl⟩ := Nat.exists_eq_add_one.mpr (Nat.lt_of_lt_of_le (Nat.succ_pos m) h)
      exact List.cons_prefix_cons.mpr ⟨rfl, ih (Nat.sub_le_sub_right h _)⟩

end Text

/-! ### The order of positions -/

namespace Position

variable {p q : Position}

theorem before_irrefl (p : Position) : ¬ p.before p := by
  unfold before
  omega

theorem before_asymm (h : p.before q) : ¬ q.before p := by
  unfold before at h ⊢
  omega

theorem not_before_iff :
    ¬ q.before p ↔ p.line < q.line ∨ p.line = q.line ∧ p.column ≤ q.column := by
  unfold before
  omega

end Position

namespace Text

/-! ### The position behind a beginning -/

/-- The position behind a text that begins a document. -/
def positionAfter (cs : List Char) : Position :=
  cs.foldl Position.advance ⟨0, 0⟩

/-- The position of a boundary is decided by what comes before it. -/
theorem positionOf_byteLength (a b : List Char) :
    positionOf (a ++ b) (byteLength a) = positionAfter a := by
  rw [positionOf, bytePrefix_byteLength, positionAfter]

theorem positionAfter_cons (c : Char) (cs : List Char) :
    positionAfter (c :: cs) = cs.foldl Position.advance (Position.advance ⟨0, 0⟩ c) :=
  rfl

/-- Walking on from a position: the line feeds passed count, and the columns before the last one do
not. -/
theorem foldl_advance (p : Position) (cs : List Char) :
    cs.foldl Position.advance p =
      if '\n' ∈ cs then ⟨p.line + (positionAfter cs).line, (positionAfter cs).column⟩
      else ⟨p.line, p.column + unitLength cs⟩ := by
  induction cs generalizing p with
  | nil => rfl
  | cons c cs ih =>
    rw [List.foldl_cons, positionAfter_cons, ih, ih (Position.advance ⟨0, 0⟩ c)]
    by_cases hc : c = '\n'
    · subst hc
      have hline : p.line + 1 + (positionAfter cs).line =
          p.line + (0 + 1 + (positionAfter cs).line) := by
        omega
      by_cases hcs : '\n' ∈ cs
      · simp only [Position.advance, if_pos hcs, List.mem_cons_self, if_true, hline]
      · simp only [Position.advance, if_neg hcs, List.mem_cons_self, if_true, Nat.zero_add]
    · have hmem : '\n' ∈ c :: cs ↔ '\n' ∈ cs := by
        simp only [List.mem_cons, Ne.symm hc, false_or]
      by_cases hcs : '\n' ∈ cs
      · simp only [Position.advance, if_neg hc, if_pos hcs, if_pos (hmem.mpr hcs), Nat.zero_add]
      · simp only [Position.advance, if_neg hc, if_neg hcs, if_neg (mt hmem.mp hcs), unitLength,
          Nat.add_assoc]

theorem positionAfter_of_notMem {cs : List Char} (h : '\n' ∉ cs) :
    positionAfter cs = ⟨0, unitLength cs⟩ := by
  rw [positionAfter, foldl_advance, if_neg h, Nat.zero_add]

theorem positionAfter_cons_of_notMem {c : Char} {cs : List Char} (hc : c ≠ '\n') (h : '\n' ∉ cs) :
    positionAfter (c :: cs) = ⟨0, unitSize c + unitLength cs⟩ :=
  positionAfter_of_notMem fun hmem => (List.mem_cons.mp hmem).elim (Ne.symm hc) h

theorem positionAfter_newline (cs : List Char) :
    positionAfter ('\n' :: cs) = ⟨(positionAfter cs).line + 1, (positionAfter cs).column⟩ := by
  have hstep : Position.advance ⟨0, 0⟩ '\n' = ⟨1, 0⟩ := rfl
  rw [positionAfter_cons, hstep, foldl_advance]
  by_cases h : '\n' ∈ cs
  · simp only [if_pos h, Nat.add_comm 1]
  · simp only [if_neg h, positionAfter_of_notMem h, Nat.zero_add]

/-- What stands before the last line feed counts for nothing but its line feeds. -/
theorem positionAfter_cons_of_mem {c : Char} {cs : List Char} (hc : c ≠ '\n') (h : '\n' ∈ cs) :
    positionAfter (c :: cs) = positionAfter cs := by
  rw [positionAfter_cons, foldl_advance, if_pos h, Position.advance, if_neg hc, Nat.zero_add]

theorem positionAfter_line_pos {cs : List Char} (h : '\n' ∈ cs) : 0 < (positionAfter cs).line := by
  induction cs with
  | nil => cases h
  | cons c cs ih =>
    by_cases hc : c = '\n'
    · rw [hc, positionAfter_newline]
      exact Nat.succ_pos _
    · have hcs : '\n' ∈ cs := (List.mem_cons.mp h).resolve_left (Ne.symm hc)
      rw [positionAfter_cons_of_mem hc hcs]
      exact ih hcs

end Text

end UtsInsight
