import Mathlib.Order.Bounds.Defs
import Mathlib.Order.RelIso.Basic
import UtsInsight.Proofs.Text.LineStarts

/-!
# Boundaries and canonical positions

The character boundaries of a text, from its start to its end, and its canonical positions are in the
same order: the position of an offset and the offset of a position are inverse to each other between
them, and what comes first on one side comes first on the other.

Every other offset and every other position is read as one of these. An offset inside a character is
read as the last boundary before it, an offset past the end as the end. A position is read as a place
in its line, so positions of lines that exist keep their order. A position past the last line does
not: it is read in the last line with the column it has.
-/
namespace UtsInsight

open Text

namespace Position

/-- The canonical positions are those in a line, behind some beginning of it. -/
theorem canonical_iff {text : List Char} {p : Position} :
    p.Canonical text ↔ ∃ before after, (lines text)[p.line]? = some (before ++ after) ∧
      p.column = unitLength before := by
  constructor
  · exact Canonical.inLine
  · rintro ⟨before, after, hline, hcolumn⟩
    have hcanonical := canonical_of_line hline
    rwa [← hcolumn] at hcanonical

end Position

namespace Text

/-- A byte offset at which a character of a text begins, or at which the text ends. -/
def Boundary (text : List Char) : Type :=
  { offset : Nat // Checked.isBoundary text offset = true }

def CanonicalPosition (text : List Char) : Type :=
  { p : Position // p.Canonical text }

variable {text : List Char}

/-! ### Offsets -/

theorem isBoundary_byteLength (a b : List Char) :
    Checked.isBoundary (a ++ b) (byteLength a) = true :=
  Checked.isBoundary_iff.mpr ⟨a, b, rfl, rfl⟩

theorem floorBoundary_isGreatest (text : List Char) (offset : Nat) :
    IsGreatest { o | Checked.isBoundary text o = true ∧ o ≤ offset }
      (Checked.floorBoundary text offset) := by
  rw [Checked.floorBoundary_eq]
  constructor
  · obtain ⟨b, hb⟩ := bytePrefix_isPrefix offset text
    have hboundary := isBoundary_byteLength (bytePrefix offset text) b
    rw [hb] at hboundary
    exact ⟨hboundary, Checked.byteLength_bytePrefix_le offset text⟩
  · rintro o ⟨hboundary, hle⟩
    obtain ⟨a, b, rfl, rfl⟩ := Checked.isBoundary_iff.mp hboundary
    have hmono := bytePrefix_mono hle (a ++ b)
    rw [bytePrefix_byteLength] at hmono
    exact Checked.byteLength_le_of_isPrefix hmono

theorem floorBoundary_of_isBoundary {offset : Nat} (h : Checked.isBoundary text offset = true) :
    Checked.floorBoundary text offset = offset := by
  obtain ⟨⟨-, hle⟩, hgreatest⟩ := floorBoundary_isGreatest text offset
  exact Nat.le_antisymm hle (hgreatest ⟨h, Nat.le_refl offset⟩)

theorem positionOf_floorBoundary (text : List Char) (offset : Nat) :
    positionOf text (Checked.floorBoundary text offset) = positionOf text offset := by
  rw [Checked.floorBoundary_eq, positionOf,
    Checked.bytePrefix_of_isPrefix (bytePrefix_isPrefix offset text), positionOf]

/-- To the position of an offset and back leads to the boundary that the offset is read as. -/
theorem offsetOf_positionOf (text : List Char) (offset : Nat) :
    offsetOf text (positionOf text offset) = Checked.floorBoundary text offset := by
  obtain ⟨b, hb⟩ := bytePrefix_isPrefix offset text
  have hoffset := offsetOf_positionAfter (bytePrefix offset text) b
  rw [hb] at hoffset
  rw [Checked.floorBoundary_eq]
  exact hoffset

/-! ### Positions -/

section

variable {n : Nat} {before line after : List Char}

/-- A position in a line that exists is read as a place in the line. -/
theorem LineBetween.offsetOf (h : LineBetween n before line after) (column : Nat) :
    Text.offsetOf (before ++ (line ++ after)) ⟨n, column⟩ =
      byteLength (before ++ takeUnits column line) := by
  rw [byteLength_append]
  exact (Checked.lineStarts_of_lineBetween h).2.2 column

theorem LineBetween.isBoundary_offsetOf (h : LineBetween n before line after) (column : Nat) :
    Checked.isBoundary (before ++ (line ++ after))
      (Text.offsetOf (before ++ (line ++ after)) ⟨n, column⟩) = true := by
  have hline := takeUnits_append_dropUnits column line
  rw [h.offsetOf column]
  refine Checked.isBoundary_iff.mpr ⟨_, dropUnits column line ++ after, ?_, rfl⟩
  conv_lhs => rw [← hline]
  simp only [List.append_assoc]

/-- The position that a position in the line is read as. -/
theorem LineBetween.positionOf_offsetOf (h : LineBetween n before line after) (column : Nat) :
    positionOf (before ++ (line ++ after))
      (Text.offsetOf (before ++ (line ++ after)) ⟨n, column⟩) =
      ⟨n, unitLength (takeUnits column line)⟩ := by
  have hline := takeUnits_append_dropUnits column line
  have htext : before ++ (line ++ after) =
      before ++ takeUnits column line ++ (dropUnits column line ++ after) := by
    conv_lhs => rw [← hline]
    simp only [List.append_assoc]
  rw [h.offsetOf column, htext, positionOf_byteLength]
  rw [← hline] at h
  exact h.positionAfter_append

end

/-- A line past the end is read as the last one. -/
theorem offsetOf_min (text : List Char) (p : Position) :
    offsetOf text ⟨min p.line ((lines text).length - 1), p.column⟩ = offsetOf text p :=
  Checked.offsetInLines_min _ _ _

theorem exists_lineBetween_of_lt {n : Nat} (h : n < (lines text).length) :
    ∃ before line after, text = before ++ (line ++ after) ∧ LineBetween n before line after := by
  obtain ⟨before, after, htext, hline⟩ :=
    exists_of_getElem?_lines (List.getElem?_eq_getElem h)
  exact ⟨before, _, after, htext, hline⟩

theorem isBoundary_offsetOf (text : List Char) (p : Position) :
    Checked.isBoundary text (offsetOf text p) = true := by
  have hpos : 0 < (lines text).length := List.length_pos_iff.mpr (lines_ne_nil text)
  have hlast : min p.line ((lines text).length - 1) < (lines text).length := by omega
  rw [← offsetOf_min]
  generalize min p.line ((lines text).length - 1) = n at hlast ⊢
  obtain ⟨before, line, after, rfl, hline⟩ := exists_lineBetween_of_lt hlast
  exact hline.isBoundary_offsetOf p.column

/-! ### Order -/

theorem positionOf_before {o o' : Nat} (ho : Checked.isBoundary text o = true)
    (ho' : Checked.isBoundary text o' = true) (h : o < o') :
    (positionOf text o).before (positionOf text o') := by
  obtain ⟨a, b, rfl, rfl⟩ := Checked.isBoundary_iff.mp ho
  obtain ⟨a', b', htext, rfl⟩ := Checked.isBoundary_iff.mp ho'
  have hprefix : a <+: a' := by
    rcases List.prefix_or_prefix_of_prefix (List.prefix_append a b) ⟨b', htext.symm⟩ with
      hprefix | hprefix
    · exact hprefix
    · have hle := Checked.byteLength_le_of_isPrefix hprefix
      omega
  obtain ⟨part, rfl⟩ := hprefix
  have hpart : part ≠ [] := by
    rintro rfl
    rw [List.append_nil] at h
    exact Nat.lt_irrefl _ h
  rw [positionOf_byteLength a b, htext, positionOf_byteLength (a ++ part) b']
  exact positionAfter_before a hpart

theorem positionOf_before_iff {o o' : Nat} (ho : Checked.isBoundary text o = true)
    (ho' : Checked.isBoundary text o' = true) :
    (positionOf text o).before (positionOf text o') ↔ o < o' := by
  constructor
  · intro h
    rcases Nat.lt_trichotomy o o' with hlt | rfl | hgt
    · exact hlt
    · exact absurd h (Position.before_irrefl _)
    · exact absurd h (Position.before_asymm (positionOf_before ho' ho hgt))
  · exact positionOf_before ho ho'

/-- Boundaries and canonical positions, in their orders. -/
def boundaryIso (text : List Char) :
    (fun o o' : Boundary text => o.1 < o'.1) ≃r
      (fun p q : CanonicalPosition text => p.1.before q.1) where
  toFun o := ⟨positionOf text o.1, Position.canonical_positionOf text o.1⟩
  invFun p := ⟨offsetOf text p.1, isBoundary_offsetOf text p.1⟩
  left_inv o := Subtype.ext ((offsetOf_positionOf text o.1).trans (floorBoundary_of_isBoundary o.2))
  right_inv p := Subtype.ext p.2.roundTrip
  map_rel_iff' := fun {o o'} => positionOf_before_iff o.2 o'.2

/-- Positions of lines that exist keep their order. -/
theorem offsetOf_mono {p q : Position} (hq : q.line < (lines text).length) (h : ¬ q.before p) :
    offsetOf text p ≤ offsetOf text q := by
  have horder := Position.not_before_iff.mp h
  obtain ⟨pline, pcolumn⟩ := p
  obtain ⟨qline, qcolumn⟩ := q
  dsimp only at horder hq
  rcases horder with hlt | ⟨rfl, hcolumn⟩
  · -- the positions that both are read as have the lines that are asked for
    have hp : pline < (lines text).length := Nat.lt_trans hlt hq
    obtain ⟨_, _, _, hptext, hpline⟩ := exists_lineBetween_of_lt hp
    obtain ⟨_, _, _, hqtext, hqline⟩ := exists_lineBetween_of_lt hq
    have hpread := hpline.positionOf_offsetOf pcolumn
    have hqread := hqline.positionOf_offsetOf qcolumn
    rw [← hptext] at hpread
    rw [← hqtext] at hqread
    apply Nat.le_of_lt
    apply (positionOf_before_iff (isBoundary_offsetOf _ _) (isBoundary_offsetOf _ _)).mp
    rw [hpread, hqread]
    exact .inl hlt
  · obtain ⟨before, line, after, rfl, hline⟩ := exists_lineBetween_of_lt hq
    rw [hline.offsetOf, hline.offsetOf, byteLength_append, byteLength_append]
    apply Nat.add_le_add_left
    exact Checked.byteLength_le_of_isPrefix (takeUnits_mono hcolumn line)

/-- The table of line starts converts between the boundaries of a text and its canonical positions,
both ways without a fault and keeping the order. What is no boundary is read as the greatest one at
or below it, what is no canonical position as a boundary, and positions of lines that exist keep
their order. -/
theorem positions_isomorphic (h : byteLength text < Checked.countLimit) :
    (∀ offset, Checked.positionOf text offset = .ok (positionOf text offset)) ∧
    (∀ p, Checked.offsetOf text p = .ok (offsetOf text p)) ∧
    (∃ e : (fun o o' : Boundary text => o.1 < o'.1) ≃r
        (fun p q : CanonicalPosition text => p.1.before q.1),
      (∀ o, (e o).1 = positionOf text o.1) ∧ ∀ p, (e.symm p).1 = offsetOf text p.1) ∧
    (∀ p : Position, p.Canonical text ↔ ∃ before after,
      (lines text)[p.line]? = some (before ++ after) ∧ p.column = unitLength before) ∧
    (∀ offset, ∃ o, IsGreatest { b | Checked.isBoundary text b = true ∧ b ≤ offset } o ∧
      positionOf text offset = positionOf text o) ∧
    (∀ p, Checked.isBoundary text (offsetOf text p) = true ∧
      offsetOf text (positionOf text (offsetOf text p)) = offsetOf text p) ∧
    (∀ p q : Position, q.line < (lines text).length → ¬ q.before p →
      offsetOf text p ≤ offsetOf text q) := by
  refine ⟨Checked.positionOf_ok h, Checked.offsetOf_ok h, ?iso, ?canonical, ?floor, ?clamp, ?mono⟩
  case iso => exact ⟨boundaryIso text, fun o => rfl, fun p => rfl⟩
  case canonical => exact fun p => Position.canonical_iff
  case floor =>
    intro offset
    exact ⟨_, floorBoundary_isGreatest text offset, (positionOf_floorBoundary text offset).symm⟩
  case clamp =>
    intro p
    have hboundary := isBoundary_offsetOf text p
    exact ⟨hboundary, (offsetOf_positionOf text _).trans (floorBoundary_of_isBoundary hboundary)⟩
  case mono => exact fun p q hq horder => offsetOf_mono hq horder

/-- An offset inside a character of two units behind an empty line, and a column inside the pair. -/
theorem positions_isomorphic_astral :
    let text := "\n😀\r\n".toList
    byteLength text < Checked.countLimit ∧ Checked.positionOf text 3 = .ok ⟨1, 0⟩ ∧
      Checked.offsetOf text ⟨1, 1⟩ = .ok 5 ∧ positionOf text 5 = ⟨1, 2⟩ ∧
      1 < (lines text).length ∧ ¬ Position.before ⟨1, 9⟩ ⟨0, 7⟩ ∧
      offsetOf text ⟨0, 7⟩ ≤ offsetOf text ⟨1, 9⟩ := by
  intro text
  have hlength : byteLength text < Checked.countLimit := by decide
  have hline : 1 < (lines text).length := by decide
  have horder : ¬ Position.before ⟨1, 9⟩ ⟨0, 7⟩ := by
    unfold Position.before
    decide
  obtain ⟨hposition, hoffset, -, -, -, -, hmono⟩ := positions_isomorphic hlength
  exact ⟨hlength, hposition 3, hoffset ⟨1, 1⟩, by decide, hline, horder,
    hmono ⟨0, 7⟩ ⟨1, 9⟩ hline horder⟩

-- past the last line the column counts in the last line, where it may be smaller
example : offsetOf "ab".toList ⟨1, 0⟩ < offsetOf "ab".toList ⟨0, 1⟩ := by decide

end Text

end UtsInsight
