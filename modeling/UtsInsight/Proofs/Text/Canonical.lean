import UtsInsight.Proofs.Text.Boundary

/-!
# Canonical positions

A position is canonical in a text if taking its byte offset and the position of that offset leads
back to it. Then its line exists and its column ends a beginning of the line. The position of a byte
offset is canonical, wherever in a character the offset falls, and so are both ends of a stretch of
a line.
-/
namespace UtsInsight

open Text

/-- A position that the conversion to a byte offset and back leaves as it is. Both numbers fit
wherever the length of the text does. -/
structure Position.Canonical (text : List Char) (p : Position) : Prop where
  roundTrip : positionOf text (offsetOf text p) = p
  inLine : ∃ before after, (lines text)[p.line]? = some (before ++ after) ∧
    p.column = unitLength before
  bounded : p.line + p.column ≤ byteLength text

/-- Two canonical positions, the second not before the first. -/
structure Span.Canonical (text : List Char) (s : Span) : Prop where
  start : s.start.Canonical text
  stop : s.stop.Canonical text
  ordered : ¬ s.stop.before s.start

/-- The columns of a stretch of line `n`. -/
def Span.Within (n : Nat) (line : List Char) (s : Span) : Prop :=
  ∃ before part after, line = before ++ part ++ after ∧
    s = ⟨⟨n, unitLength before⟩, ⟨n, unitLength before + unitLength part⟩⟩

namespace Text

/-! ### Lines -/

theorem lines_newline (cs : List Char) : lines ('\n' :: cs) = [] :: lines cs := by
  rw [lines, if_pos rfl]

theorem lines_cons {c : Char} {cs l : List Char} {ls : List (List Char)} (hc : c ≠ '\n')
    (h : lines cs = l :: ls) : lines (c :: cs) = (c :: l) :: ls := by
  rw [lines, if_neg hc, h]

theorem exists_lines (cs : List Char) : ∃ l ls, lines cs = l :: ls :=
  List.exists_cons_of_ne_nil (lines_ne_nil cs)

/-- A boundary stands in the line of its position, behind as many units as its column says. -/
theorem exists_line (a b : List Char) :
    ∃ before after, (lines (a ++ b))[(positionAfter a).line]? = some (before ++ after) ∧
      (positionAfter a).column = unitLength before := by
  induction a with
  | nil =>
    obtain ⟨l, ls, hlines⟩ := exists_lines b
    refine ⟨[], l, ?_, rfl⟩
    rw [List.nil_append, hlines]
    rfl
  | cons c a ih =>
    by_cases hc : c = '\n'
    · rw [hc, List.cons_append, lines_newline, positionAfter_newline]
      exact ih
    · obtain ⟨l, ls, hlines⟩ := exists_lines (a ++ b)
      rw [List.cons_append, lines_cons hc hlines]
      rw [hlines] at ih
      by_cases hmem : '\n' ∈ a
      · rw [positionAfter_cons_of_mem hc hmem]
        obtain ⟨k, hk⟩ := Nat.exists_eq_add_one.mpr (positionAfter_line_pos hmem)
        rw [hk] at ih ⊢
        exact ih
      · rw [positionAfter_of_notMem hmem] at ih
        rw [positionAfter_cons_of_notMem hc hmem]
        -- still in the first line, which the character extends
        obtain ⟨before, after, hline, hcolumn⟩ := ih
        refine ⟨c :: before, after, ?_, ?_⟩
        · exact congrArg (fun l => some (c :: l)) (Option.some.inj hline)
        · exact congrArg (unitSize c + ·) hcolumn

/-- Conversely every beginning of a line ends at a boundary of the text. -/
theorem exists_boundary {text before after : List Char} {n : Nat}
    (h : (lines text)[n]? = some (before ++ after)) :
    ∃ a b, text = a ++ b ∧ positionAfter a = ⟨n, unitLength before⟩ := by
  induction text generalizing n before with
  | nil =>
    obtain ⟨rfl, hline⟩ : n = 0 ∧ [] = before ++ after := by
      cases n with
      | zero => exact ⟨rfl, Option.some.inj h⟩
      | succ n => cases h
    obtain ⟨rfl, -⟩ := List.append_eq_nil_iff.mp hline.symm
    exact ⟨[], [], rfl, rfl⟩
  | cons c cs ih =>
    by_cases hc : c = '\n'
    · rw [hc, lines_newline] at h
      cases n with
      | zero =>
        obtain ⟨rfl, -⟩ := List.append_eq_nil_iff.mp (Option.some.inj h).symm
        exact ⟨[], c :: cs, rfl, rfl⟩
      | succ n =>
        obtain ⟨a, b, rfl, ha⟩ := ih h
        exact ⟨c :: a, b, rfl, by rw [hc, positionAfter_newline, ha]⟩
    · obtain ⟨l, ls, hlines⟩ := exists_lines cs
      rw [lines_cons hc hlines] at h
      rw [hlines] at ih
      cases n with
      | zero =>
        cases before with
        | nil => exact ⟨[], c :: cs, rfl, rfl⟩
        | cons d before =>
          obtain ⟨rfl, hline⟩ := List.cons.inj (Option.some.inj h)
          obtain ⟨a, b, rfl, ha⟩ := ih (n := 0) (congrArg some hline)
          -- the boundary is in line zero, so no line feed stands before it
          have hmem : '\n' ∉ a := fun hmem => by
            have hpos := positionAfter_line_pos hmem
            rw [ha] at hpos
            exact Nat.lt_irrefl 0 hpos
          rw [positionAfter_of_notMem hmem] at ha
          refine ⟨c :: a, b, rfl, ?_⟩
          rw [positionAfter_cons_of_notMem hc hmem, unitLength, (Position.mk.inj ha).2]
      | succ n =>
        obtain ⟨a, b, rfl, ha⟩ := ih (n := n + 1) h
        have hmem : '\n' ∈ a := Decidable.byContradiction fun hmem => by
          rw [positionAfter_of_notMem hmem] at ha
          cases (Position.mk.inj ha).1
        exact ⟨c :: a, b, rfl, by rw [positionAfter_cons_of_mem hc hmem, ha]⟩

/-! ### Offsets -/

theorem offsetInLines_zero (l : List Char) (ls : List (List Char)) (column : Nat) :
    offsetInLines (l :: ls) 0 column = byteOfColumn l column := by
  cases ls <;> rfl

theorem offsetInLines_succ (l : List Char) {ls : List (List Char)} (h : ls ≠ []) (n column : Nat) :
    offsetInLines (l :: ls) (n + 1) column = byteLength l + 1 + offsetInLines ls n column := by
  cases ls with
  | nil => exact absurd rfl h
  | cons m ls => rfl

theorem byteOfColumn_cons (c : Char) (line : List Char) (column : Nat) :
    byteOfColumn (c :: line) (unitSize c + column) = c.utf8Size + byteOfColumn line column := by
  rw [byteOfColumn, takeUnits_cons]
  rfl

/-- The byte offset of the position of a boundary is that of the boundary. -/
theorem offsetOf_positionAfter (a b : List Char) :
    offsetOf (a ++ b) (positionAfter a) = byteLength a := by
  induction a with
  | nil =>
    obtain ⟨l, ls, hlines⟩ := exists_lines b
    have hstart : positionAfter [] = ⟨0, 0⟩ := rfl
    rw [offsetOf, List.nil_append, hlines, hstart, offsetInLines_zero, byteOfColumn, takeUnits_zero]
  | cons c a ih =>
    rw [offsetOf] at ih ⊢
    rw [List.cons_append, byteLength, ← ih]
    by_cases hc : c = '\n'
    · rw [hc, lines_newline, positionAfter_newline, offsetInLines_succ [] (lines_ne_nil _)]
      rfl
    · obtain ⟨before, after, hline, _⟩ := exists_line a b
      obtain ⟨l, ls, hlines⟩ := exists_lines (a ++ b)
      rw [lines_cons hc hlines, hlines]
      by_cases hmem : '\n' ∈ a
      · rw [positionAfter_cons_of_mem hc hmem]
        obtain ⟨k, hk⟩ := Nat.exists_eq_add_one.mpr (positionAfter_line_pos hmem)
        have hls : ls ≠ [] := by
          rintro rfl
          rw [hlines, hk] at hline
          cases hline
        rw [hk, offsetInLines_succ _ hls, offsetInLines_succ _ hls, byteLength]
        omega
      · rw [positionAfter_of_notMem hmem, positionAfter_cons_of_notMem hc hmem, offsetInLines_zero,
          offsetInLines_zero, byteOfColumn_cons]

theorem unitSize_le_utf8Size (c : Char) : unitSize c ≤ c.utf8Size := by
  have hpos := c.utf8Size_pos
  unfold unitSize
  split_ifs with h
  · exact hpos
  · -- only characters of four bytes take two units
    have hval : ¬ c.val.toNat < 65536 := h
    unfold Char.utf8Size
    simp only [UInt32.le_iff_toNat_le, UInt32.toNat_ofNatLT]
    split_ifs <;> omega

theorem positionAfter_le (a : List Char) :
    (positionAfter a).line + (positionAfter a).column ≤ byteLength a := by
  induction a with
  | nil => exact Nat.le_refl 0
  | cons c a ih =>
    have hsize := unitSize_le_utf8Size c
    rw [byteLength]
    by_cases hc : c = '\n'
    · have hone : '\n'.utf8Size = 1 := rfl
      rw [hc, positionAfter_newline, hone]
      dsimp only
      omega
    · by_cases hmem : '\n' ∈ a
      · rw [positionAfter_cons_of_mem hc hmem]
        omega
      · rw [positionAfter_of_notMem hmem] at ih
        rw [positionAfter_cons_of_notMem hc hmem]
        dsimp only at ih ⊢
        omega

/-- Walking on leads to a later position. -/
theorem positionAfter_before (a : List Char) {b : List Char} (hb : b ≠ []) :
    (positionAfter a).before (positionAfter (a ++ b)) := by
  have hwalk : positionAfter (a ++ b) = b.foldl Position.advance (positionAfter a) :=
    List.foldl_append
  rw [hwalk, foldl_advance]
  unfold Position.before
  split_ifs with hmem
  · have hpos := positionAfter_line_pos hmem
    dsimp only
    omega
  · obtain ⟨c, b, rfl⟩ := List.exists_cons_of_ne_nil hb
    have hpos := unitSize_pos c
    dsimp only [unitLength]
    omega

/-- Walking on never leads back. -/
theorem not_before_positionAfter (a b : List Char) :
    ¬ (positionAfter (a ++ b)).before (positionAfter a) := by
  by_cases hb : b = []
  · rw [hb, List.append_nil]
    exact Position.before_irrefl _
  · exact Position.before_asymm (positionAfter_before a hb)

/-! ### Cuts at bytes -/

theorem bytePrefix_isPrefix (n : Nat) (cs : List Char) : bytePrefix n cs <+: cs := by
  induction cs generalizing n with
  | nil => exact List.prefix_refl []
  | cons c cs ih =>
    rw [bytePrefix]
    split_ifs
    · exact List.cons_prefix_cons.mpr ⟨rfl, ih _⟩
    · exact List.nil_prefix

theorem bytePrefix_mono {m n : Nat} (h : m ≤ n) (cs : List Char) :
    bytePrefix m cs <+: bytePrefix n cs := by
  induction cs generalizing m n with
  | nil => exact List.prefix_refl []
  | cons c cs ih =>
    rw [bytePrefix, bytePrefix]
    split_ifs with hm hn
    · exact List.cons_prefix_cons.mpr ⟨rfl, ih (Nat.sub_le_sub_right h _)⟩
    · exact absurd (Nat.le_trans hm h) hn
    · exact List.nil_prefix
    · exact List.nil_prefix

/-! ### Content of lines -/

/-- The content of a line begins the line. -/
theorem exists_line_of_contentLines {text line : List Char} {n : Nat}
    (h : (contentLines text)[n]? = some line) : ∃ rest, (lines text)[n]? = some (line ++ rest) := by
  rw [contentLines, List.getElem?_map] at h
  obtain ⟨l, hl, rfl⟩ := Option.map_eq_some_iff.mp h
  have hprefix : dropReturn l <+: l := by
    unfold dropReturn
    split_ifs
    · exact List.dropLast_prefix l
    · exact List.prefix_refl l
  obtain ⟨rest, hrest⟩ := hprefix
  exact ⟨rest, by rw [hl, hrest]⟩

end Text

/-! ### Positions and spans -/

theorem Position.canonical_positionAfter (a b : List Char) :
    (positionAfter a).Canonical (a ++ b) where
  roundTrip := by rw [offsetOf_positionAfter, positionOf_byteLength]
  inLine := exists_line a b
  bounded := by
    rw [byteLength_append]
    exact Nat.le_add_right_of_le (positionAfter_le a)

/-- The position of a byte offset is canonical, whatever the offset is. -/
theorem Position.canonical_positionOf (text : List Char) (offset : Nat) :
    (positionOf text offset).Canonical text := by
  obtain ⟨rest, hrest⟩ := bytePrefix_isPrefix offset text
  have h := Position.canonical_positionAfter (bytePrefix offset text) rest
  rwa [hrest] at h

theorem Position.canonical_of_line {text before after : List Char} {n : Nat}
    (h : (lines text)[n]? = some (before ++ after)) :
    Position.Canonical text ⟨n, unitLength before⟩ := by
  obtain ⟨a, b, rfl, ha⟩ := exists_boundary h
  exact ha ▸ Position.canonical_positionAfter a b

section

variable {text line : List Char} {n : Nat} {s : Span}

theorem Span.canonical_spanOf (text : List Char) {bytes : ByteSpan} (h : bytes.start ≤ bytes.stop) :
    Span.Canonical text (spanOf text bytes) := by
  refine ⟨Position.canonical_positionOf text _, Position.canonical_positionOf text _, ?_⟩
  obtain ⟨rest, hrest⟩ := bytePrefix_mono h text
  have hordered := not_before_positionAfter (bytePrefix bytes.start text) rest
  rwa [hrest] at hordered

/-- A stretch of the content of a line has a canonical span. -/
theorem Span.Within.canonical (h : s.Within n line) (hline : (contentLines text)[n]? = some line) :
    s.Canonical text := by
  obtain ⟨before, part, after, rfl, rfl⟩ := h
  obtain ⟨rest, hrest⟩ := exists_line_of_contentLines hline
  have hstart : (lines text)[n]? = some (before ++ (part ++ after ++ rest)) := by
    rw [hrest]
    simp only [List.append_assoc]
  have hstop : (lines text)[n]? = some (before ++ part ++ (after ++ rest)) := by
    rw [hrest]
    simp only [List.append_assoc]
  refine ⟨Position.canonical_of_line hstart, ?_, ?_⟩
  · rw [← unitLength_append]
    exact Position.canonical_of_line hstop
  · unfold Position.before
    dsimp only
    omega

end

end UtsInsight
