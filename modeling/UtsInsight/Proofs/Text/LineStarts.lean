import UtsInsight.Proofs.Text.Checked
import UtsInsight.Proofs.Text.Lines

/-!
# A table of line starts

Positions are converted with a table of the bytes at which the lines of a text start. The line of a
byte is looked up in the table, and the column is counted in the text from there on; the other way,
a line reaches up to one byte before the next entry. Both ways are the conversions that walk over
the text, and no step of them fails.
-/
namespace UtsInsight

open Text

theorem Text.LineBetween.positionAfter_end {n : Nat} {before line after : List Char}
    (h : LineBetween n before line after) :
    positionAfter (before ++ line) = ⟨n, unitLength line⟩ := by
  rw [← List.append_nil line] at h
  exact h.positionAfter_append

namespace Checked

/-! ### The table -/

/-- The bytes behind the line feeds of a text that begins at the given byte. -/
def lineStartsFrom : Nat → List Char → List Nat
  | _, [] => []
  | byte, c :: cs =>
    if c = '\n' then (byte + 1) :: lineStartsFrom (byte + 1) cs
    else lineStartsFrom (byte + c.utf8Size) cs

def lineStarts (text : List Char) : List Nat :=
  0 :: lineStartsFrom 0 text

/-- The line of a byte: that of the entry which is the byte, or else the one before the place at
which the byte would have to be inserted. -/
def lineOf (starts : List Nat) (byte : Nat) : Checked Nat :=
  match starts.findIdx? (· == byte) with
  | some line => .ok line
  | none => minus (starts.countP (· < byte)) 1

/-- The position of the last character boundary at or below a byte offset. -/
def positionOf (text : List Char) (offset : Nat) : Checked Position := do
  let byte := floorBoundary text (min offset (byteLength text))
  let line ← lineOf (lineStarts text) byte
  let start ← item (lineStarts text) line
  let rest ← cut text start (byteLength text)
  let distance ← minus byte start
  let column ← columnOfByte rest distance
  return ⟨line, column⟩

/-- The byte offset of a position, clamped to the lines of the text and to its line. -/
def offsetOf (text : List Char) (p : Position) : Checked Nat := do
  let last ← minus (lineStarts text).length 1
  let line := min p.line last
  let start ← item (lineStarts text) line
  let stop ←
    match (lineStarts text)[line + 1]? with
    | some next => minus next 1
    | none => .ok (byteLength text)
  let content ← cut text start stop
  let byte ← byteOfColumn content p.column
  return start + byte

/-! ### Entries of the table -/

/-- The bytes at which consecutive lines start. -/
def startsOf : Nat → List (List Char) → List Nat
  | _, [] => []
  | byte, l :: ls => byte :: startsOf (byte + byteLength l + 1) ls

theorem lineStartsFrom_eq {cs l : List Char} {ls : List (List Char)} {byte : Nat}
    (h : lines cs = l :: ls) : lineStartsFrom byte cs = startsOf (byte + byteLength l + 1) ls := by
  induction cs generalizing l ls byte with
  | nil =>
    obtain ⟨rfl, rfl⟩ := List.cons.inj h
    rfl
  | cons c cs ih =>
    obtain ⟨m, ms, hlines⟩ := exists_lines cs
    by_cases hc : c = '\n'
    · rw [hc, lines_newline, hlines] at h
      obtain ⟨rfl, rfl⟩ := List.cons.inj h
      rw [lineStartsFrom, if_pos hc, ih hlines]
      rfl
    · rw [lines_cons hc hlines] at h
      obtain ⟨rfl, rfl⟩ := List.cons.inj h
      rw [lineStartsFrom, if_neg hc, ih hlines, byteLength, Nat.add_assoc byte]

theorem lineStarts_eq (text : List Char) : lineStarts text = startsOf 0 (lines text) := by
  obtain ⟨l, ls, hlines⟩ := exists_lines text
  rw [lineStarts, lineStartsFrom_eq hlines, hlines]
  rfl

theorem length_startsOf (byte : Nat) (ls : List (List Char)) :
    (startsOf byte ls).length = ls.length := by
  induction ls generalizing byte with
  | nil => rfl
  | cons l ls ih => exact congrArg (· + 1) (ih _)

theorem le_of_mem_startsOf {byte start : Nat} {ls : List (List Char)}
    (h : start ∈ startsOf byte ls) : byte ≤ start := by
  induction ls generalizing byte with
  | nil => cases h
  | cons l ls ih =>
    rcases List.mem_cons.mp h with rfl | h
    · exact Nat.le_refl _
    · have hle := ih h
      omega

theorem startsOf_pairwise (byte : Nat) (ls : List (List Char)) :
    (startsOf byte ls).Pairwise (· < ·) := by
  induction ls generalizing byte with
  | nil => exact .nil
  | cons l ls ih =>
    refine .cons (fun start hstart => ?_) (ih _)
    have hle := le_of_mem_startsOf hstart
    omega

/-- The entry of a line: what is counted in the line is counted from there, and the next line starts
behind the line feed. -/
theorem startsOf_spec {ls : List (List Char)} {n : Nat} {l : List Char} (h : ls[n]? = some l)
    (byte : Nat) :
    ∃ start, (startsOf byte ls)[n]? = some start ∧
      ((startsOf byte ls)[n + 1]? =
        if n + 1 < ls.length then some (start + byteLength l + 1) else none) ∧
      ∀ column, byte + offsetInLines ls n column = start + Text.byteOfColumn l column := by
  induction ls generalizing n byte with
  | nil => cases h
  | cons m ls ih =>
    cases n with
    | zero =>
      obtain rfl := Option.some.inj h
      refine ⟨byte, rfl, ?_, fun column => by rw [offsetInLines_zero]⟩
      cases ls <;> rfl
    | succ n =>
      have hne : ls ≠ [] := by
        rintro rfl
        cases h
      obtain ⟨start, hstart, hnext, hoffset⟩ := ih h (byte + byteLength m + 1)
      refine ⟨start, hstart, ?_, fun column => ?_⟩
      · rw [List.length_cons, startsOf, List.getElem?_cons_succ, hnext]
        simp only [Nat.add_lt_add_iff_right]
      · rw [offsetInLines_succ m hne, ← hoffset, Nat.add_assoc, Nat.add_assoc, Nat.add_assoc]

theorem countP_cons_of_lt {first byte : Nat} (h : first < byte) (starts : List Nat) :
    (first :: starts).countP (· < byte) = starts.countP (· < byte) + 1 :=
  List.countP_cons_of_pos (decide_eq_true h)

/-- The look-up in an increasing table. -/
theorem lineOf_ok {starts : List Nat} {n start byte : Nat} (hsorted : starts.Pairwise (· < ·))
    (hstart : starts[n]? = some start) (hle : start ≤ byte)
    (hnext : ∀ next, starts[n + 1]? = some next → byte < next) : lineOf starts byte = .ok n := by
  induction starts generalizing n with
  | nil => cases hstart
  | cons first starts ih =>
    obtain ⟨hfirst, hsorted⟩ := List.pairwise_cons.mp hsorted
    cases n with
    | zero =>
      obtain rfl := Option.some.inj hstart
      have hlater : ∀ later ∈ starts, byte < later := by
        intro later hlater
        cases starts with
        | nil => cases hlater
        | cons next starts =>
          have hbyte := hnext next rfl
          rcases List.mem_cons.mp hlater with rfl | hlater
          · exact hbyte
          · exact Nat.lt_trans hbyte ((List.pairwise_cons.mp hsorted).1 later hlater)
      unfold lineOf
      rw [List.findIdx?_cons]
      by_cases heq : first = byte
      · rw [if_pos (beq_iff_eq.mpr heq)]
      · have hnone : starts.findIdx? (· == byte) = none := List.findIdx?_eq_none_iff.mpr
          fun later hmem => beq_eq_false_iff_ne.mpr (Nat.ne_of_gt (hlater later hmem))
        have hcount : starts.countP (· < byte) = 0 := List.countP_eq_zero.mpr
          fun later hmem hlt => Nat.lt_asymm (hlater later hmem) (of_decide_eq_true hlt)
        have hlt : first < byte := Nat.lt_of_le_of_ne hle heq
        rw [if_neg (mt eq_of_beq heq), hnone, countP_cons_of_lt hlt, hcount]
        rfl
    | succ n =>
      have hlt : first < byte :=
        Nat.lt_of_lt_of_le (hfirst start (List.mem_of_getElem? hstart)) hle
      have ih := ih hsorted hstart hnext
      unfold lineOf at ih ⊢
      rw [List.findIdx?_cons, if_neg (mt eq_of_beq (Nat.ne_of_lt hlt)), countP_cons_of_lt hlt]
      cases hfound : starts.findIdx? (· == byte) with
      | none =>
        rw [hfound] at ih
        exact minus_one_ok.mpr (congrArg (· + 1) (minus_one_ok.mp ih))
      | some i =>
        rw [hfound] at ih
        obtain rfl := Except.ok.inj ih
        rfl

/-! ### Conversions -/

variable {text : List Char}

/-- The entry of a line is where the line stands, and the next entry is one byte behind it. Bytes of
the line are counted from there. -/
theorem lineStarts_of_lineBetween {n : Nat} {before line after : List Char}
    (h : LineBetween n before line after) :
    (lineStarts (before ++ (line ++ after)))[n]? = some (byteLength before) ∧
      ((lineStarts (before ++ (line ++ after)))[n + 1]? =
        if after = [] then none else some (byteLength before + byteLength line + 1)) ∧
      ∀ column, offsetInLines (lines (before ++ (line ++ after))) n column =
        byteLength before + Text.byteOfColumn line column := by
  obtain ⟨start, hstart, hnext, hoffset⟩ := startsOf_spec h.getElem? 0
  have hbefore : start = byteLength before := by
    have hboundary := offsetOf_positionAfter before (line ++ after)
    rw [h.number] at hboundary
    have hzero := hoffset 0
    rw [Text.byteOfColumn, takeUnits_zero, Nat.zero_add] at hzero
    exact hzero.symm.trans hboundary
  subst hbefore
  rw [lineStarts_eq]
  refine ⟨hstart, hnext.trans ?_, fun column => (Nat.zero_add _).symm.trans (hoffset column)⟩
  cases after with
  | nil =>
    -- a further line would start behind the end of the text
    rw [if_pos rfl, if_neg fun hlt => ?_]
    obtain ⟨further, hfurther⟩ :
        ∃ further, (lines (before ++ (line ++ [])))[n + 1]? = some further :=
      ⟨_, List.getElem?_eq_getElem hlt⟩
    obtain ⟨before', after', htext, hline⟩ := exists_of_getElem?_lines hfurther
    have horder := not_before_positionAfter before' (further ++ after')
    rw [← htext, List.append_nil, h.positionAfter_end, hline.number] at horder
    exact horder (.inl (Nat.lt_succ_self n))
  | cons c after =>
    obtain rfl : c = '\n' := bne_eq_false_iff_eq.mp h.ends
    have hnumber : positionAfter (before ++ line ++ ['\n']) = ⟨n + 1, 0⟩ := by
      have hwalk : positionAfter (before ++ line ++ ['\n']) =
          (positionAfter (before ++ line)).advance '\n' := List.foldl_append
      rw [hwalk, h.positionAfter_end]
      rfl
    obtain ⟨_, _, hline, -⟩ := exists_line (before ++ line ++ ['\n']) after
    rw [hnumber, List.append_assoc, List.append_assoc, List.singleton_append] at hline
    have hlt : n + 1 < (lines (before ++ (line ++ '\n' :: after))).length :=
      (List.getElem?_eq_some_iff.mp hline).1
    rw [if_neg (List.cons_ne_nil _ _), if_pos hlt]

theorem positionOf_ok (h : byteLength text < countLimit) (offset : Nat) :
    positionOf text offset = .ok (Text.positionOf text offset) := by
  obtain ⟨b, hb⟩ := bytePrefix_isPrefix offset text
  obtain ⟨before, left, right, after, hleft, rfl, hline⟩ :=
    exists_lineBetween (bytePrefix offset text) b
  have hposition : Text.positionOf text offset = positionAfter (before ++ left) :=
    congrArg positionAfter hleft
  have htext : before ++ (left ++ right ++ after) = text := by
    rw [← hb, hleft]
    simp only [List.append_assoc]
  obtain ⟨hstart, hnext, -⟩ := lineStarts_of_lineBetween hline
  rw [htext] at hstart hnext
  have hlook : lineOf (lineStarts text) (byteLength (before ++ left)) =
      .ok (positionAfter (bytePrefix offset text)).line := by
    have hsorted : (lineStarts text).Pairwise (· < ·) := by
      rw [lineStarts_eq]
      exact startsOf_pairwise 0 _
    refine lineOf_ok hsorted hstart ?_ fun next heq => ?_
    · rw [byteLength_append]
      exact Nat.le_add_right _ _
    · rw [hnext] at heq
      split_ifs at heq
      rw [← Option.some.inj heq, byteLength_append, byteLength_append]
      omega
  have hcut : cut text (byteLength before) (byteLength text) = .ok (left ++ (right ++ after)) := by
    rw [← htext, List.append_assoc]
    exact cut_rest before _
  have hlength : byteLength (left ++ (right ++ after)) < countLimit := by
    rw [← htext, List.append_assoc, byteLength_append] at h
    omega
  rw [positionOf, floorBoundary_min, hleft]
  simp only [hlook, ok_bind, item_ok hstart, hcut]
  rw [byteLength_append, minus_ok, ok_bind,
    columnOfByte_of_isPrefix hlength (List.prefix_append left _), ok_bind, hposition,
    hline.positionAfter_append]
  rfl

/-- A line past the end is the last one. -/
theorem offsetInLines_min (ls : List (List Char)) (n column : Nat) :
    offsetInLines ls (min n (ls.length - 1)) column = offsetInLines ls n column := by
  induction ls generalizing n with
  | nil => rfl
  | cons l ls ih =>
    cases ls with
    | nil => cases n <;> rfl
    | cons m ls =>
      cases n with
      | zero => rw [Nat.zero_min]
      | succ n =>
        have hmin : min (n + 1) ((l :: m :: ls).length - 1) = min n ((m :: ls).length - 1) + 1 :=
          Nat.succ_min_succ n ls.length
        rw [hmin, offsetInLines, offsetInLines, ih]

theorem offsetOf_ok (h : byteLength text < countLimit) (p : Position) :
    offsetOf text p = .ok (Text.offsetOf text p) := by
  have hpos : 0 < (lines text).length := List.length_pos_iff.mpr (lines_ne_nil text)
  have hlength : (lineStarts text).length = (lines text).length - 1 + 1 := by
    rw [lineStarts_eq, length_startsOf]
    omega
  obtain ⟨line, hline⟩ : ∃ line, (lines text)[min p.line ((lines text).length - 1)]? = some line :=
    ⟨_, List.getElem?_eq_getElem (by omega)⟩
  have hoffset := offsetInLines_min (lines text) p.line p.column
  rw [offsetOf, minus_one_ok.mpr hlength, ok_bind]
  dsimp only
  generalize min p.line ((lines text).length - 1) = n at hline hoffset ⊢
  obtain ⟨before, after, rfl, hbetween⟩ := exists_of_getElem?_lines hline
  obtain ⟨hstart, hnext, hcolumn⟩ := lineStarts_of_lineBetween hbetween
  have hcut : cut (before ++ (line ++ after)) (byteLength before)
      (byteLength before + byteLength line) = .ok line :=
    cut_eq_ok_iff.mpr ⟨before, after, rfl, rfl, rfl⟩
  rw [byteLength_append, byteLength_append] at h
  have hbyte := @byteOfColumn_ok line (by omega) p.column
  rw [item_ok hstart, ok_bind, hnext, Text.offsetOf, ← hoffset, hcolumn]
  -- the line ends where the text does, or else one byte before the next entry
  split_ifs with hafter
  · have hend : byteLength (before ++ (line ++ after)) = byteLength before + byteLength line := by
      rw [hafter, List.append_nil, byteLength_append]
    dsimp only
    rw [ok_bind, hend, hcut, ok_bind, hbyte]
    rfl
  · dsimp only
    rw [minus_one_ok.mpr rfl, ok_bind, hcut, ok_bind, hbyte]
    rfl

end Checked

end UtsInsight
