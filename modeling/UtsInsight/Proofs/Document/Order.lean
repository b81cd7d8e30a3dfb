import Mathlib.Data.List.Infix
import UtsInsight.Proofs.Document.Boundary

/-!
# The order of edited positions

The two ends of a range are clamped one by one, each to the last line first and then to a column of
its line. Positions whose lines exist keep their order in this way, so an edit removes exactly what
lies between the ends of its range.

A line past the end is read as the last line, but its column is kept. An end that lies past the last
line is therefore a column of the last line and need not be the end of the document, and it can come
before a start that has a larger column there. An edit with such a range removes nothing.
-/
namespace UtsInsight.Document

open Text

/-! ### Columns -/

theorem addressable_isPrefix (line : List Char) : addressable line <+: line := by
  unfold addressable
  split_ifs
  · unfold dropReturn
    split_ifs
    · exact (List.dropLast_prefix _).trans (List.dropLast_prefix line)
    · exact List.dropLast_prefix line
  · exact List.prefix_refl line

theorem indexInLine_mono {m n : Nat} (h : m ≤ n) (line : List Char) :
    indexInLine line m ≤ indexInLine line n :=
  (takeUnits_mono h _).length_le

theorem indexInLine_le (line : List Char) (column : Nat) :
    indexInLine line column ≤ line.length :=
  ((takeUnits_isPrefix column _).trans (addressable_isPrefix line)).length_le

/-! ### Lines -/

theorem editorLines_flatten (cs : List Char) : (editorLines cs).flatten = cs := by
  fun_induction editorLines cs with
  | case1 => rfl
  | case2 cs ih => rw [List.flatten_cons, ih]; rfl
  | case3 c cs _ _ ih => rw [List.flatten_cons, ih]; rfl
  | case4 c cs _ _ hlines ih => rw [← ih, hlines]; rfl
  | case5 c cs _ _ l ls hlines ih => rw [← ih, hlines]; rfl

/-- The number of the last line. -/
def lastLine (text : List Char) : Nat :=
  (editorLines text).length - 1

/-- A line that exists counts behind all lines before it. -/
theorem indexInLines_of_lt {ls : List (List Char)} {n : Nat} (h : n < ls.length) (column : Nat) :
    indexInLines ls n column = (ls.take n).flatten.length + indexInLine ls[n] column := by
  induction ls generalizing n with
  | nil => cases h
  | cons l ls ih =>
    cases n with
    | zero =>
      rw [indexInLines_first, List.take_zero, List.flatten_nil, List.length_nil, Nat.zero_add,
        List.getElem_cons_zero]
    | succ n =>
      have hn : n < ls.length := Nat.lt_of_succ_lt_succ h
      obtain ⟨m, ls, rfl⟩ := List.exists_cons_of_length_pos (Nat.zero_lt_of_lt hn)
      rw [indexInLines, ih hn, List.take_succ_cons, List.flatten_cons, List.length_append,
        List.getElem_cons_succ, Nat.add_assoc]

/-- A line past the end is read as the last one. -/
theorem indexInLines_clamp (ls : List (List Char)) (n column : Nat) :
    indexInLines ls n column = indexInLines ls (min n (ls.length - 1)) column := by
  induction ls generalizing n with
  | nil => rfl
  | cons l ls ih =>
    cases ls with
    | nil => rfl
    | cons m ls =>
      cases n with
      | zero => rw [Nat.zero_min]
      | succ n =>
        have hmin : min (n + 1) ((l :: m :: ls).length - 1) =
            min n ((m :: ls).length - 1) + 1 := by
          simp only [List.length_cons]
          omega
        rw [hmin, indexInLines, indexInLines, ih]

theorem indexOf_clamp (text : List Char) (p : Position) :
    indexOf text p = indexOf text ⟨min p.line (lastLine text), p.column⟩ :=
  indexInLines_clamp _ _ _

theorem lastLine_lt (text : List Char) : lastLine text < (editorLines text).length :=
  Nat.sub_one_lt (mt List.length_eq_zero_iff.mp (editorLines_ne_nil text))

theorem indexOf_of_le {text : List Char} {p : Position} (h : p.line ≤ lastLine text) :
    ∃ hline : p.line < (editorLines text).length,
      indexOf text p = ((editorLines text).take p.line).flatten.length +
        indexInLine (editorLines text)[p.line] p.column :=
  have hline := Nat.lt_of_le_of_lt h (lastLine_lt text)
  ⟨hline, indexInLines_of_lt hline p.column⟩

/-- The index is within the line, of which the terminator is out of reach. -/
theorem indexOf_le_take {text : List Char} {p : Position} (h : p.line ≤ lastLine text) :
    indexOf text p ≤ ((editorLines text).take (p.line + 1)).flatten.length := by
  obtain ⟨hline, hindex⟩ := indexOf_of_le h
  rw [hindex, List.take_succ_eq_append_getElem hline, List.flatten_append, List.length_append,
    List.flatten_singleton]
  exact Nat.add_le_add_left (indexInLine_le _ _) _

theorem indexOf_le_length (text : List Char) (p : Position) : indexOf text p ≤ text.length := by
  rw [indexOf_clamp]
  calc
    _ ≤ _ := indexOf_le_take (Nat.min_le_right p.line (lastLine text))
    _ ≤ (editorLines text).flatten.length :=
      (List.IsPrefix.flatten (List.take_prefix _ _)).length_le
    _ = _ := by rw [editorLines_flatten]

/-! ### Order -/

/-- Existing lines in order, and columns of one line in order. -/
theorem indexOf_mono_of_le {text : List Char} {p q : Position} (hq : q.line ≤ lastLine text)
    (h : ¬ q.before p) : indexOf text p ≤ indexOf text q := by
  have horder := Position.not_before_iff.mp h
  obtain ⟨pline, pcolumn⟩ := p
  obtain ⟨qline, qcolumn⟩ := q
  obtain ⟨hqline, hqindex⟩ := indexOf_of_le hq
  rw [hqindex]
  dsimp only at hq hqline horder ⊢
  rcases horder with hline | ⟨rfl, hcolumn⟩
  · -- the whole line of the first position stands before the line of the second
    calc
      _ ≤ ((editorLines text).take (pline + 1)).flatten.length :=
        indexOf_le_take (Nat.le_trans (Nat.le_of_lt hline) hq)
      _ ≤ ((editorLines text).take qline).flatten.length :=
        (List.IsPrefix.flatten (List.take_prefix_take_left hline)).length_le
      _ ≤ _ := Nat.le_add_right _ _
  · obtain ⟨_, hpindex⟩ := indexOf_of_le (p := ⟨pline, pcolumn⟩) hq
    rw [hpindex]
    exact Nat.add_le_add_left (indexInLine_mono hcolumn _) _

/-- Both ends of the range are read in the last line, where their columns are out of order. -/
structure Crossed (text : List Char) (range : Span) : Prop where
  start : lastLine text ≤ range.start.line
  stop : lastLine text < range.stop.line
  columns : range.stop.column < range.start.column

theorem indexOf_mono {text : List Char} {range : Span} (h : ¬ range.stop.before range.start)
    (hcrossed : ¬ Crossed text range) :
    indexOf text range.start ≤ indexOf text range.stop := by
  rw [indexOf_clamp text range.start, indexOf_clamp text range.stop]
  refine indexOf_mono_of_le (Nat.min_le_right _ _) fun hbefore => ?_
  unfold Position.before at h hbefore
  dsimp only at hbefore
  by_cases hstart : lastLine text ≤ range.start.line
  · by_cases hstop : lastLine text < range.stop.line
    · exact hcrossed ⟨hstart, hstop, by omega⟩
    · omega
  · omega

theorem Crossed.indexOf_le {text : List Char} {range : Span} (h : Crossed text range) :
    indexOf text range.stop ≤ indexOf text range.start := by
  rw [indexOf_clamp text range.start, indexOf_clamp text range.stop]
  refine indexOf_mono_of_le (Nat.min_le_right _ _) fun hbefore => ?_
  have hstart := h.start
  have hstop := h.stop
  have hcolumns := h.columns
  unfold Position.before at hbefore
  dsimp only at hbefore
  omega

/-! ### The end of a document -/

/-- What no terminator ends. -/
def unendedLine (text : List Char) : List Char :=
  (editorLines text).getLast (editorLines_ne_nil text)

theorem isLineEnd_of_mem_unendedLine {text : List Char} {c : Char} (h : c ∈ unendedLine text) :
    isLineEnd c = false := by
  have hlines : ∀ l, (editorLines text).getLast? = some l → c ∈ l → isLineEnd c = false := by
    clear h
    fun_induction editorLines text with
    | case1 =>
      rintro l hl hc
      obtain rfl := Option.some.inj hl
      cases hc
    | case2 cs ih =>
      rwa [List.getLast?_cons_of_ne_nil (editorLines_ne_nil cs)]
    | case3 d cs _ _ ih =>
      rwa [List.getLast?_cons_of_ne_nil (editorLines_ne_nil cs)]
    | case4 d cs _ _ hnil ih => exact absurd hnil (editorLines_ne_nil cs)
    | case5 d cs _ hd l ls hcons ih =>
      rw [hcons] at ih
      cases ls with
      | nil =>
        rintro l' hl' hc
        obtain rfl := Option.some.inj hl'
        rcases List.mem_cons.mp hc with rfl | hc
        · exact Bool.eq_false_iff.mpr hd
        · exact ih l rfl hc
      | cons m ls =>
        rw [List.getLast?_cons_cons] at ih ⊢
        exact ih
  exact hlines _ (List.getLast?_eq_some_getLast (editorLines_ne_nil text)) h

theorem addressable_unendedLine (text : List Char) :
    addressable (unendedLine text) = unendedLine text := by
  refine if_neg fun hlast => ?_
  have hend := isLineEnd_of_mem_unendedLine (List.mem_of_getLast? hlast)
  exact absurd hend (by decide)

/-- A position past the last line reaches the end if its column reaches that of the last line. -/
theorem indexOf_eq_length {text : List Char} {p : Position} (h : lastLine text < p.line) :
    indexOf text p = text.length ↔ dropUnits p.column (unendedLine text) = [] := by
  have hlt := lastLine_lt text
  have hlast : (editorLines text)[lastLine text] = unendedLine text :=
    (List.getLast_eq_getElem (editorLines_ne_nil text)).symm
  have htext : text.length =
      ((editorLines text).take (lastLine text)).flatten.length + (unendedLine text).length := by
    conv_lhs => rw [← editorLines_flatten text, ← List.take_length (l := editorLines text)]
    rw [← Nat.sub_add_cancel (Nat.zero_lt_of_lt hlt), ← lastLine]
    rw [List.take_succ_eq_append_getElem hlt, hlast, List.flatten_append,
      List.length_append, List.flatten_singleton]
  rw [indexOf_clamp, Nat.min_eq_right (Nat.le_of_lt h), indexOf,
    indexInLines_of_lt hlt, hlast, indexInLine, addressable_unendedLine, htext,
    Nat.add_left_cancel_iff]
  have hparts := congrArg List.length (takeUnits_append_dropUnits p.column (unendedLine text))
  rw [List.length_append] at hparts
  dsimp only
  rw [← List.length_eq_zero_iff]
  omega

/-! ### Edits of ranges -/

/-- An edit replaces what stands between two boundaries of the text. -/
theorem apply_between {text : List Char} {range : Span} {start stop : Nat}
    (hstart : indexOf text range.start = start)
    (hstop : max start (indexOf text range.stop) = stop) (hlength : stop ≤ text.length)
    (inserted : List Char) :
    ∃ a removed b, text = a ++ removed ++ b ∧ a.length = start ∧ (a ++ removed).length = stop ∧
      Edit.apply text ⟨some range, inserted⟩ = a ++ inserted ++ b := by
  have hle : start ≤ stop := hstop ▸ Nat.le_max_left _ _
  have hsplit : text.take start ++ (text.take stop).drop start = text.take stop := by
    conv_rhs => rw [← List.take_append_drop start (text.take stop), List.take_take,
      Nat.min_eq_left hle]
  refine ⟨text.take start, (text.take stop).drop start, text.drop stop, ?_, ?_, ?_, ?_⟩
  · rw [hsplit, List.take_append_drop]
  · rw [List.length_take, Nat.min_eq_left (Nat.le_trans hle hlength)]
  · rw [hsplit, List.length_take, Nat.min_eq_left hlength]
  · simp only [Edit.apply, hstart, hstop, splice]

/-- A range of which the end is not before the start removes exactly what stands between both, as
each is read, unless it ends past the last line and starts at a larger column of it. -/
theorem update_ordered {document : Document} {version : Int} (hversion : document.version < version)
    (earlier later : List Edit) {range : Span} (hrange : ¬ range.stop.before range.start)
    (inserted : List Char) :
    let text := earlier.foldl Edit.apply document.text
    let start := indexOf text range.start
    let stop := indexOf text range.stop
    let updated := update document (earlier ++ ⟨some range, inserted⟩ :: later) version
    (¬ Crossed text range → start ≤ stop ∧ ∃ a removed b, text = a ++ removed ++ b ∧
      a.length = start ∧ (a ++ removed).length = stop ∧
      updated = .ok ⟨later.foldl Edit.apply (a ++ inserted ++ b), version⟩) ∧
    (Crossed text range → stop ≤ start ∧ ∃ a b, text = a ++ b ∧ a.length = start ∧
      updated = .ok ⟨later.foldl Edit.apply (a ++ inserted ++ b), version⟩) ∧
    (lastLine text < range.stop.line →
      stop = indexOf text ⟨lastLine text, range.stop.column⟩ ∧
      (stop = text.length ↔ dropUnits range.stop.column (unendedLine text) = [])) := by
  intro text start stop updated
  have hupdated : updated =
      .ok ⟨later.foldl Edit.apply (Edit.apply text ⟨some range, inserted⟩), version⟩ := by
    refine (if_neg (Int.not_le.mpr hversion)).trans ?_
    rw [List.foldl_append, List.foldl_cons]
  obtain ⟨a, removed, b, htext, ha, hremoved, happly⟩ :=
    @apply_between text range start _ rfl rfl
      (Nat.max_le.mpr ⟨indexOf_le_length _ _, indexOf_le_length _ _⟩) inserted
  rw [happly] at hupdated
  refine ⟨fun hcrossed => ?_, fun hcrossed => ?_, fun hpast => ?_⟩
  · have horder : start ≤ stop := indexOf_mono hrange hcrossed
    exact ⟨horder, a, removed, b, htext, ha, hremoved.trans (Nat.max_eq_right horder), hupdated⟩
  · have horder : stop ≤ start := hcrossed.indexOf_le
    rw [Nat.max_eq_left horder, List.length_append, ha] at hremoved
    -- nothing fits between an end and a start that is read behind it
    obtain rfl := List.eq_nil_of_length_eq_zero (Nat.add_eq_left.mp hremoved)
    rw [List.append_nil] at htext
    exact ⟨horder, a, b, htext, ha, hupdated⟩
  · refine ⟨?_, indexOf_eq_length hpast⟩
    exact (indexOf_clamp text range.stop).trans (by rw [Nat.min_eq_right (Nat.le_of_lt hpast)])

/-- A range from the first line to a column past all others removes the rest of the document. -/
theorem update_ordered_pastEnd :
    let text := "ab\ncd".toList
    let range : Span := ⟨⟨0, 1⟩, ⟨7, 9⟩⟩
    (0 : Int) < 1 ∧ ¬ range.stop.before range.start ∧ ¬ Crossed text range ∧
      lastLine text < range.stop.line ∧ indexOf text range.stop = text.length ∧
      update ⟨text, 0⟩ [⟨some range, ['!']⟩] 1 = .ok ⟨"a!".toList, 1⟩ := by
  intro text range
  have hrange : ¬ range.stop.before range.start := by
    unfold Position.before
    decide
  have hcrossed : ¬ Crossed text range := fun h => absurd h.start (by decide)
  have hpast : lastLine text < range.stop.line := by decide
  obtain ⟨hremoves, -, hend⟩ :=
    @update_ordered ⟨text, 0⟩ 1 (by decide) [] [] range hrange ['!']
  have hstop : indexOf text range.stop = text.length := (hend hpast).2.mpr (by decide)
  obtain ⟨-, a, removed, b, htext, ha, hremoved, hupdated⟩ := hremoves hcrossed
  obtain ⟨rfl, -⟩ : a = ['a'] ∧ removed ++ b = "b\ncd".toList := by
    refine List.append_inj ?_ (ha.trans (by decide))
    rw [← List.append_assoc]
    exact htext.symm
  obtain rfl : b = [] := by
    have hlength := congrArg List.length htext
    rw [List.length_append, hremoved] at hlength
    exact List.eq_nil_of_length_eq_zero (Nat.add_eq_left.mp (hlength.symm.trans hstop.symm))
  exact ⟨by decide, hrange, hcrossed, hpast, hstop, hupdated⟩

/-- A range up to the line behind the last one ends where the last line starts, before its own
start in that line, and removes nothing. -/
theorem update_crossed :
    let text := "ab\ncd".toList
    let range : Span := ⟨⟨1, 1⟩, ⟨2, 0⟩⟩
    ¬ range.stop.before range.start ∧
      ¬ indexOf text range.start ≤ indexOf text range.stop ∧
      indexOf text range.stop ≠ text.length ∧
      update ⟨text, 0⟩ [⟨some range, ['!']⟩] 1 = .ok ⟨"ab\nc!d".toList, 1⟩ := by
  refine ⟨?_, by decide, by decide, rfl⟩
  unfold Position.before
  decide

end UtsInsight.Document
