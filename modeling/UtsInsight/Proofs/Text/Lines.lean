import Mathlib.Data.List.TakeWhile
import UtsInsight.Proofs.Text.Canonical
import UtsInsight.Text.Word

/-!
# Lines in place

Every character boundary of a text lies in one line, which stands between what ends with a line feed
and what begins with one. The number of the line is that of the line feeds before it, so a line that
is asked for by its number is found in its place, and a boundary is found in the line of its
position.
-/
namespace UtsInsight.Text

/-! ### The longest end in a class -/

section

variable {α : Type} {p : α → Bool}

theorem takeWhile_eq_nil_iff_head? {cs : List α} :
    cs.takeWhile p = [] ↔ cs.head?.any p = false := by
  cases cs with
  | nil => exact iff_of_true rfl rfl
  | cons c cs => cases hc : p c <;> simp [hc]

theorem dropWhile_eq_self_of_head? {cs : List α} (h : cs.head?.any p = false) :
    cs.dropWhile p = cs := by
  cases cs with
  | nil => rfl
  | cons c cs => exact List.dropWhile_cons_of_neg (by simpa using h)

/-- A text in the class is the longest such beginning where nothing of the class follows. -/
theorem takeWhile_append_of_head? {part b : List α} (hpart : ∀ c ∈ part, p c = true)
    (hb : b.head?.any p = false) : (part ++ b).takeWhile p = part := by
  rw [List.takeWhile_append_of_pos hpart, takeWhile_eq_nil_iff_head?.mpr hb, List.append_nil]

theorem dropWhile_append_of_head? {part b : List α} (hpart : ∀ c ∈ part, p c = true)
    (hb : b.head?.any p = false) : (part ++ b).dropWhile p = b := by
  rw [List.dropWhile_append_of_pos hpart, dropWhile_eq_self_of_head? hb]

end

section

variable {p : Char → Bool}

theorem tailRun_append {a part : List Char} (hpart : ∀ c ∈ part, p c = true)
    (ha : a.getLast?.any p = false) : tailRun p (a ++ part) = part := by
  rw [tailRun, List.reverse_append, takeWhile_append_of_head?, List.reverse_reverse]
  · exact fun c hc => hpart c (List.mem_reverse.mp hc)
  · rwa [List.head?_reverse]

theorem beforeTailRun_append {a part : List Char} (hpart : ∀ c ∈ part, p c = true)
    (ha : a.getLast?.any p = false) : beforeTailRun p (a ++ part) = a := by
  rw [beforeTailRun, List.reverse_append, dropWhile_append_of_head?, List.reverse_reverse]
  · exact fun c hc => hpart c (List.mem_reverse.mp hc)
  · rwa [List.head?_reverse]

theorem of_mem_tailRun {cs : List Char} {c : Char} (h : c ∈ tailRun p cs) : p c = true :=
  List.mem_takeWhile_imp (List.mem_reverse.mp h)

theorem tailRun_eq_nil_iff {cs : List Char} :
    tailRun p cs = [] ↔ cs.getLast?.any p = false := by
  rw [tailRun, List.reverse_eq_nil_iff, takeWhile_eq_nil_iff_head?, List.head?_reverse]

theorem head?_dropWhile_any (p : Char → Bool) (cs : List Char) :
    (cs.dropWhile p).head?.any p = false := by
  have h := List.head?_dropWhile_not p cs
  cases hhead : (cs.dropWhile p).head? with
  | none => rfl
  | some c =>
    rw [hhead] at h
    exact h

theorem getLast?_beforeTailRun_any (p : Char → Bool) (cs : List Char) :
    (beforeTailRun p cs).getLast?.any p = false := by
  rw [beforeTailRun, List.getLast?_reverse]
  exact head?_dropWhile_any p cs.reverse

end

/-! ### Boundaries and their lines -/

/-- Whether a character belongs to a line. -/
def inLine (c : Char) : Bool :=
  c != '\n'

/-- Line `n` of a text, with what stands before and behind it. -/
structure LineBetween (n : Nat) (before line after : List Char) : Prop where
  number : positionAfter before = ⟨n, 0⟩
  starts : before.getLast?.any inLine = false
  whole : ∀ c ∈ line, inLine c = true
  ends : after.head?.any inLine = false

theorem getElem?_lines_zero {line after : List Char} (hwhole : ∀ c ∈ line, inLine c = true)
    (hends : after.head?.any inLine = false) : (lines (line ++ after))[0]? = some line := by
  induction line with
  | nil =>
    cases after with
    | nil => rfl
    | cons c after =>
      obtain rfl : c = '\n' := bne_eq_false_iff_eq.mp hends
      rw [List.nil_append, lines_newline]
      rfl
  | cons c line ih =>
    have hc : c ≠ '\n' := bne_iff_ne.mp (hwhole c List.mem_cons_self)
    obtain ⟨l, ls, hlines⟩ := exists_lines (line ++ after)
    have hline := ih fun d hd => hwhole d (List.mem_cons_of_mem c hd)
    rw [hlines] at hline
    rw [List.cons_append, lines_cons hc hlines, ← Option.some.inj hline]
    rfl

theorem getElem?_lines {before line after : List Char} (hstarts : before.getLast?.any inLine = false)
    (hwhole : ∀ c ∈ line, inLine c = true) (hends : after.head?.any inLine = false) :
    (lines (before ++ (line ++ after)))[(positionAfter before).line]? = some line := by
  induction before with
  | nil => exact getElem?_lines_zero hwhole hends
  | cons c before ih =>
    have hbefore : before.getLast?.any inLine = false := by
      cases before with
      | nil => rfl
      | cons d before => rwa [List.getLast?_cons_cons] at hstarts
    have ih := ih hbefore
    by_cases hc : c = '\n'
    · rw [hc, List.cons_append, lines_newline, positionAfter_newline]
      exact ih
    · -- the character is not the last one before the line, so a line feed follows it
      have hmem : '\n' ∈ before := by
        cases hlast : before.getLast? with
        | none =>
          obtain rfl := List.getLast?_eq_none_iff.mp hlast
          exact absurd (bne_eq_false_iff_eq.mp hstarts) hc
        | some d =>
          rw [hlast] at hbefore
          rw [← bne_eq_false_iff_eq.mp hbefore]
          exact List.mem_of_getLast? hlast
      obtain ⟨l, ls, hlines⟩ := exists_lines (before ++ (line ++ after))
      obtain ⟨k, hk⟩ := Nat.exists_eq_add_one.mpr (positionAfter_line_pos hmem)
      rw [hlines, hk] at ih
      rw [List.cons_append, lines_cons hc hlines, positionAfter_cons_of_mem hc hmem, hk]
      exact ih

/-- A line stands at its number. -/
theorem LineBetween.getElem? {n : Nat} {before line after : List Char}
    (h : LineBetween n before line after) :
    (lines (before ++ (line ++ after)))[n]? = some line := by
  have hline := getElem?_lines h.starts h.whole h.ends
  rwa [h.number] at hline

/-- The position behind what a line starts with. -/
theorem LineBetween.positionAfter_append {n : Nat} {before left right after : List Char}
    (h : LineBetween n before (left ++ right) after) :
    positionAfter (before ++ left) = ⟨n, unitLength left⟩ := by
  have hleft : '\n' ∉ left := fun hmem =>
    absurd (h.whole _ (List.mem_append_left right hmem)) (by decide)
  have hwalk : positionAfter (before ++ left) = left.foldl Position.advance (positionAfter before) :=
    List.foldl_append
  rw [hwalk, foldl_advance, if_neg hleft, h.number, Nat.zero_add]

/-- Nothing but a line feed starts a line. -/
theorem positionAfter_of_starts {before : List Char} (h : before.getLast?.any inLine = false) :
    (positionAfter before).column = 0 := by
  rcases List.eq_nil_or_concat before with rfl | ⟨cs, c, rfl⟩
  · rfl
  · rw [List.concat_eq_append, List.getLast?_concat] at h
    have hc : c = '\n' := bne_eq_false_iff_eq.mp h
    rw [List.concat_eq_append, positionAfter, List.foldl_append, List.foldl_cons, List.foldl_nil,
      Position.advance, if_pos hc]

/-- A boundary of a text lies in the line of its position. -/
theorem exists_lineBetween (a b : List Char) :
    ∃ before left right after, a = before ++ left ∧ b = right ++ after ∧
      LineBetween (positionAfter a).line before (left ++ right) after := by
  have hstarts := getLast?_beforeTailRun_any inLine a
  have hleft : '\n' ∉ tailRun inLine a := fun hmem => absurd (of_mem_tailRun hmem) (by decide)
  refine ⟨beforeTailRun inLine a, tailRun inLine a, b.takeWhile inLine, b.dropWhile inLine,
    (beforeTailRun_append_tailRun inLine a).symm, List.takeWhile_append_dropWhile.symm, ?_⟩
  refine ⟨?_, hstarts, fun c hc => ?_, head?_dropWhile_any inLine b⟩
  · have hwalk : positionAfter a =
        (tailRun inLine a).foldl Position.advance (positionAfter (beforeTailRun inLine a)) :=
      (congrArg positionAfter (beforeTailRun_append_tailRun inLine a).symm).trans List.foldl_append
    rw [hwalk, foldl_advance, if_neg hleft, ← positionAfter_of_starts hstarts]
  · rcases List.mem_append.mp hc with hc | hc
    · exact of_mem_tailRun hc
    · exact List.mem_takeWhile_imp hc

/-- A line that exists stands between what is before and behind it. -/
theorem exists_of_getElem?_lines {text line : List Char} {n : Nat}
    (h : (lines text)[n]? = some line) :
    ∃ before after, text = before ++ (line ++ after) ∧ LineBetween n before line after := by
  obtain ⟨a, b, rfl, ha⟩ := @exists_boundary text [] line n h
  obtain ⟨before, left, right, after, rfl, rfl, hbetween⟩ := exists_lineBetween a b
  rw [ha] at hbetween
  -- the boundary is at column zero, so nothing of its line stands before it
  have hcolumn := congrArg Position.column (hbetween.positionAfter_append.symm.trans ha)
  obtain rfl : left = [] := by
    cases left with
    | nil => rfl
    | cons c left =>
      have hpos := unitSize_pos c
      simp only [unitLength] at hcolumn
      omega
  have hline := hbetween.getElem?
  rw [List.nil_append] at hbetween hline
  rw [List.append_nil, hline] at h
  rw [← Option.some.inj h]
  exact ⟨before, after, by rw [List.append_nil], hbetween⟩

end UtsInsight.Text
