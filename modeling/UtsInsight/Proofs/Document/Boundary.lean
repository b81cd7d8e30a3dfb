import Mathlib.Data.List.Basic
import UtsInsight.Document
import UtsInsight.Proofs.Text.Boundary

/-!
# Edits at reported positions

A position that is reported for a character boundary comes back in edits, and the two directions
divide a text into lines differently: a reported line ends at a line feed, an editor line at any
terminator. Up to the first terminator of another kind both count alike, so an edit at a reported
position changes the text exactly at the boundary.

One boundary is out of reach even then. The two characters of a pair belong to the terminator, which
no column addresses, and an edit between them goes before the pair.
-/
namespace UtsInsight.Document

open Text

/-! ### Lines of an editor -/

theorem editorLines_ne_nil (cs : List Char) : editorLines cs ≠ [] := by
  fun_cases editorLines cs with
  | case1 => exact List.cons_ne_nil _ _
  | case2 => exact List.cons_ne_nil _ _
  | case3 => exact List.cons_ne_nil _ _
  | case4 => exact List.cons_ne_nil _ _
  | case5 => exact List.cons_ne_nil _ _

theorem editorLines_pair (cs : List Char) :
    editorLines ('\r' :: '\n' :: cs) = ['\r', '\n'] :: editorLines cs := by
  rw [editorLines]

/-- A terminator that begins no pair ends a line alone. -/
theorem editorLines_terminator {c : Char} (hc : isLineEnd c = true) {cs : List Char}
    (hpair : ¬ (c = '\r' ∧ cs.head? = some '\n')) :
    editorLines (c :: cs) = [c] :: editorLines cs := by
  have hother : ∀ rest, c = '\r' → cs = '\n' :: rest → False := by
    rintro rest hreturn rfl
    exact hpair ⟨hreturn, rfl⟩
  rw [editorLines.eq_3 _ _ hother, if_pos hc]

/-- A character that ends no line belongs to the first line of what follows. -/
theorem editorLines_cons {c : Char} (hc : isLineEnd c = false) (cs : List Char) :
    ∃ l ls, editorLines cs = l :: ls ∧ editorLines (c :: cs) = (c :: l) :: ls := by
  have hreturn : c ≠ '\r' := by
    rintro rfl
    exact absurd hc (by decide)
  obtain ⟨l, ls, hcs⟩ := List.exists_cons_of_ne_nil (editorLines_ne_nil cs)
  refine ⟨l, ls, hcs, ?_⟩
  rw [editorLines.eq_3 _ _ fun _ h _ => hreturn h, if_neg (Bool.eq_false_iff.mp hc), hcs]

/-- The line behind a line feed is a further line. -/
theorem editorLines_of_mem {cs : List Char} (h : '\n' ∈ cs) :
    ∃ l m ls, editorLines cs = l :: m :: ls := by
  induction cs with
  | nil => cases h
  | cons c cs ih =>
    by_cases hpair : c = '\r' ∧ cs.head? = some '\n'
    · obtain ⟨rfl, hhead⟩ := hpair
      obtain ⟨rest, rfl⟩ := List.head?_eq_some_iff.mp hhead
      obtain ⟨m, ls, hrest⟩ := List.exists_cons_of_ne_nil (editorLines_ne_nil rest)
      exact ⟨_, m, ls, by rw [editorLines_pair, hrest]⟩
    cases hc : isLineEnd c with
    | true =>
      obtain ⟨m, ls, hcs⟩ := List.exists_cons_of_ne_nil (editorLines_ne_nil cs)
      exact ⟨_, m, ls, by rw [editorLines_terminator hc hpair, hcs]⟩
    | false =>
      have hfeed : '\n' ≠ c := by
        rintro rfl
        exact absurd hc (by decide)
      obtain ⟨l, m, ls, hcs⟩ := ih ((List.mem_cons.mp h).resolve_left hfeed)
      obtain ⟨l', ls', hcs', hcons⟩ := editorLines_cons hc cs
      rw [hcs] at hcs'
      obtain ⟨rfl, rfl⟩ := List.cons.inj hcs'
      exact ⟨c :: l, m, ls, hcons⟩

/-! ### Indices, one character at a time -/

theorem indexInLines_first (l : List Char) (ls : List (List Char)) (column : Nat) :
    indexInLines (l :: ls) 0 column = indexInLine l column := by
  cases ls <;> rfl

theorem indexOf_start (text : List Char) : indexOf text ⟨0, 0⟩ = 0 := by
  obtain ⟨l, ls, htext⟩ := List.exists_cons_of_ne_nil (editorLines_ne_nil text)
  rw [indexOf, htext, indexInLines_first, indexInLine, takeUnits_zero, List.length_nil]

theorem indexOf_newline (cs : List Char) (line column : Nat) :
    indexOf ('\n' :: cs) ⟨line + 1, column⟩ = indexOf cs ⟨line, column⟩ + 1 := by
  obtain ⟨l, ls, hcs⟩ := List.exists_cons_of_ne_nil (editorLines_ne_nil cs)
  rw [indexOf, indexOf, editorLines_terminator (by decide) fun h => absurd h.1 (by decide), hcs,
    indexInLines, List.length_singleton, Nat.add_comm]

theorem dropReturn_cons {c : Char} (hc : c ≠ '\r') (l : List Char) :
    dropReturn (c :: l) = c :: dropReturn l := by
  cases l with
  | nil => simp only [dropReturn, List.getLast?_singleton, Option.some.injEq, if_neg hc,
      List.getLast?_nil, reduceCtorEq, if_false]
  | cons d l =>
    unfold dropReturn
    rw [List.getLast?_cons_cons, List.dropLast_cons_cons]
    split_ifs <;> rfl

theorem addressable_cons {c : Char} (hc : isLineEnd c = false) (l : List Char) :
    addressable (c :: l) = c :: addressable l := by
  have hfeed : c ≠ '\n' := by
    rintro rfl
    exact absurd hc (by decide)
  have hreturn : c ≠ '\r' := by
    rintro rfl
    exact absurd hc (by decide)
  cases l with
  | nil => simp only [addressable, List.getLast?_singleton, Option.some.injEq, if_neg hfeed,
      List.getLast?_nil, reduceCtorEq, if_false]
  | cons d l =>
    unfold addressable
    rw [List.getLast?_cons_cons, List.dropLast_cons_cons, dropReturn_cons hreturn]
    split_ifs <;> rfl

/-- A character of the first line takes its units off the column. -/
theorem indexOf_cons_column {c : Char} (hc : isLineEnd c = false) (cs : List Char) (column : Nat) :
    indexOf (c :: cs) ⟨0, unitSize c + column⟩ = indexOf cs ⟨0, column⟩ + 1 := by
  obtain ⟨l, ls, hcs, hcons⟩ := editorLines_cons hc cs
  rw [indexOf, indexOf, hcs, hcons, indexInLines_first, indexInLines_first, indexInLine,
    indexInLine, addressable_cons hc, takeUnits_cons, List.length_cons]

/-- A character of a line before the one asked for counts, and no more. -/
theorem indexOf_cons_line {c : Char} {cs : List Char}
    (hc : isLineEnd c = true → c = '\r' ∧ cs.head? = some '\n') (hcs : '\n' ∈ cs)
    (line column : Nat) :
    indexOf (c :: cs) ⟨line + 1, column⟩ = indexOf cs ⟨line + 1, column⟩ + 1 := by
  cases hend : isLineEnd c with
  | true =>
    obtain ⟨rfl, hhead⟩ := hc hend
    obtain ⟨rest, rfl⟩ := List.head?_eq_some_iff.mp hhead
    obtain ⟨l, ls, hrest⟩ := List.exists_cons_of_ne_nil (editorLines_ne_nil rest)
    rw [indexOf_newline, indexOf, indexOf, editorLines_pair, hrest, indexInLines]
    exact Nat.add_comm 2 _
  | false =>
    obtain ⟨l, m, ls, hlines⟩ := editorLines_of_mem hcs
    obtain ⟨l', ls', hlines', hcons⟩ := editorLines_cons hend cs
    rw [hlines] at hlines'
    obtain ⟨rfl, rfl⟩ := List.cons.inj hlines'
    rw [indexOf, indexOf, hcons, hlines, indexInLines, indexInLines, List.length_cons]
    omega

/-! ### Edits at boundaries -/

/-- Before its last character, every line of the text ends with a line feed, alone or in a pair. -/
def PlainLines : List Char → Prop
  | c :: d :: cs =>
    (isLineEnd c = true → c = '\n' ∨ c = '\r' ∧ d = '\n') ∧ PlainLines (d :: cs)
  | _ => True

instance decidablePlainLines : ∀ a : List Char, Decidable (PlainLines a)
  | [] => isTrue trivial
  | [_] => isTrue trivial
  | c :: d :: cs =>
    have : Decidable (PlainLines (d :: cs)) := decidablePlainLines (d :: cs)
    inferInstanceAs (Decidable ((isLineEnd c = true → c = '\n' ∨ c = '\r' ∧ d = '\n') ∧ _))

/-- The boundary between the two texts lies inside a pair that ends a line. -/
def InsidePair (a b : List Char) : Prop :=
  a.getLast? = some '\r' ∧ b.head? = some '\n'

instance (a b : List Char) : Decidable (InsidePair a b) :=
  inferInstanceAs (Decidable (_ ∧ _))

theorem insidePair_singleton {c : Char} {b : List Char} :
    InsidePair [c] b ↔ c = '\r' ∧ b.head? = some '\n' := by
  rw [InsidePair, List.getLast?_singleton, Option.some.injEq]

theorem insidePair_cons_cons {c d : Char} {cs b : List Char} :
    InsidePair (c :: d :: cs) b ↔ InsidePair (d :: cs) b := by
  rw [InsidePair, List.getLast?_cons_cons, InsidePair]

/-- Behind one character even a terminator of another kind does no harm, because its line is the
first one for both counts. -/
theorem indexOf_positionAfter_singleton (c : Char) (b : List Char) :
    indexOf (c :: b) (positionAfter [c]) = if InsidePair [c] b then 0 else 1 := by
  by_cases hfeed : c = '\n'
  · subst hfeed
    have hpair : ¬ InsidePair ['\n'] b := fun h => absurd (insidePair_singleton.mp h).1 (by decide)
    rw [if_neg hpair, positionAfter_newline, indexOf_newline]
    exact congrArg (· + 1) (indexOf_start b)
  have hmem : '\n' ∉ [c] := fun h => hfeed (List.mem_singleton.mp h).symm
  have hafter : positionAfter [c] = ⟨0, unitSize c + 0⟩ := positionAfter_of_notMem hmem
  rw [hafter]
  cases hend : isLineEnd c with
  | false =>
    have hpair : ¬ InsidePair [c] b := by
      intro h
      rw [(insidePair_singleton.mp h).1] at hend
      exact absurd hend (by decide)
    rw [if_neg hpair, indexOf_cons_column hend, indexOf_start]
  | true =>
    by_cases hpair : InsidePair [c] b
    · obtain ⟨rfl, hhead⟩ := insidePair_singleton.mp hpair
      obtain ⟨rest, rfl⟩ := List.head?_eq_some_iff.mp hhead
      rw [if_pos hpair, indexOf, editorLines_pair, indexInLines_first]
      rfl
    · have hline : addressable [c] = [c] := by
        rw [addressable, List.getLast?_singleton, if_neg (mt Option.some.inj hfeed)]
      rw [if_neg hpair, indexOf, editorLines_terminator hend (mt insidePair_singleton.mpr hpair),
        indexInLines_first, indexInLine, hline, takeUnits_cons, takeUnits_zero]
      rfl

/-- The index of a reported position is that of its boundary, or of the pair around it. -/
theorem indexOf_positionAfter (b : List Char) : ∀ {a : List Char}, PlainLines a →
    indexOf (a ++ b) (positionAfter a) = if InsidePair a b then a.length - 1 else a.length
  | [], _ => indexOf_start b
  | [c], _ => indexOf_positionAfter_singleton c b
  | c :: d :: cs, ⟨hc, hcs⟩ => by
    have ih := indexOf_positionAfter b hcs
    -- the boundary moves by one character, and stays inside its pair or outside
    suffices hstep : indexOf (c :: (d :: cs ++ b)) (positionAfter (c :: d :: cs)) =
        indexOf (d :: cs ++ b) (positionAfter (d :: cs)) + 1 by
      rw [List.cons_append, hstep, ih]
      simp only [insidePair_cons_cons]
      split_ifs <;> rfl
    by_cases hfeed : c = '\n'
    · rw [hfeed, positionAfter_newline, indexOf_newline]
    by_cases hmem : '\n' ∈ d :: cs
    · have hpair : isLineEnd c = true → c = '\r' ∧ (d :: cs ++ b).head? = some '\n' := by
        intro hend
        obtain ⟨hreturn, rfl⟩ := (hc hend).resolve_left hfeed
        exact ⟨hreturn, rfl⟩
      obtain ⟨line, hline⟩ := Nat.exists_eq_add_one.mpr (positionAfter_line_pos hmem)
      rw [positionAfter_cons_of_mem hfeed hmem]
      generalize positionAfter (d :: cs) = p at hline
      obtain ⟨_, column⟩ := p
      subst hline
      exact indexOf_cons_line hpair (List.mem_append_left b hmem) line column
    · have hend : isLineEnd c = false := by
        rw [Bool.eq_false_iff]
        intro hend
        obtain ⟨-, rfl⟩ := (hc hend).resolve_left hfeed
        exact hmem List.mem_cons_self
      rw [positionAfter_of_notMem hmem, positionAfter_cons_of_notMem hfeed hmem]
      exact indexOf_cons_column hend _ _

/-- An edit of an empty range inserts its text at the index of the range. -/
theorem apply_empty_range (a b inserted : List Char) {p : Position}
    (h : indexOf (a ++ b) p = a.length) :
    Edit.apply (a ++ b) ⟨some ⟨p, p⟩, inserted⟩ = a ++ inserted ++ b := by
  simp only [Edit.apply, h, Nat.max_self, splice, List.take_left', List.drop_left']

theorem dropLast_append_of_insidePair {a b : List Char} (h : InsidePair a b) :
    a.dropLast ++ ['\r'] = a :=
  List.dropLast_append_getLast? _ h.1

/-- An edit at the position that is reported for a boundary inserts its text at the boundary. Inside
a pair it goes before the pair, whose characters no column addresses. -/
theorem update_at_boundary {a : List Char} (hlines : PlainLines a) (b inserted : List Char)
    {current version : Int} (hversion : current < version) :
    let p := positionOf (a ++ b) (byteLength a)
    let edited := update ⟨a ++ b, current⟩ [⟨some ⟨p, p⟩, inserted⟩] version
    (¬ InsidePair a b →
      indexOf (a ++ b) p = a.length ∧ edited = .ok ⟨a ++ inserted ++ b, version⟩) ∧
    (InsidePair a b →
      indexOf (a ++ b) p = a.length - 1 ∧
        edited = .ok ⟨a.dropLast ++ inserted ++ '\r' :: b, version⟩) := by
  intro p edited
  have hindex : indexOf (a ++ b) p = if InsidePair a b then a.length - 1 else a.length := by
    rw [← indexOf_positionAfter b hlines, ← positionOf_byteLength a b]
  have hedited : edited = .ok ⟨Edit.apply (a ++ b) ⟨some ⟨p, p⟩, inserted⟩, version⟩ :=
    if_neg (Int.not_le.mpr hversion)
  constructor
  · intro hpair
    rw [if_neg hpair] at hindex
    exact ⟨hindex, by rw [hedited, apply_empty_range a b inserted hindex]⟩
  · intro hpair
    rw [if_pos hpair] at hindex
    have hsplit : a ++ b = a.dropLast ++ '\r' :: b := by
      rw [List.append_cons, dropLast_append_of_insidePair hpair]
    have hindex' : indexOf (a.dropLast ++ '\r' :: b) p = a.dropLast.length := by
      rw [← hsplit, hindex, List.length_dropLast]
    refine ⟨hindex, ?_⟩
    rw [hedited, hsplit, apply_empty_range _ _ inserted hindex']

/-- A boundary behind a character of two units, on a line behind a pair. -/
theorem update_at_boundary_astral :
    let a := "x\r\n\"😀".toList
    PlainLines a ∧ (0 : Int) < 1 ∧ ¬ InsidePair a ['"'] ∧
      positionOf (a ++ ['"']) (byteLength a) = ⟨1, 3⟩ ∧
      update ⟨a ++ ['"'], 0⟩ [⟨some ⟨⟨1, 3⟩, ⟨1, 3⟩⟩, ['!']⟩] 1 =
        .ok ⟨"x\r\n\"😀!\"".toList, 1⟩ := by
  intro a
  have hlines : PlainLines a := by decide
  have hposition : positionOf (a ++ ['"']) (byteLength a) = ⟨1, 3⟩ := by decide
  have hpair : ¬ InsidePair a ['"'] := by decide
  have h := ((update_at_boundary hlines ['"'] ['!'] (show (0 : Int) < 1 by decide)).1 hpair).2
  rw [hposition] at h
  exact ⟨hlines, by decide, hpair, hposition, h⟩

/-- An edit inside a pair, and an edit behind a terminator that ends no reported line, both go
before the boundary that was reported. -/
theorem update_beside_boundary :
    positionOf "a\r\nb".toList (byteLength "a\r".toList) = ⟨0, 2⟩ ∧
      indexOf "a\r\nb".toList ⟨0, 2⟩ ≠ "a\r".toList.length ∧
      update ⟨"a\r\nb".toList, 0⟩ [⟨some ⟨⟨0, 2⟩, ⟨0, 2⟩⟩, ['!']⟩] 1 =
        .ok ⟨"a!\r\nb".toList, 1⟩ ∧
    positionOf "a\x0bb".toList (byteLength "a\x0bb".toList) = ⟨0, 3⟩ ∧
      indexOf "a\x0bb".toList ⟨0, 3⟩ ≠ "a\x0bb".toList.length ∧
      update ⟨"a\x0bb".toList, 0⟩ [⟨some ⟨⟨0, 3⟩, ⟨0, 3⟩⟩, ['!']⟩] 1 =
        .ok ⟨"a\x0b!b".toList, 1⟩ :=
  ⟨by decide, by decide, rfl, by decide, by decide, rfl⟩

end UtsInsight.Document
