import UtsInsight.Proofs.Text.CheckedWords
import UtsInsight.Proofs.Text.Runs

/-!
# Words are maximal runs

The occurrences of an identifier are all the maximal runs of the text that are the identifier, one
behind the other with something between them. The search takes matches without overlap before it
looks at their neighbours, and still loses none: two matches that overlap are in one run, and neither
of them is the whole of it.

The word under a cursor is the maximal run that touches the cursor, and there is none exactly if no
identifier character stands on either side. A column inside a pair of units is read as the end of the
pair, which is still in the run, so every column from the beginning of the word to its end selects it.
-/
namespace UtsInsight.Text

/-! ### Occurrences -/

section

variable {text word : List Char}

/-- Between one occurrence of an identifier and the next stands at least a character. -/
theorem occurrences_separated (hne : word ≠ []) (hsolid : ∀ c ∈ word, isIdentifier c = true) :
    (occurrences text word).Pairwise fun s t => s.stop < t.start := by
  refine (occurrences_pairwise text word).imp_of_mem fun {s t} hs ht hlt => ?_
  obtain ⟨a, b, rfl, hrun, rfl⟩ := (mem_occurrences hne hsolid).mp hs
  obtain ⟨a', b', htext, hrun', rfl⟩ := (mem_occurrences hne hsolid).mp ht
  obtain ⟨between, hbetween, rfl⟩ := hrun.apart hrun' htext hlt
  have hpos : 0 < byteLength between := Nat.pos_of_ne_zero (mt byteLength_eq_zero_iff.mp hbetween)
  simp only [byteLength_append]
  omega

/-- The occurrences of an identifier come in order and without touching each other, and they are the
maximal runs of identifier characters that are the identifier. -/
theorem occurrences_runs (hne : word ≠ []) (hsolid : ∀ c ∈ word, isIdentifier c = true) :
    Checked.occurrences text word = .ok (occurrences text word) ∧
    (occurrences text word).Pairwise (fun s t => s.stop < t.start) ∧
    ∀ bytes, bytes ∈ occurrences text word ↔ ∃ before after, text = before ++ (word ++ after) ∧
      IsRun before word after ∧ bytes = ⟨byteLength before, byteLength before + byteLength word⟩ :=
  ⟨Checked.occurrences_ok text word, occurrences_separated hne hsolid,
    fun _ => mem_occurrences hne hsolid⟩

/-- A word that overlaps itself: twice in a longer run, where both matches are refused, then as a run
of its own, then behind a numeral that goes on with it. -/
theorem occurrences_runs_overlapping :
    let text := "a𝒳a𝒳a a𝒳a+½a𝒳a".toList
    let word := "a𝒳a".toList
    word ≠ [] ∧ (∀ c ∈ word, isIdentifier c = true) ∧ ⟨12, 18⟩ ∈ occurrences text word := by
  intro text word
  have hne : word ≠ [] := by decide
  have hsolid : ∀ c ∈ word, isIdentifier c = true := List.all_eq_true.mp (by decide +kernel)
  have hrun : IsRun "a𝒳a𝒳a ".toList word "+½a𝒳a".toList :=
    ⟨hne, hsolid, by decide +kernel, by decide +kernel⟩
  obtain ⟨-, -, hruns⟩ := @occurrences_runs text word hne hsolid
  exact ⟨hne, hsolid, (hruns ⟨12, 18⟩).mpr ⟨_, _, rfl, hrun, by decide +kernel⟩⟩

end

/-! ### The word under a cursor -/

variable {line left right : List Char} {column : Nat} {word : CursorWord}

/-- The word is the maximal run of identifier characters that the cut between `left` and `right` of
the line touches. It stands between its columns, and each of these selects it. -/
structure CursorWord.Touches (word : CursorWord) (line left right : List Char) : Prop where
  run : ∃ before x y after, left = before ++ x ∧ right = y ++ after ∧ IsRun before (x ++ y) after ∧
    word = ⟨String.ofList (x ++ y), unitLength before, unitLength before + unitLength (x ++ y)⟩
  text : Checked.cut line (byteOfColumn line word.start) (byteOfColumn line word.stop) =
    .ok word.text.toList
  columns : ∀ column, word.start ≤ column → column ≤ word.stop → wordAt line column = some word

theorem byteOfColumn_append (a b : List Char) :
    byteOfColumn (a ++ b) (unitLength a) = byteLength a := by
  rw [byteOfColumn, takeUnits_unitLength]

/-- No word touches a column between characters that do not stand in one. -/
theorem wordAt_eq_none_iff :
    wordAt line column = none ↔
      continuesIdentifier (takeUnits column line).getLast? = false ∧
        continuesIdentifier (dropUnits column line).head? = false := by
  unfold wordAt continuesIdentifier
  dsimp only
  rw [← tailRun_eq_nil_iff, ← takeWhile_eq_nil_iff_head?, ← List.append_eq_nil_iff,
    ← List.isEmpty_iff]
  split_ifs with hword
  · exact iff_of_true rfl hword
  · exact iff_of_false (by simp) hword

theorem touches_of_wordAt (h : wordAt line column = some word) :
    word.Touches line (takeUnits column line) (dropUnits column line) := by
  obtain ⟨before, x, y, after, hleft, hright, hrun, rfl⟩ := exists_cut_of_wordAt h
  obtain rfl : before ++ ((x ++ y) ++ after) = line := by
    rw [← takeUnits_append_dropUnits column line, hleft, hright]
    simp only [List.append_assoc]
  constructor
  case run => exact ⟨before, x, y, after, hleft, hright, hrun, rfl⟩
  case text =>
    have hstart := byteOfColumn_append before ((x ++ y) ++ after)
    have hstop := byteOfColumn_append (before ++ (x ++ y)) after
    rw [unitLength_append, byteLength_append, List.append_assoc] at hstop
    rw [String.toList_ofList]
    exact Checked.cut_eq_ok_iff.mpr ⟨before, after, rfl, hstart, hstop⟩
  case columns => exact fun c hstart hstop => hrun.wordAt hstart hstop

/-- On a line whose columns fit 32 bits, the word at a column is the maximal run that touches the
column, and there is none exactly if no identifier character stands next to it. -/
theorem wordAt_touches (h : byteLength line < Checked.countLimit) (column : Nat) :
    Checked.wordAt line column = .ok (wordAt line column) ∧
    ∃ left right, line = left ++ right ∧ byteOfColumn line column = byteLength left ∧
      (wordAt line column = none ↔
        continuesIdentifier left.getLast? = false ∧ continuesIdentifier right.head? = false) ∧
      ∀ word, wordAt line column = some word → word.Touches line left right :=
  ⟨Checked.wordAt_ok h column, takeUnits column line, dropUnits column line,
    (takeUnits_append_dropUnits column line).symm, rfl, wordAt_eq_none_iff,
    fun _ => touches_of_wordAt⟩

/-- A column between the two units of the letter that ends a word, behind one more such letter. -/
theorem wordAt_touches_astral :
    let line := "😀 𝒳$𝒴.z".toList
    byteLength line < Checked.countLimit ∧ wordAt line 7 = some ⟨"𝒳$𝒴", 3, 8⟩ ∧
      Checked.cut line (byteOfColumn line 3) (byteOfColumn line 8) = .ok "𝒳$𝒴".toList ∧
      wordAt line 8 = some ⟨"𝒳$𝒴", 3, 8⟩ := by
  intro line
  have hlength : byteLength line < Checked.countLimit := by decide +kernel
  have hword : wordAt line 7 = some ⟨"𝒳$𝒴", 3, 8⟩ := by decide +kernel
  obtain ⟨-, left, right, -, -, -, htouches⟩ := wordAt_touches hlength 7
  obtain ⟨-, htext, hcolumns⟩ := htouches _ hword
  exact ⟨hlength, hword, htext, hcolumns 8 (by decide) (by decide)⟩

end UtsInsight.Text
