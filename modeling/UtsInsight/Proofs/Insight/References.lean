import UtsInsight.Insight.Navigation
import UtsInsight.Proofs.Text.Runs

/-!
# References as an equivalence of occurrences

The references of a position are the maximal runs of the text that are the word under the cursor.
So the occurrence under the cursor is one of them, and a cursor anywhere on one of them, both ends
included, has the same references. They come in the order of the text, with something between them.
-/
namespace UtsInsight

open Text

namespace Insight

variable {uri : Uri} {text : List Char} {position : Position} {word : CursorWord}

/-- Where a run is reported. -/
theorem spanOf_run (a part b : List Char) :
    spanOf (a ++ (part ++ b)) ⟨byteLength a, byteLength a + byteLength part⟩ =
      ⟨positionAfter a, positionAfter (a ++ part)⟩ := by
  rw [spanOf, positionOf_byteLength, ← byteLength_append, ← List.append_assoc,
    positionOf_byteLength]

/-- The references to an identifier are the runs of the text that are the identifier. -/
theorem mem_referencesTo {part : List Char} {location : Location} (hne : part ≠ [])
    (hsolid : ∀ c ∈ part, isIdentifier c = true) :
    location ∈ referencesTo uri text (String.ofList part) ↔
      ∃ a b, text = a ++ (part ++ b) ∧ IsRun a part b ∧
        location = ⟨uri, ⟨positionAfter a, positionAfter (a ++ part)⟩⟩ := by
  rw [referencesTo, List.mem_map, String.toList_ofList]
  constructor
  · rintro ⟨bytes, hbytes, rfl⟩
    obtain ⟨a, b, rfl, hrun, rfl⟩ := (mem_occurrences hne hsolid).mp hbytes
    exact ⟨a, b, rfl, hrun, by rw [spanOf_run]⟩
  · rintro ⟨a, b, rfl, hrun, rfl⟩
    exact ⟨_, (mem_occurrences hne hsolid).mpr ⟨a, b, rfl, hrun, rfl⟩, by rw [spanOf_run]⟩

/-- References come in order, and the next one starts behind the end of the one before. -/
theorem referencesTo_pairwise {part : List Char} (hne : part ≠ [])
    (hsolid : ∀ c ∈ part, isIdentifier c = true) :
    (referencesTo uri text (String.ofList part)).Pairwise fun l m =>
      l.range.stop.before m.range.start := by
  rw [referencesTo, List.pairwise_map, String.toList_ofList]
  refine (occurrences_pairwise text part).imp_of_mem fun {s t} hs ht hlt => ?_
  obtain ⟨a, b, rfl, hrun, rfl⟩ := (mem_occurrences hne hsolid).mp hs
  obtain ⟨a', b', htext, hrun', rfl⟩ := (mem_occurrences hne hsolid).mp ht
  obtain ⟨between, hbetween, rfl⟩ := hrun.apart hrun' htext hlt
  rw [spanOf_run, htext, spanOf_run, ← List.append_assoc a part between]
  exact positionAfter_before (a ++ part) hbetween

/-- A cursor on a run of the text, both ends included, has the references to the run. -/
theorem referencesAt_run {a part b : List Char} (h : IsRun a part b) {column : Nat}
    (hstart : (positionAfter a).column ≤ column)
    (hstop : column ≤ (positionAfter (a ++ part)).column) :
    referencesAt uri (a ++ (part ++ b)) ⟨(positionAfter a).line, column⟩ =
      referencesTo uri (a ++ (part ++ b)) (String.ofList part) := by
  obtain ⟨left, right, hline, hrun, hcolumn, hposition⟩ := h.lineAt
  rw [hcolumn] at hstart
  rw [hposition] at hstop
  unfold referencesAt wordAtPosition
  rw [hline, hrun.wordAt hstart hstop]

/-- The references of a position with a word contain the occurrence there, and every position on one
of them has the same references. They are not empty, lie in one line each, and are in order with
something between them. -/
theorem referencesAt_equivalence (uri : Uri) (hword : wordAtPosition text position = some word) :
    let found := referencesAt uri text position
    ⟨uri, ⟨⟨position.line, word.start⟩, ⟨position.line, word.stop⟩⟩⟩ ∈ found ∧
    (∀ location ∈ found, location.range.start.before location.range.stop ∧
      location.range.start.line = location.range.stop.line ∧
      ∀ column, location.range.start.column ≤ column → column ≤ location.range.stop.column →
        referencesAt uri text ⟨location.range.start.line, column⟩ = found) ∧
    found.Pairwise fun l m => l.range.stop.before m.range.start := by
  intro found
  obtain ⟨before, part, after, hline, hpart, rfl⟩ := exists_run_of_wordAt hword
  obtain ⟨a, b, rfl, hrun, hposition⟩ := hpart.of_lineAt hline
  have hfound : found = referencesTo uri (a ++ (part ++ b)) (String.ofList part) := by
    unfold found referencesAt
    rw [hword]
  rw [hfound]
  refine ⟨?_, fun location hlocation => ?_, referencesTo_pairwise hrun.nonempty hrun.solid⟩
  · obtain ⟨_, _, _, _, hcolumn, hstop⟩ := hrun.lineAt
    refine (mem_referencesTo hrun.nonempty hrun.solid).mpr ⟨a, b, rfl, hrun, ?_⟩
    rw [hstop, hposition, ← hcolumn, hposition]
  · obtain ⟨a', b', htext, hrun', rfl⟩ := (mem_referencesTo hrun.nonempty hrun.solid).mp hlocation
    obtain ⟨_, _, _, _, _, hstop⟩ := hrun'.lineAt
    refine ⟨positionAfter_before a' hrun'.nonempty, (congrArg Position.line hstop).symm, ?_⟩
    intro column hfrom hto
    rw [htext]
    exact referencesAt_run hrun' hfrom hto

/-- A name with a character of two units, beside a longer name: a cursor inside the pair of units of
the second occurrence has the references that the first one has. -/
theorem referencesAt_equivalence_astral :
    let text := "aa𝒳 aaa𝒳\r\n(aa𝒳)".toList
    let found := referencesAt "u" text ⟨0, 1⟩
    wordAtPosition text ⟨0, 1⟩ = some ⟨"aa𝒳", 0, 4⟩ ∧
      found = [⟨"u", ⟨⟨0, 0⟩, ⟨0, 4⟩⟩⟩, ⟨"u", ⟨⟨1, 1⟩, ⟨1, 5⟩⟩⟩] ∧
      referencesAt "u" text ⟨1, 4⟩ = found := by
  intro text found
  have hword : wordAtPosition text ⟨0, 1⟩ = some ⟨"aa𝒳", 0, 4⟩ := by decide +kernel
  have hfound : found = [⟨"u", ⟨⟨0, 0⟩, ⟨0, 4⟩⟩⟩, ⟨"u", ⟨⟨1, 1⟩, ⟨1, 5⟩⟩⟩] := by decide +kernel
  obtain ⟨_, hlocations, _⟩ := referencesAt_equivalence "u" hword
  obtain ⟨_, _, hcolumns⟩ := hlocations ⟨"u", ⟨⟨1, 1⟩, ⟨1, 5⟩⟩⟩ (by
    rw [show referencesAt "u" text ⟨0, 1⟩ = _ from hfound]
    exact List.mem_cons_of_mem _ List.mem_cons_self)
  exact ⟨hword, hfound, hcolumns 4 (by decide) (by decide)⟩

end Insight

end UtsInsight
