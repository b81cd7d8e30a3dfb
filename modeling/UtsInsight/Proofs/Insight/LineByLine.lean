import UtsInsight.Proofs.Insight.Definitions

/-!
# Passes that look at one line at a time

The outline and the notes of a document are collected line by line, and what is found on a line
depends on its number only in that the number is written down. So two documents with a line feed
between them have the entries and notes of the first and then those of the second, moved down by the
lines of the first. The look-up of a declaration passes over lines that do not contain the name, and
finds what a look through the whole outline finds.
-/
namespace UtsInsight

/-! ### Moving down -/

def Position.movedDown (n : Nat) (p : Position) : Position :=
  { p with line := p.line + n }

def Span.movedDown (n : Nat) (s : Span) : Span :=
  ⟨s.start.movedDown n, s.stop.movedDown n⟩

def Outline.Entry.movedDown (n : Nat) (e : Outline.Entry) : Outline.Entry :=
  { e with range := e.range.movedDown n, selection := e.selection.movedDown n }

def Diagnostic.movedDown (n : Nat) (d : Diagnostic) : Diagnostic :=
  { d with range := d.range.movedDown n }

/-! ### Lines of two documents -/

namespace Text

theorem lines_append (a b : List Char) : lines (a ++ '\n' :: b) = lines a ++ lines b := by
  induction a with
  | nil => exact lines_newline b
  | cons c a ih =>
    by_cases hc : c = '\n'
    · rw [hc, List.cons_append, lines_newline, lines_newline, ih, List.cons_append]
    · obtain ⟨l, ls, hlines⟩ := exists_lines a
      rw [hlines, List.cons_append] at ih
      rw [List.cons_append, lines_cons hc ih, lines_cons hc hlines, List.cons_append]

theorem contentLines_append (a b : List Char) :
    contentLines (a ++ '\n' :: b) = contentLines a ++ contentLines b := by
  rw [contentLines, lines_append, List.map_append]
  rfl

theorem length_lines (a : List Char) : (lines a).length = a.count '\n' + 1 := by
  induction a with
  | nil => rfl
  | cons c a ih =>
    by_cases hc : c = '\n'
    · rw [hc, lines_newline, List.length_cons, ih, List.count_cons_self]
    · obtain ⟨l, ls, hlines⟩ := exists_lines a
      rw [lines_cons hc hlines, List.count_cons_of_ne hc, ← ih, hlines]
      rfl

theorem length_contentLines (a : List Char) : (contentLines a).length = a.count '\n' + 1 := by
  rw [contentLines, List.length_map, length_lines]

end Text

/-! ### Collecting line by line -/

section

variable {α : Type} {find : Nat → List Char → List α} {down : Nat → α → α}

/-- What is collected from lines whose numbers are all raised is moved down. -/
theorem flatMap_zipIdx_add
    (hfind : ∀ n k line, find (n + k) line = (find n line).map (down k)) (n k : Nat)
    (ls : List (List Char)) :
    ((ls.zipIdx (n + k)).flatMap fun l => find l.2 l.1) =
      ((ls.zipIdx n).flatMap fun l => find l.2 l.1).map (down k) := by
  induction ls generalizing n with
  | nil => rfl
  | cons l ls ih =>
    rw [List.zipIdx_cons, List.zipIdx_cons, List.flatMap_cons, List.flatMap_cons, List.map_append,
      ← ih, hfind, Nat.add_right_comm]

theorem flatMap_zipIdx_contentLines
    (hfind : ∀ n k line, find (n + k) line = (find n line).map (down k)) (a b : List Char) :
    ((Text.contentLines (a ++ '\n' :: b)).zipIdx.flatMap fun l => find l.2 l.1) =
      ((Text.contentLines a).zipIdx.flatMap fun l => find l.2 l.1) ++
        ((Text.contentLines b).zipIdx.flatMap fun l => find l.2 l.1).map
          (down (a.count '\n' + 1)) := by
  rw [Text.contentLines_append, List.zipIdx_append, List.flatMap_append,
    Text.length_contentLines, flatMap_zipIdx_add hfind]

end

/-! ### The outline -/

namespace Outline

theorem Rule.entry?_movedDown (rule : Rule) (n k : Nat) (line : List Char) :
    rule.entry? (n + k) line = (rule.entry? n line).map (Entry.movedDown k) := by
  rw [Rule.entry?, Rule.entry?, Option.map_map]
  rfl

theorem scanLine_movedDown (n k : Nat) (line : List Char) :
    scanLine (n + k) line = (scanLine n line).map (Entry.movedDown k) := by
  unfold scanLine
  split_ifs
  · rfl
  · simp only [Rule.entry?_movedDown, List.map_filterMap]

theorem scan_append (a b : List Char) :
    scan (a ++ '\n' :: b) =
      scan a ++ (scan b).map (Entry.movedDown (a.count '\n' + 1)) := by
  simp only [scan, scanLines_eq]
  exact flatMap_zipIdx_contentLines scanLine_movedDown a b

end Outline

/-! ### Notes -/

namespace Insight

theorem advisoryLine_movedDown (n k : Nat) (line : List Char) :
    advisoryLine (n + k) line = (advisoryLine n line).map (Diagnostic.movedDown k) := by
  have hnote : ∀ (m : Mention) (label : String),
      m.note (n + k) label = (m.note n label).movedDown k := by
    intro m label
    rw [Mention.note, Mention.note, Diagnostic.movedDown, Span.movedDown]
    rfl
  unfold advisoryLine
  simp only [List.map_append, List.map_flatMap, List.map_map, List.map_filterMap, Option.map_map,
    Function.comp_def, hnote]

theorem advisoryDiagnostics_append (a b : List Char) :
    advisoryDiagnostics (a ++ '\n' :: b) =
      advisoryDiagnostics a ++
        (advisoryDiagnostics b).map (Diagnostic.movedDown (a.count '\n' + 1)) := by
  simp only [advisoryDiagnostics, advisoryLines_eq]
  exact flatMap_zipIdx_contentLines advisoryLine_movedDown a b

end Insight

/-- The outline and the notes of a document are those of its parts, each moved down to where the
part begins, and the look-up of a name finds the first entry of the outline with the name and one of
the kinds. -/
theorem linewise_append (a b : List Char) :
    Outline.scan (a ++ '\n' :: b) =
      Outline.scan a ++ (Outline.scan b).map (·.movedDown (a.count '\n' + 1)) ∧
    Insight.advisoryDiagnostics (a ++ '\n' :: b) =
      Insight.advisoryDiagnostics a ++
        (Insight.advisoryDiagnostics b).map (·.movedDown (a.count '\n' + 1)) ∧
    ∀ name kinds, Outline.find? a name kinds =
      (Outline.scan a).find? fun e => e.name = name ∧ e.kind ∈ kinds := by
  refine ⟨Outline.scan_append a b, Insight.advisoryDiagnostics_append a b, fun name kinds => ?_⟩
  rw [Outline.find?_eq]
  congr 1
  funext e
  rw [Bool.eq_iff_iff, Bool.and_eq_true, beq_iff_eq, List.contains_iff_mem, decide_eq_true_iff]

end UtsInsight
