import UtsInsight.Insight.Navigation
import UtsInsight.Proofs.Outline.Declaring

/-!
# Where the definition of a name is found

The definition of a name is the first entry of the outline with that name and one of the kinds that
a definition leads to. The lines that do not contain the name are passed over without being read,
which hides no entry, because the name of an entry is cut out of its line. A line contributes one
variable at most, the leftmost. So a variable that is declared behind another one on its line is not
found there, and its name leads to an earlier declaration, to another kind of declaration on the
same line, or nowhere.
-/
namespace UtsInsight

open Text

namespace Outline

variable {text line : List Char} {n i : Nat} {name : String} {kinds : List SymbolKind} {e : Entry}

/-! ### Entries by line -/

theorem mem_scan_iff :
    e ∈ scan text ↔ ∃ line, (contentLines text)[e.line]? = some line ∧ e ∈ scanLine e.line line := by
  rw [scan, scanLines_eq, List.mem_flatMap]
  constructor
  · rintro ⟨⟨line, n⟩, hline, he⟩
    obtain ⟨rfl, -⟩ := exists_opens_of_mem_scanLine he
    exact ⟨line, List.mk_mem_zipIdx_iff_getElem?.mp hline, he⟩
  · rintro ⟨line, hline, he⟩
    exact ⟨(line, e.line), List.mk_mem_zipIdx_iff_getElem?.mpr hline, he⟩

theorem le_line_of_mem_scanLines {ls : List (List Char)} (h : e ∈ scanLines n ls) : n ≤ e.line := by
  induction ls generalizing n with
  | nil => cases h
  | cons line ls ih =>
    rcases List.mem_append.mp h with h | h
    · exact (exists_opens_of_mem_scanLine h).1.ge
    · exact Nat.le_of_succ_le (ih h)

theorem scanLines_pairwise (n : Nat) (ls : List (List Char)) :
    (scanLines n ls).Pairwise fun e e' => e.line ≤ e'.line := by
  induction ls generalizing n with
  | nil => exact List.Pairwise.nil
  | cons line ls ih =>
    refine List.pairwise_append.mpr ⟨?_, ih (n + 1), fun e he e' he' => ?_⟩
    · refine List.pairwise_of_forall_mem_list fun e he e' he' => ?_
      rw [(exists_opens_of_mem_scanLine he).1, (exists_opens_of_mem_scanLine he').1]
    · rw [(exists_opens_of_mem_scanLine he).1]
      exact Nat.le_of_succ_le (le_line_of_mem_scanLines he')

/-- A line contains the names of its entries. -/
theorem contains_of_mem_scanLine (h : e ∈ scanLine n line) : contains e.name.toList line = true := by
  obtain ⟨-, before, cs, keyword, gap, name, after, rfl, hopens, -, -, hname, -⟩ :=
    exists_opens_of_mem_scanLine h
  rw [contains_eq_true_iff, hname, hopens.text, String.toList_ofList]
  exact ⟨before ++ (keyword ++ gap), after, by simp⟩

/-! ### Look-up by name -/

theorem findInLines_eq (name : String) (kinds : List SymbolKind) (n : Nat) (ls : List (List Char)) :
    findInLines name kinds n ls =
      (scanLines n ls).find? fun e => e.name == name && kinds.contains e.kind := by
  induction ls generalizing n with
  | nil => rfl
  | cons line ls ih =>
    rw [findInLines, scanLines, List.find?_append, ih]
    split_ifs with hcontains
    · cases (scanLine n line).find? fun e => e.name == name && kinds.contains e.kind <;> rfl
    · have hnone : (scanLine n line).find? (fun e => e.name == name && kinds.contains e.kind) =
          none := by
        refine List.find?_eq_none.mpr fun e he hfound => hcontains ?_
        rw [Bool.and_eq_true, beq_iff_eq] at hfound
        exact hfound.1 ▸ contains_of_mem_scanLine he
      rw [hnone]
      rfl

/-- A look-up by name is a search of the whole outline. -/
theorem find?_eq (text : List Char) (name : String) (kinds : List SymbolKind) :
    find? text name kinds =
      (scan text).find? fun e => e.name == name && kinds.contains e.kind :=
  findInLines_eq name kinds 0 (contentLines text)

theorem exists_find?_le_iff :
    (∃ e, find? text name kinds = some e ∧ e.line ≤ i) ↔
      ∃ e ∈ scan text, e.line ≤ i ∧ e.name = name ∧ e.kind ∈ kinds := by
  have hnamed : ∀ e : Entry, (e.name == name && kinds.contains e.kind) = true ↔
      e.name = name ∧ e.kind ∈ kinds := by simp
  rw [find?_eq]
  constructor
  · intro ⟨e, hfound, hle⟩
    have hsome := List.find?_some hfound
    exact ⟨e, List.mem_of_find?_eq_some hfound, hle, (hnamed e).mp hsome⟩
  · intro ⟨e, he, hle, hname⟩
    cases hfound : (scan text).find? fun e => e.name == name && kinds.contains e.kind with
    | none => exact absurd ((hnamed e).mpr hname) (List.find?_eq_none.mp hfound e he)
    | some first =>
      refine ⟨first, rfl, Nat.le_trans ?_ hle⟩
      obtain ⟨-, earlier, later, hsplit, hearlier⟩ := List.find?_eq_some_iff_append.mp hfound
      have hordered : (earlier ++ first :: later).Pairwise fun e e' => e.line ≤ e'.line :=
        hsplit ▸ scanLines_pairwise 0 (contentLines text)
      rw [hsplit, List.mem_append, List.mem_cons] at he
      rcases he with he | rfl | he
      · have hnot := hearlier e he
        rw [(hnamed e).mpr hname] at hnot
        cases hnot
      · exact Nat.le_refl _
      · exact (List.pairwise_cons.mp (List.pairwise_append.mp hordered).2.1).1 e he

/-! ### Variables of a line -/

theorem entryOf_of_isVariable (h : e ∈ scanLine n line) (hkind : e.kind.isVariable = true) :
    ∃ before header, search variableHeader? line = some (before, header) ∧
      e = entryOf .variable n line before header := by
  unfold scanLine at h
  split_ifs at h
  · cases h
  · obtain ⟨rule, hrule, h⟩ := List.mem_filterMap.mp h
    obtain ⟨⟨before, header⟩, hsearch, rfl⟩ := Option.map_eq_some_iff.mp h
    simp only [rules, List.mem_cons, List.not_mem_nil, or_false] at hrule
    rcases hrule with rfl | rfl | rfl | rfl | rfl | rfl | rfl | rfl | rfl
    all_goals first | exact ⟨before, header, hsearch, rfl⟩ | cases hkind

theorem entryOf_mem_scanLine {before : List Char} {header : Header}
    (hcomment : isCommentLine line = false) (h : search variableHeader? line = some (before, header)) :
    entryOf .variable n line before header ∈ scanLine n line := by
  rw [scanLine, hcomment, if_neg Bool.false_ne_true]
  refine List.mem_filterMap.mpr ⟨⟨.variable, variableHeader?⟩, by simp [rules], ?_⟩
  rw [Rule.entry?, h]
  rfl

end Outline

/-! ### Definitions of variables -/

namespace Insight

open Outline

variable {text line word : List Char} {i : Nat} {bytes : ByteSpan} {keyword : String}

/-- A definition stands on the line of an entry of the outline. -/
theorem exists_definitionOf_le_iff {uri : Uri} {name : String} :
    (∃ location, definitionOf uri text name = some location ∧ location.range.start.line ≤ i) ↔
      ∃ e ∈ scan text, e.line ≤ i ∧ e.name = name ∧ e.kind ∈ definitionKinds := by
  rw [← exists_find?_le_iff, definitionOf]
  cases find? text name definitionKinds <;> simp

/-- A line that declares a word as a variable has a first variable. The definition of the word is
found up to this line if the word is that variable, that is, if no other variable is declared before
it on the line, and otherwise only if the outline lists the word on an earlier line or as something
else than a variable. -/
theorem definitionOf_declaring (uri : Uri) (hword : IsName word)
    (hline : (contentLines text)[i]? = some line) (hcomment : isCommentLine line = false)
    (hdeclaring : declaring? variableKeywords word line = some (bytes, keyword)) :
    ∃ first header, search variableHeader? line = some (first, header) ∧
      byteLength first ≤ bytes.start ∧ (header.name = word ↔ byteLength first = bytes.start) ∧
      ((∃ location, definitionOf uri text (String.ofList word) = some location ∧
          location.range.start.line ≤ i) ↔
        byteLength first = bytes.start ∨
          ∃ e ∈ scan text, e.line ≤ i ∧ e.name = String.ofList word ∧ e.kind ∈ definitionKinds ∧
            (e.line = i → e.kind.isVariable = false)) := by
  obtain ⟨first, header, hsearch, hle, hfirst⟩ := exists_variable_of_declaring? hword hdeclaring
  refine ⟨first, header, hsearch, hle, hfirst, ?_⟩
  rw [exists_definitionOf_le_iff, ← hfirst]
  constructor
  · intro ⟨e, he, hi, hname, hkind⟩
    by_cases hother : e.line = i → e.kind.isVariable = false
    · exact .inr ⟨e, he, hi, hname, hkind, hother⟩
    · -- the entry is the first variable of the line
      simp only [Classical.not_imp, Bool.not_eq_false] at hother
      obtain ⟨rfl, hvariable⟩ := hother
      obtain ⟨line', hline', he⟩ := mem_scan_iff.mp he
      obtain rfl : line = line' := Option.some.inj (hline.symm.trans hline')
      obtain ⟨before, header', hsearch', hentry⟩ := entryOf_of_isVariable he hvariable
      obtain ⟨-, rfl⟩ := Prod.mk.inj (Option.some.inj (hsearch.symm.trans hsearch'))
      have hheader : e.name = String.ofList header.name := congrArg Entry.name hentry
      exact .inl (String.ofList_injective (hheader.symm.trans hname))
  · rintro (rfl | ⟨e, he, hi, hname, hkind, -⟩)
    · let e := entryOf .variable i line first header
      have he : e ∈ scan text := mem_scan_iff.mpr ⟨line, hline, entryOf_mem_scanLine hcomment hsearch⟩
      have hkind : header.kindOf .variable ∈ definitionKinds := by
        unfold Header.kindOf
        split_ifs <;> decide
      exact ⟨e, he, Nat.le_refl i, rfl, hkind⟩
    · exact ⟨e, he, hi, hname, hkind⟩

/-- Of two variables on a line only the first has a definition. -/
theorem definitionOf_second_variable :
    isCommentLine "let a = 1; let b = 2;".toList = false ∧
      (∃ location, definitionOf "main.uts" "let a = 1; let b = 2;".toList "a" = some location ∧
        location.range.start.line ≤ 0) ∧
      declaring? variableKeywords ['b'] "let a = 1; let b = 2;".toList = some (⟨11, 17⟩, "let") ∧
      ¬ ∃ location, definitionOf "main.uts" "let a = 1; let b = 2;".toList "b" = some location ∧
        location.range.start.line ≤ 0 := by
  let line := "let a = 1; let b = 2;".toList
  have hline : (contentLines line)[0]? = some line := by decide
  have hcomment : isCommentLine line = false := by decide
  have hsearch : (search variableHeader? line).map (·.1) = some [] := by decide
  have ha : declaring? variableKeywords ['a'] line = some (⟨0, 6⟩, "let") := by decide
  have hb : declaring? variableKeywords ['b'] line = some (⟨11, 17⟩, "let") := by decide
  obtain ⟨first, header, hfirst, -, -, hfound⟩ :=
    definitionOf_declaring "main.uts" (by decide) hline hcomment ha
  obtain ⟨first', header', hfirst', -, -, hfound'⟩ :=
    definitionOf_declaring "main.uts" (by decide) hline hcomment hb
  rw [hfirst] at hsearch
  obtain rfl : first = [] := Option.some.inj hsearch
  obtain ⟨rfl, -⟩ := Prod.mk.inj (Option.some.inj (hfirst.symm.trans hfirst'))
  have hnone : ∀ e ∈ scan line, e.name ≠ "b" := by decide
  refine ⟨hcomment, hfound.mpr (.inl rfl), hb, fun h => ?_⟩
  rcases hfound'.mp h with hstart | ⟨e, he, -, hname, -⟩
  · exact absurd hstart (by decide)
  · exact hnone e he hname

end Insight

end UtsInsight
