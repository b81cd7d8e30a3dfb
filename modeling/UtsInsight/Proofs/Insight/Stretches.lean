import Mathlib.Data.List.TakeWhile
import UtsInsight.Insight.Advisory
import UtsInsight.Proofs.Outline.Edges
import UtsInsight.Proofs.Text.Blanks
import UtsInsight.Proofs.Text.Runs

/-!
# Stretches of lines

Advisory notes, the outline and the word under the cursor are about stretches of a line. Each reader
goes through the line with what it has passed in hand, so what it finds is cut out of the line by
what stands before it. An entry of the outline is about its line without the blanks around it; there
is one only where a word begins or ends, so the line is not all blank.
-/
namespace UtsInsight

open Text

variable {line : List Char} {n : Nat}

/-- Where the longest beginning in a class is not the whole text, a character outside the class
follows it. -/
theorem Text.exists_of_takeWhile_ne {p : Char → Bool} {cs : List Char} (h : cs.takeWhile p ≠ cs) :
    ∃ c rest, p c = false ∧ cs = cs.takeWhile p ++ c :: rest := by
  induction cs with
  | nil => exact absurd rfl h
  | cons c cs ih =>
    rw [List.takeWhile_cons] at h ⊢
    cases hc : p c with
    | false => exact ⟨c, cs, hc, by simp⟩
    | true =>
      simp only [hc, if_true] at h ⊢
      obtain ⟨d, rest, hd, hsplit⟩ := ih fun heq => h (congrArg (c :: ·) heq)
      exact ⟨d, rest, hd, congrArg (c :: ·) hsplit⟩

theorem Text.trimEnd_isPrefix (cs : List Char) : trimEnd cs <+: cs := by
  have hprefix := List.reverse_prefix.mpr (List.dropWhile_suffix (l := cs.reverse) isBlank)
  rwa [List.reverse_reverse] at hprefix

/-! ### The word under the cursor -/

/-- A word under the cursor stands in a line of the text. -/
theorem within_of_wordAt {text : List Char} {column : Nat} {word : CursorWord}
    (h : wordAt (lineAt text n) column = some word) :
    ∃ line, (contentLines text)[n]? = some line ∧
      Span.Within n line ⟨⟨n, word.start⟩, ⟨n, word.stop⟩⟩ := by
  obtain ⟨before, part, after, hline, hrun, rfl⟩ := exists_run_of_wordAt h
  refine ⟨lineAt text n, ?_, before, part, after, by rw [hline, List.append_assoc], rfl⟩
  unfold lineAt at hline ⊢
  cases hcontent : (contentLines text)[n]? with
  | some line => rfl
  | none =>
    rw [hcontent] at hline
    have hnil := List.append_eq_nil_iff.mp (List.append_eq_nil_iff.mp hline.symm).2
    exact absurd hnil.1 hrun.nonempty

/-! ### Occurrences of a word -/

/-- An occurrence covers the bytes of the word between two boundaries of the text. -/
theorem Text.exists_of_mem_occurrencesFrom {word passed cs : List Char} {covered : Nat}
    {before : Option Char} {bytes : ByteSpan}
    (h : bytes ∈ occurrencesFrom word covered before (byteLength passed) cs) :
    ∃ a b, passed ++ cs = a ++ word ++ b ∧
      bytes = ⟨byteLength a, byteLength a + byteLength word⟩ := by
  induction cs generalizing passed covered before with
  | nil =>
    rw [occurrencesFrom] at h
    exact absurd h List.not_mem_nil
  | cons c cs ih =>
    have hlater : ∀ {covered before},
        bytes ∈ occurrencesFrom word covered before (byteLength passed + c.utf8Size) cs →
        ∃ a b, passed ++ c :: cs = a ++ word ++ b ∧
          bytes = ⟨byteLength a, byteLength a + byteLength word⟩ := by
      intro covered before h
      have hoffset : byteLength (passed ++ [c]) = byteLength passed + c.utf8Size :=
        byteLength_append _ _
      rw [← hoffset] at h
      simpa using ih h
    cases covered with
    | succ covered => exact hlater h
    | zero =>
      rw [occurrencesFrom] at h
      split at h
      next hprefix =>
        obtain ⟨rest, hrest⟩ := List.isPrefixOf_iff_prefix.mp hprefix
        dsimp only at h
        split at h
        · exact hlater h
        · rcases List.mem_cons.mp h with rfl | h
          · exact ⟨passed, rest, by rw [List.append_assoc, hrest], rfl⟩
          · exact hlater h
      next => exact hlater h

theorem canonical_of_mem_occurrences {text word : List Char} {bytes : ByteSpan}
    (h : bytes ∈ occurrences text word) : (spanOf text bytes).Canonical text := by
  unfold occurrences at h
  split at h
  · exact absurd h List.not_mem_nil
  · have hwhole : ∃ a b, [] ++ text = a ++ word ++ b ∧
        bytes = ⟨byteLength a, byteLength a + byteLength word⟩ := exists_of_mem_occurrencesFrom h
    obtain ⟨a, _, _, rfl⟩ := hwhole
    exact Span.canonical_spanOf text (Nat.le_add_right _ _)

/-! ### Advisory notes -/

namespace Insight

/-- The stretch of a mention is cut out of the line. -/
def Mention.Within (line : List Char) (m : Mention) : Prop :=
  ∃ after, line = m.before ++ m.text ++ after

variable {m : Mention} {passed rest cs : List Char}

theorem Mention.Within.note (h : m.Within line) (n : Nat) (label : String) :
    (m.note n label).range.Within n line := by
  obtain ⟨after, hline⟩ := h
  exact ⟨m.before, m.text, after, hline, rfl⟩

theorem within_of_wholeWord? {word : List Char} (h : wholeWord? word passed rest = some m) :
    m.Within (passed.reverse ++ rest) := by
  unfold wholeWord? at h
  split at h
  · cases h
  split at h
  next after hafter =>
    split at h
    · cases h
    · obtain rfl := Option.some.inj h
      exact ⟨after, by rw [append_of_dropPrefix? hafter, List.append_assoc]⟩
  · cases h

theorem within_of_decorator? (h : decorator? passed rest = some m) :
    m.Within (passed.reverse ++ rest) := by
  unfold decorator? at h
  split at h
  next after =>
    dsimp only at h
    split at h
    · cases h
    · obtain rfl := Option.some.inj h
      refine ⟨after.dropWhile isWord, ?_⟩
      rw [List.append_assoc, List.cons_append, List.takeWhile_append_dropWhile]
  · cases h

theorem within_of_keywordUse? {keyword : String} (h : keywordUse? keyword passed rest = some m) :
    m.Within (passed.reverse ++ rest) := by
  unfold keywordUse? at h
  split at h
  · cases h
  split at h
  next after hafter =>
    dsimp only at h
    split at h
    · obtain rfl := Option.some.inj h
      exact ⟨after, by rw [append_of_dropPrefix? hafter, List.append_assoc]⟩
    · cases h
  · cases h

/-- What is read at the places of a line is cut out of the line if the reader keeps to its place. -/
theorem within_of_mem_mentionsFrom {read : List Char → List Char → Option Mention}
    (hread : ∀ {passed rest m}, read passed rest = some m → m.Within (passed.reverse ++ rest))
    (h : m ∈ mentionsFrom read passed cs) : m.Within (passed.reverse ++ cs) := by
  induction cs generalizing passed with
  | nil => exact absurd h List.not_mem_nil
  | cons c cs ih =>
    rcases List.mem_append.mp h with h | h
    · exact hread (Option.mem_toList.mp h)
    · simpa using ih h

theorem within_of_mem_genericListsFrom {covered : Nat}
    (h : m ∈ genericListsFrom covered passed cs) : m.Within (passed.reverse ++ cs) := by
  induction cs generalizing covered passed with
  | nil =>
    rw [genericListsFrom] at h
    exact absurd h List.not_mem_nil
  | cons c cs ih =>
    have hlater : ∀ {covered}, m ∈ genericListsFrom covered (c :: passed) cs →
        m.Within (passed.reverse ++ c :: cs) := fun h => by
      simpa using ih h
    cases covered with
    | succ covered => exact hlater h
    | zero =>
      rw [genericListsFrom] at h
      split at h
      next hlist =>
        obtain ⟨rfl, _, hlength⟩ := hlist
        rcases List.mem_cons.mp h with rfl | h
        · -- the text inside is shorter than the rest, so the closing bracket follows it
          have hne : cs.takeWhile (· != '>') ≠ cs := fun heq => by
            rw [heq] at hlength
            exact Nat.lt_irrefl _ hlength
          obtain ⟨d, after, hd, hsplit⟩ := exists_of_takeWhile_ne hne
          rw [bne_eq_false_iff_eq] at hd
          refine ⟨after, ?_⟩
          conv_lhs => rw [hsplit, hd]
          simp
        · exact hlater h
      · exact hlater h

/-- A note of a line is about a stretch of it. -/
theorem within_of_mem_advisoryLine {d : Diagnostic} (h : d ∈ advisoryLine n line) :
    d.range.Within n line := by
  unfold advisoryLine at h
  simp only [List.mem_append, List.mem_flatMap, List.mem_map, List.mem_filterMap] at h
  rcases h with ((⟨_, _, m, hm, rfl⟩ | ⟨m, hm, rfl⟩) | ⟨m, hm, rfl⟩) | ⟨⟨keyword, label⟩, _, h⟩
  · exact (within_of_mem_mentionsFrom within_of_wholeWord? hm).note n _
  · exact (within_of_mem_mentionsFrom within_of_decorator? hm).note n _
  · exact (within_of_mem_genericListsFrom hm).note n _
  · obtain ⟨m, hm, rfl⟩ := Option.map_eq_some_iff.mp h
    exact (within_of_mem_mentionsFrom within_of_keywordUse? (List.mem_of_head? hm)).note n _

theorem advisoryLines_eq (n : Nat) (ls : List (List Char)) :
    advisoryLines n ls = (ls.zipIdx n).flatMap fun l => advisoryLine l.2 l.1 := by
  induction ls generalizing n with
  | nil => rfl
  | cons l ls ih => simp [advisoryLines, ih]

theorem canonical_of_mem_advisoryDiagnostics {text : List Char} {d : Diagnostic}
    (h : d ∈ advisoryDiagnostics text) : d.range.Canonical text := by
  rw [advisoryDiagnostics, advisoryLines_eq] at h
  obtain ⟨⟨line, n⟩, hline, hd⟩ := List.mem_flatMap.mp h
  exact (within_of_mem_advisoryLine hd).canonical (List.mk_mem_zipIdx_iff_getElem?.mp hline)

end Insight

/-! ### The outline -/

namespace Outline

/-- A line that is not all blank without the blanks around it. -/
theorem within_trimmed {c : Char} (hc : c ∈ line) (hsolid : isBlank c = false) (n : Nat) :
    Span.Within n line
      ⟨⟨n, unitLength (line.takeWhile isBlank)⟩, ⟨n, unitLength (trimEnd line)⟩⟩ := by
  have hne : line.takeWhile isBlank ≠ line := fun heq => by
    rw [List.takeWhile_eq_self_iff.mp heq c hc] at hsolid
    cases hsolid
  obtain ⟨d, rest, hd, hsplit⟩ := exists_of_takeWhile_ne hne
  have htrim : trimEnd line = line.takeWhile isBlank ++ d :: trimEnd rest := by
    conv_lhs => rw [hsplit]
    exact trimEnd_append_cons hd _ rest
  obtain ⟨after, hafter⟩ := trimEnd_isPrefix rest
  refine ⟨line.takeWhile isBlank, d :: trimEnd rest, after, ?_, ?_⟩
  · conv_lhs => rw [hsplit, ← hafter]
    simp
  · rw [htrim, unitLength_append]

/-- An entry of a line is about the line without the blanks around it, and its keyword stands in the
line. -/
theorem within_of_mem_scanLine {e : Entry} (h : e ∈ scanLine n line) :
    e.range.Within n line ∧
      Span.Within n line ⟨⟨e.line, e.keywordColumn⟩, ⟨e.line, e.keywordColumn⟩⟩ := by
  unfold scanLine at h
  split at h
  · exact absurd h List.not_mem_nil
  · obtain ⟨rule, _, h⟩ := List.mem_filterMap.mp h
    obtain ⟨⟨before, header⟩, hsearch, rfl⟩ := Option.map_eq_some_iff.mp h
    obtain ⟨c, rest, rfl, hedge, -⟩ := exists_first_of_search hsearch
    obtain ⟨d, hd, hword⟩ := hedge.exists_isWord rest
    exact ⟨within_trimmed hd (isBlank_of_isWord hword) n, before, [], c :: rest, by simp, rfl⟩

theorem scanLines_eq (n : Nat) (ls : List (List Char)) :
    scanLines n ls = (ls.zipIdx n).flatMap fun l => scanLine l.2 l.1 := by
  induction ls generalizing n with
  | nil => rfl
  | cons l ls ih => simp [scanLines, ih]

theorem mem_scanLines_of_findInLines {name : String} {kinds : List SymbolKind}
    {ls : List (List Char)} {e : Entry} (h : findInLines name kinds n ls = some e) :
    e ∈ scanLines n ls := by
  induction ls generalizing n with
  | nil => cases h
  | cons l ls ih =>
    rw [findInLines] at h
    rw [scanLines, List.mem_append]
    split at h
    next found hfound =>
      split at hfound
      · rw [← Option.some.inj h]
        exact .inl (List.mem_of_find?_eq_some hfound)
      · cases hfound
    next => exact .inr (ih h)

theorem canonical_of_mem_scan {text : List Char} {e : Entry} (h : e ∈ scan text) :
    e.range.Canonical text ∧
      Span.Canonical text ⟨⟨e.line, e.keywordColumn⟩, ⟨e.line, e.keywordColumn⟩⟩ := by
  rw [scan, scanLines_eq] at h
  obtain ⟨⟨line, n⟩, hline, he⟩ := List.mem_flatMap.mp h
  have hcontent := List.mk_mem_zipIdx_iff_getElem?.mp hline
  obtain ⟨hrange, hkeyword⟩ := within_of_mem_scanLine he
  exact ⟨hrange.canonical hcontent, hkeyword.canonical hcontent⟩

end Outline

end UtsInsight
