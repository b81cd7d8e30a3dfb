import UtsInsight.Proofs.Outline.CheckedEntries
import UtsInsight.Proofs.Outline.Keywords
import UtsInsight.Proofs.Text.LineStarts

/-!
# Where the entries of an outline stand

An entry is about one line of the text. On this line the solid part begins at or before the keyword,
the name follows the keyword, and the solid part ends at or behind the name. The columns of the name
are columns of the whole text as well: a carriage return that the outline does not see stands behind
everything on its line, so the bytes at these columns are those of the name. The signature is the part
of the line that begins with the keyword, and the name is in it.

Entries come line by line, and on one line in the order of the rules, of which each adds one entry at
most.
-/
namespace UtsInsight

open Text

namespace Text

/-! ### Parts of a line -/

theorem unitLength_le_of_isPrefix {a text : List Char} (h : a <+: text) :
    unitLength a ≤ unitLength text := by
  obtain ⟨b, rfl⟩ := h
  rw [unitLength_append]
  omega

/-- The longest beginning in a class ends at the latest before a character outside of it. -/
theorem takeWhile_isPrefix {p : Char → Bool} {c : Char} (hc : p c = false) (a b : List Char) :
    (a ++ c :: b).takeWhile p <+: a := by
  rw [List.takeWhile_append]
  split_ifs
  · rw [List.takeWhile_cons_of_neg (by simp [hc]), List.append_nil]
  · exact List.takeWhile_prefix p

/-- A part of a line is what stands in the text between the bytes at its columns. -/
theorem cut_columns {text x part y : List Char} {n : Nat}
    (h : (contentLines text)[n]? = some (x ++ (part ++ y))) :
    Checked.cut text (offsetOf text ⟨n, unitLength x⟩)
      (offsetOf text ⟨n, unitLength x + unitLength part⟩) = .ok part := by
  obtain ⟨rest, hrest⟩ := exists_line_of_contentLines h
  obtain ⟨far, near, rfl, hbetween⟩ := exists_of_getElem?_lines hrest
  have hoffset : ∀ {left right : List Char}, x ++ (part ++ y) ++ rest = left ++ right →
      offsetOf (far ++ (x ++ (part ++ y) ++ rest ++ near)) ⟨n, unitLength left⟩ =
        byteLength far + byteLength left := by
    intro left right hsplit
    rw [hsplit] at hbetween ⊢
    rw [← hbetween.positionAfter_append, ← byteLength_append]
    have hboundary := offsetOf_positionAfter (far ++ left) (right ++ near)
    simpa only [List.append_assoc] using hboundary
  have hstart := @hoffset x (part ++ y ++ rest) (by simp only [List.append_assoc])
  have hstop := @hoffset (x ++ part) (y ++ rest) (by simp only [List.append_assoc])
  rw [unitLength_append, byteLength_append] at hstop
  rw [hstart, hstop]
  refine Checked.cut_eq_ok_iff.mpr ⟨far ++ x, y ++ rest ++ near, ?_, ?_, ?_⟩
  · simp only [List.append_assoc]
  · rw [byteLength_append]
  · rw [byteLength_append, Nat.add_assoc]

end Text

namespace Outline

/-! ### Ends of a header -/

section

variable {kind : SymbolKind} {cs rest : List Char} {header : Header}

theorem IsPath.exists_concat {name : List Char} (h : IsPath name) :
    ∃ cs c, name = cs ++ [c] ∧ isBlank c = false := by
  induction h with
  | name h =>
    exact ⟨_, _, (List.dropLast_append_getLast h.ne_nil).symm,
      isBlank_of_isNamePart (h.part _ (List.getLast_mem h.ne_nil))⟩
  | @dot n path h _ ih =>
    obtain ⟨cs, c, rfl, hc⟩ := ih
    exact ⟨n ++ '.' :: cs, c, by simp, hc⟩

/-- A header begins with a keyword and holds a name, and neither is blank at its ends. -/
structure Header.Solid (header : Header) : Prop where
  keyword : ∃ c cs, header.keyword = c :: cs ∧ isBlank c = false
  name : ∃ cs c, header.name = cs ++ [c] ∧ isBlank c = false

theorem Opens.solid (h : Opens kind cs header.keyword header.gap header.name rest) :
    header.Solid where
  keyword := by
    have hword := h.head?_keyword
    cases hkeyword : header.keyword with
    | nil => rw [hkeyword] at hword; exact absurd hword (by decide)
    | cons c cs =>
      rw [hkeyword] at hword
      exact ⟨c, cs, rfl, isBlank_of_isWord hword⟩
  name := h.path.exists_concat

namespace Header.Solid

/-- Only blanks behind the name are trimmed off a header. -/
theorem trim_text (h : header.Solid) :
    trim header.text = header.keyword ++ header.gap ++ (header.name ++ trimEnd header.tail) := by
  obtain ⟨c, cs, hkeyword, hc⟩ := h.keyword
  obtain ⟨ds, d, hname, hd⟩ := h.name
  have htext : header.text = c :: (cs ++ (header.gap ++ (ds ++ d :: header.tail))) := by
    simp [Header.text, hkeyword, hname]
  have htrim := trimEnd_append_cons hd (c :: (cs ++ (header.gap ++ ds))) header.tail
  simp only [List.append_assoc, List.cons_append] at htrim
  rw [trim, htext, trimStart_cons hc, htrim, hkeyword, hname]
  simp

/-- The blanks at the beginning of a line stand before the keyword of its header. -/
theorem takeWhile_line (h : header.Solid) (before after : List Char) :
    (before ++ (header.text ++ after)).takeWhile isBlank <+: before := by
  obtain ⟨c, cs, hkeyword, hc⟩ := h.keyword
  have hline : before ++ (header.text ++ after) =
      before ++ c :: (cs ++ header.gap ++ header.name ++ header.tail ++ after) := by
    simp [Header.text, hkeyword]
  rw [hline]
  exact takeWhile_isPrefix hc _ _

/-- The blanks at the end of a line stand behind the name of its header. -/
theorem isPrefix_trimEnd_line (h : header.Solid) (before after : List Char) :
    before ++ (header.keyword ++ header.gap ++ header.name) <+:
      trimEnd (before ++ (header.text ++ after)) := by
  obtain ⟨ds, d, hname, hd⟩ := h.name
  have hline : before ++ (header.text ++ after) =
      before ++ (header.keyword ++ header.gap ++ ds) ++ d :: (header.tail ++ after) := by
    simp [Header.text, hname]
  rw [hline, trimEnd_append_cons hd]
  exact ⟨trimEnd (header.tail ++ after), by simp [hname]⟩

end Header.Solid

end

/-! ### Rules -/

/-- The number of the rule that finds entries of the kind. One rule finds variables and constants. -/
def ruleNumber (kind : SymbolKind) : Nat :=
  (rules.map (·.kind)).idxOf (if kind = .constant then .variable else kind)

/-- The entry stands on an earlier line than the other one, or on the same line and is found by an
earlier rule. -/
def Entry.Precedes (e f : Entry) : Prop :=
  e.line < f.line ∨ e.line = f.line ∧ ruleNumber e.kind < ruleNumber f.kind

section

variable {rule : Rule} {n : Nat} {line : List Char} {e : Entry}

theorem ruleNumber_kindOf (header : Header) (kind : SymbolKind) :
    ruleNumber (header.kindOf kind) = ruleNumber kind := by
  unfold Header.kindOf
  split_ifs with h
  · rw [h.1]
    rfl
  · rfl

theorem getElem?_ruleNumber (h : rule ∈ rules) : rules[ruleNumber rule.kind]? = some rule := by
  simp only [rules, List.mem_cons, List.not_mem_nil, or_false] at h
  rcases h with rfl | rfl | rfl | rfl | rfl | rfl | rfl | rfl | rfl <;> rfl

theorem rules_pairwise :
    rules.Pairwise fun r s => ruleNumber r.kind < ruleNumber s.kind := by
  decide

theorem line_ruleNumber_of_found (h : rule.entry? n line = some e) :
    e.line = n ∧ ruleNumber e.kind = ruleNumber rule.kind := by
  obtain ⟨⟨before, header⟩, -, rfl⟩ := Option.map_eq_some_iff.mp h
  exact ⟨rfl, ruleNumber_kindOf header rule.kind⟩

theorem exists_rule_of_mem_scanLine (h : e ∈ scanLine n line) :
    ∃ rule ∈ rules, rule.entry? n line = some e := by
  unfold scanLine at h
  split_ifs at h
  · cases h
  · exact List.mem_filterMap.mp h

theorem line_of_mem_scanLine (h : e ∈ scanLine n line) : e.line = n := by
  obtain ⟨_, -, hentry⟩ := exists_rule_of_mem_scanLine h
  exact (line_ruleNumber_of_found hentry).1

/-- On a line the rules are tried in order. -/
theorem scanLine_pairwise (n : Nat) (line : List Char) :
    (scanLine n line).Pairwise Entry.Precedes := by
  unfold scanLine
  split_ifs
  · exact List.Pairwise.nil
  · rw [List.pairwise_filterMap]
    refine rules_pairwise.imp fun {r s} hlt e he f hf => .inr ?_
    obtain ⟨heline, herule⟩ := line_ruleNumber_of_found he
    obtain ⟨hfline, hfrule⟩ := line_ruleNumber_of_found hf
    exact ⟨heline.trans hfline.symm, by omega⟩

theorem zipIdx_pairwise (ls : List (List Char)) (n : Nat) :
    (ls.zipIdx n).Pairwise fun l m => l.2 < m.2 := by
  rw [← List.pairwise_map (f := Prod.snd) (R := fun i j => i < j), List.zipIdx_map_snd]
  exact List.pairwise_lt_range'

theorem scan_pairwise (text : List Char) : (scan text).Pairwise Entry.Precedes := by
  rw [scan, scanLines_eq, List.pairwise_flatMap]
  refine ⟨fun l _ => scanLine_pairwise l.2 l.1, ?_⟩
  refine (zipIdx_pairwise _ 0).imp fun {l m} hlt e he f hf => .inl ?_
  rw [line_of_mem_scanLine he, line_of_mem_scanLine hf]
  exact hlt

end

/-! ### Entries -/

/-- Where an entry stands: on a line of the text, with its keyword and its name in order inside the
solid part of the line, and found there by the rule of its kind. The name is between the bytes of its
columns, and the signature is the part of the line that begins at the column of the keyword. -/
structure Entry.Placed (text line : List Char) (e : Entry) : Prop where
  content : (contentLines text)[e.line]? = some line
  oneLine : e.range.stop.line = e.line ∧ e.selection.start.line = e.line ∧
    e.selection.stop.line = e.line
  blanksBefore : e.range.start.column ≤ e.keywordColumn
  keyword : e.keywordColumn < e.selection.start.column
  name : e.selection.start.column < e.selection.stop.column
  blanksBehind : e.selection.stop.column ≤ e.range.stop.column
  selected : Checked.cut text (offsetOf text e.selection.start) (offsetOf text e.selection.stop) =
    .ok e.name.toList
  signature : ∃ before opening more after, line = before ++ (e.signature.toList ++ after) ∧
    e.signature.toList = opening ++ (e.name.toList ++ more) ∧
    unitLength before = e.keywordColumn ∧ unitLength (before ++ opening) = e.selection.start.column
  found : ∃ rule, rules[ruleNumber e.kind]? = some rule ∧
    rule.entry? e.line line = some e

section

variable {text line : List Char} {n : Nat} {e : Entry}

theorem placed_entryOf {kind : SymbolKind} {before after : List Char} {header : Header}
    (hline : (contentLines text)[n]? = some line) (hcut : line = before ++ (header.text ++ after))
    (hsolid : header.Solid)
    (hfound : ∃ rule, rules[ruleNumber (header.kindOf kind)]? = some rule ∧
      rule.entry? n line = some (entryOf kind n line before header)) :
    (entryOf kind n line before header).Placed text line := by
  have hkeyword : 0 < unitLength header.keyword := by
    obtain ⟨c, cs, hkeyword, -⟩ := hsolid.keyword
    rw [hkeyword, unitLength]
    exact Nat.add_pos_left (unitSize_pos c) _
  have hname : 0 < unitLength header.name := by
    obtain ⟨cs, c, hname, -⟩ := hsolid.name
    rw [hname, unitLength_append, unitLength]
    exact Nat.add_pos_right _ (Nat.add_pos_left (unitSize_pos c) _)
  have hopening : unitLength (before ++ (header.keyword ++ header.gap)) =
      unitLength before + unitLength header.keyword + unitLength header.gap := by
    simp only [unitLength_append, Nat.add_assoc]
  constructor
  case content => exact hline
  case oneLine => exact ⟨rfl, rfl, rfl⟩
  case blanksBefore =>
    rw [hcut]
    exact unitLength_le_of_isPrefix (hsolid.takeWhile_line before after)
  case keyword =>
    dsimp only [entryOf]
    omega
  case name =>
    dsimp only [entryOf]
    omega
  case blanksBehind =>
    have hle := unitLength_le_of_isPrefix (hsolid.isPrefix_trimEnd_line before after)
    rw [← hcut] at hle
    simp only [unitLength_append] at hle
    dsimp only [entryOf]
    omega
  case selected =>
    have hpart : line = before ++ (header.keyword ++ header.gap) ++
        (header.name ++ (header.tail ++ after)) := by
      simp only [hcut, Header.text, List.append_assoc]
    have hselected := cut_columns (hpart ▸ hline)
    rw [hopening] at hselected
    simpa only [entryOf, String.toList_ofList] using hselected
  case signature =>
    obtain ⟨blanks, hblanks⟩ := trimEnd_isPrefix header.tail
    have htail : header.tail ++ after = trimEnd header.tail ++ (blanks ++ after) := by
      rw [← List.append_assoc, hblanks]
    have hsignature : (entryOf kind n line before header).signature.toList =
        header.keyword ++ header.gap ++ (header.name ++ trimEnd header.tail) := by
      simp only [entryOf, String.toList_ofList, hsolid.trim_text]
    refine ⟨before, header.keyword ++ header.gap, trimEnd header.tail, blanks ++ after, ?_, ?_, rfl,
      hopening⟩
    · rw [hsignature, hcut, Header.text]
      simp only [List.append_assoc, htail]
    · rw [hsignature, entryOf, String.toList_ofList]
  case found => exact hfound

theorem placed_of_mem_scanLine (hline : (contentLines text)[n]? = some line)
    (h : e ∈ scanLine n line) : e.Placed text line := by
  obtain ⟨rule, hrule, hentry⟩ := exists_rule_of_mem_scanLine h
  obtain ⟨⟨before, header⟩, hsearch, rfl⟩ := Option.map_eq_some_iff.mp hentry
  obtain ⟨c, cs, hcs, -, hread, -⟩ := exists_first_of_search hsearch
  obtain ⟨after, hafter⟩ := read_isPrefix hrule hread
  obtain ⟨_, hopens⟩ := opens_of_read hrule hread
  refine placed_entryOf hline (hafter ▸ hcs) hopens.solid ⟨rule, ?_, hentry⟩
  rw [ruleNumber_kindOf]
  exact getElem?_ruleNumber hrule

/-- In a text whose bytes are counted in 32 bits, every entry of the outline stands on a line, and the
entries come in the order of the lines and of the rules. -/
theorem scan_placed (h : byteLength text < Checked.countLimit) :
    Checked.scan text = .ok (scan text) ∧
    (∀ p, Checked.offsetOf text p = .ok (offsetOf text p)) ∧
    (∀ e ∈ scan text, ∃ line, e.Placed text line) ∧
    (scan text).Pairwise Entry.Precedes := by
  refine ⟨Checked.scan_ok h, Checked.offsetOf_ok h, fun e he => ?_, scan_pairwise text⟩
  rw [scan, scanLines_eq] at he
  obtain ⟨⟨line, n⟩, hline, he⟩ := List.mem_flatMap.mp he
  exact ⟨line, placed_of_mem_scanLine (List.mk_mem_zipIdx_iff_getElem?.mp hline) he⟩

/-- Two rules on one line, behind characters of two units, with a carriage return behind the line and a
declaration on the next one. -/
theorem scan_placed_astral :
    let text := "  '😀'; class $é { } let x𝒳 : T = 1 ;\r\nenum E".toList
    let e : Entry :=
      { name := "x𝒳", kind := .variable, range := ⟨⟨0, 2⟩, ⟨0, 38⟩⟩,
        selection := ⟨⟨0, 25⟩, ⟨0, 28⟩⟩, keywordColumn := 21, declaredType := some "T",
        initializer := some "1", signature := "let x𝒳 : T" }
    byteLength text < Checked.countLimit ∧ e ∈ scan text ∧
      Checked.cut text (offsetOf text ⟨0, 25⟩) (offsetOf text ⟨0, 28⟩) = .ok "x𝒳".toList ∧
      (scan text).Pairwise Entry.Precedes := by
  intro text e
  have hlength : byteLength text < Checked.countLimit := by decide +kernel
  have hmem : e ∈ scan text := by decide +kernel
  obtain ⟨-, -, hplaced, hordered⟩ := scan_placed hlength
  obtain ⟨_, hplaced⟩ := hplaced e hmem
  exact ⟨hlength, hmem, hplaced.selected, hordered⟩

end

end Outline

end UtsInsight
