import UtsInsight.Proofs.Outline.Pieces
import UtsInsight.Proofs.Text.Checked
import UtsInsight.Proofs.Text.Lines

/-!
# Entries by byte offsets

What is found on a line is known by the bytes at which its keyword, its name and its signature begin
and end. The name and the signature are cut out of the line there, and the columns of the entry are
counted up to these bytes. A header is a part of its line, so every cut is made at a boundary, and
the entries are those that are put together from the pieces of the header.
-/
namespace UtsInsight.Checked

open Text Outline

/-- The entry for a header whose keyword begins at the given byte of the line. -/
def entryOf (kind : SymbolKind) (lineNumber : Nat) (line : List Char) (keyword : Nat) (h : Header) :
    Checked Entry := do
  let nameStart := keyword + byteLength (h.keyword ++ h.gap)
  let nameStop := nameStart + byteLength h.name
  let solid ← minus (byteLength line) (byteLength (trimStart line))
  let name ← cut line nameStart nameStop
  let startColumn ← columnOfByte line solid
  let stopColumn ← columnOfByte line (byteLength (trimEnd line))
  let nameColumn ← columnOfByte line nameStart
  let nameStopColumn ← columnOfByte line nameStop
  let keywordColumn ← columnOfByte line keyword
  let signature ← cut line keyword (nameStop + byteLength h.tail)
  return {
    name := String.ofList name
    kind := if kind = .variable ∧ h.keyword = "const".toList then .constant else kind
    range := ⟨⟨lineNumber, startColumn⟩, ⟨lineNumber, stopColumn⟩⟩
    selection := ⟨⟨lineNumber, nameColumn⟩, ⟨lineNumber, nameStopColumn⟩⟩
    keywordColumn
    declaredType := h.declaredType.map String.ofList
    initializer := h.initializer.map String.ofList
    signature := String.ofList (trim signature) }

/-- What some rules find on a line, in their order. -/
def entries (lineNumber : Nat) (line : List Char) : List Rule → Checked (List Entry)
  | [] => return []
  | rule :: rules =>
    match search rule.read line with
    | none => entries lineNumber line rules
    | some (before, h) => do
      let entry ← entryOf rule.kind lineNumber line (byteLength before) h
      let later ← entries lineNumber line rules
      return entry :: later

/-- The entries of one line in rule order. -/
def scanLine (lineNumber : Nat) (line : List Char) : Checked (List Entry) :=
  if isCommentLine line then return [] else entries lineNumber line rules

/-- The entries of consecutive lines. -/
def scanLines : Nat → List (List Char) → Checked (List Entry)
  | _, [] => return []
  | n, line :: rest => do
    let here ← scanLine n line
    let later ← scanLines (n + 1) rest
    return here ++ later

/-- The outline of a document. -/
def scan (text : List Char) : Checked (List Entry) :=
  scanLines 0 (contentLines text)

section

variable {line : List Char} (hlength : byteLength line < countLimit)

include hlength

theorem entryOf_ok {before rest : List Char} {h : Header} (hline : line = before ++ rest)
    (htext : h.text <+: rest) (kind : SymbolKind) (n : Nat) :
    entryOf kind n line (byteLength before) h = .ok (Outline.entryOf kind n line before h) := by
  obtain ⟨after, rfl⟩ := htext
  let start := before ++ (h.keyword ++ h.gap)
  have hname : line = start ++ (h.name ++ (h.tail ++ after)) := by
    simp only [hline, start, Header.text, List.append_assoc]
  have hstart : byteLength before + byteLength (h.keyword ++ h.gap) = byteLength start :=
    (byteLength_append _ _).symm
  have hstop : byteLength start + byteLength h.name + byteLength h.tail =
      byteLength before + byteLength h.text := by
    simp only [start, Header.text, byteLength_append]
    omega
  have hsolid : minus (byteLength line) (byteLength (trimStart line)) =
      .ok (byteLength (line.takeWhile isBlank)) := by
    have hsplit := congrArg byteLength (blanks_of line)
    rw [byteLength_append, Nat.add_comm] at hsplit
    rw [hsplit]
    exact minus_ok _ _
  obtain ⟨hcutName, hnameStart, hnameStop⟩ := part_ok hlength hname
  obtain ⟨hcutText, hkeyword, -⟩ := part_ok hlength hline
  have hcolumn : ∀ {a : List Char}, a <+: line → columnOfByte line (byteLength a) =
      .ok (unitLength a) := columnOfByte_of_isPrefix hlength
  have hunits : unitLength start = unitLength before + unitLength h.keyword + unitLength h.gap := by
    simp only [start, unitLength_append, Nat.add_assoc]
  unfold entryOf Outline.entryOf
  simp only [hstart, hstop, hsolid, hcutName, hcutText, ok_bind,
    hcolumn (List.takeWhile_prefix isBlank), hcolumn (trimEnd_isPrefix line), hnameStart,
    hnameStop, hkeyword, hunits]
  rfl

theorem entries_ok {rs : List Rule} (hrules : ∀ rule ∈ rs, rule ∈ rules) (n : Nat) :
    entries n line rs = .ok (rs.filterMap fun rule => rule.entry? n line) := by
  induction rs with
  | nil => rfl
  | cons rule rs ih =>
    have ih := ih fun r hr => hrules r (List.mem_cons_of_mem rule hr)
    rw [entries, List.filterMap_cons, Rule.entry?]
    split
    next hsearch =>
      rw [hsearch, ih]
      rfl
    next before h hsearch =>
      obtain ⟨c, rest, hline, -, hread, -⟩ := exists_first_of_search hsearch
      have htext := read_isPrefix (hrules rule List.mem_cons_self) hread
      rw [hsearch, entryOf_ok hlength hline htext, ih]
      rfl

theorem scanLine_ok (n : Nat) : scanLine n line = .ok (Outline.scanLine n line) := by
  unfold scanLine Outline.scanLine
  split
  · rfl
  · exact entries_ok hlength (fun _ h => h) n

end

theorem scanLines_ok {ls : List (List Char)} (h : ∀ line ∈ ls, byteLength line < countLimit) (n : Nat) :
    scanLines n ls = .ok (Outline.scanLines n ls) := by
  induction ls generalizing n with
  | nil => rfl
  | cons line ls ih =>
    rw [scanLines, scanLine_ok (h line List.mem_cons_self), ok_bind,
      ih (fun l hl => h l (List.mem_cons_of_mem line hl)) (n + 1)]
    rfl

/-- A line of a document is not longer than the document. -/
theorem byteLength_le_of_contentLines {text line : List Char} {n : Nat}
    (h : (contentLines text)[n]? = some line) : byteLength line ≤ byteLength text := by
  obtain ⟨rest, hrest⟩ := exists_line_of_contentLines h
  obtain ⟨before, after, rfl, -⟩ := exists_of_getElem?_lines hrest
  simp only [byteLength_append]
  omega

theorem scan_ok {text : List Char} (h : byteLength text < countLimit) :
    scan text = .ok (Outline.scan text) := by
  refine scanLines_ok (fun line hline => ?_) 0
  obtain ⟨n, hn⟩ := List.mem_iff_getElem?.mp hline
  exact Nat.lt_of_le_of_lt (byteLength_le_of_contentLines hn) h

end UtsInsight.Checked
