import UtsInsight.Proofs.Document.Order
import UtsInsight.Proofs.Text.Checked

/-!
# Edits of a stored text

An open document keeps its text in a store that is asked for lines and characters by number and that
is changed by removals and insertions, and every one of these steps fails outside the text. The edits
of a document are written here with such steps, and the document is changed while they are applied.
No step fails, whatever positions an edit names, and what is stored in the end is the text with one
splice after the other, each read in the text that the ones before it left.

Whether the version is newer is asked before anything is changed, so an update that is refused leaves
the document as it was.
-/
namespace UtsInsight

open Text Document

/-- A range ends within the text, also where its end is raised to its start. -/
theorem Document.max_indexOf_le (text : List Char) (range : Span) :
    max (indexOf text range.start) (indexOf text range.stop) ≤ text.length :=
  Nat.max_le.mpr ⟨indexOf_le_length _ _, indexOf_le_length _ _⟩

namespace Checked

/-! ### Steps of a stored text -/

/-- The number of characters before a line. The line may be the one behind the last. -/
def lineStart (lines : List (List Char)) (n : Nat) : Checked Nat :=
  if n ≤ lines.length then .ok (lines.take n).flatten.length else .error .index

/-- Whether the character before an index of a line is the given one. -/
def endsIn (line : List Char) (stop : Nat) (c : Char) : Checked Bool :=
  if 0 < stop then do
    let last ← minus stop 1
    let d ← item line last
    return d == c
  else return false

def removeBetween (text : List Char) (start stop : Nat) : Checked (List Char) :=
  if start ≤ stop ∧ stop ≤ text.length then .ok (text.take start ++ text.drop stop)
  else .error .cut

def insertAt (text : List Char) (index : Nat) (inserted : List Char) : Checked (List Char) :=
  if index ≤ text.length then .ok (text.take index ++ inserted ++ text.drop index)
  else .error .index

/-! ### Positions and edits -/

/-- The number of characters of a line without the line feed, or the pair, that ends it. -/
def addressableLength (line : List Char) : Checked Nat := do
  if ← endsIn line line.length '\n' then
    let length ← minus line.length 1
    if ← endsIn line length '\r' then minus length 1 else return length
  else return line.length

/-- The index at which the walk over a line reaches a column, from an index at which `units` units
are passed. -/
def indexOfColumnFrom (column : Nat) : Nat → Nat → List Char → Nat
  | _, index, [] => index
  | units, index, c :: cs =>
    if column ≤ units then index
    else indexOfColumnFrom column (units + unitSize c) (index + 1) cs

/-- The number of characters before a position, clamped to the lines of the text and to its line. -/
def indexOf (text : List Char) (p : Position) : Checked Nat := do
  let lines := editorLines text
  let n := min p.line (lines.length - 1)
  let start ← lineStart lines n
  let line ← item lines n
  let length ← addressableLength line
  return start + indexOfColumnFrom p.column 0 0 (line.take length)

/-- Removes what is between two indices and inserts a text at the first of them. -/
def replaceBetween (text : List Char) (start stop : Nat) (inserted : List Char) :
    Checked (List Char) := do
  let rest ← removeBetween text start stop
  insertAt rest start inserted

/-- One change of a document. -/
def applyEdit (document : Document) (edit : Edit) : Checked Document := do
  match edit.range with
  | none => return { document with text := edit.text }
  | some range =>
    let start ← indexOf document.text range.start
    let stop ← indexOf document.text range.stop
    let text ← replaceBetween document.text start (max stop start) edit.text
    return { document with text }

/-- Changes of a document for a version: what the caller is told, and the document afterwards. -/
def update (document : Document) (edits : List Edit) (version : Int) :
    Checked (Except StaleVersion Unit × Document) := do
  if version ≤ document.version then
    return (.error ⟨version, document.version⟩, document)
  else
    let document ← edits.foldlM applyEdit document
    return (.ok (), { document with version })

/-! ### No step fails -/

theorem endsIn_ok (a b : List Char) (c : Char) :
    endsIn (a ++ b) a.length c = .ok (a.getLast? == some c) := by
  rcases List.eq_nil_or_concat a with rfl | ⟨front, d, rfl⟩
  · rfl
  · have hlength : (front.concat d).length = front.length + 1 := List.length_concat
    have hitem : (front.concat d ++ b)[front.length]? = some d := by simp
    unfold endsIn
    rw [hlength, if_pos (Nat.succ_pos _), minus_one_ok.mpr rfl, ok_bind, item_ok hitem, ok_bind,
      List.concat_eq_append, List.getLast?_concat]
    rfl

theorem addressableLength_ok (line : List Char) :
    addressableLength line = .ok (addressable line).length := by
  have hline := endsIn_ok line [] '\n'
  rw [List.append_nil] at hline
  unfold addressableLength addressable
  rw [hline, ok_bind]
  by_cases hfeed : line.getLast? = some '\n'
  · obtain ⟨front, rfl⟩ := List.getLast?_eq_some_iff.mp hfeed
    have hlength : (front ++ ['\n']).length = front.length + 1 := List.length_append
    rw [if_pos hfeed, if_pos (beq_iff_eq.mpr hfeed), minus_one_ok.mpr hlength, ok_bind,
      endsIn_ok front ['\n'], ok_bind, List.dropLast_concat, dropReturn]
    by_cases hreturn : front.getLast? = some '\r'
    · obtain ⟨front, rfl⟩ := List.getLast?_eq_some_iff.mp hreturn
      have hlength : (front ++ ['\r']).length = front.length + 1 := List.length_append
      rw [if_pos hreturn, if_pos (beq_iff_eq.mpr hreturn), minus_one_ok.mpr hlength,
        List.dropLast_concat]
    · rw [if_neg hreturn, if_neg (mt eq_of_beq hreturn)]
      rfl
  · rw [if_neg hfeed, if_neg (mt eq_of_beq hfeed)]
    rfl

theorem indexOfColumnFrom_eq (column units index : Nat) (cs : List Char) :
    indexOfColumnFrom column units index cs =
      index + (takeUnits (column - units) cs).length := by
  induction cs generalizing units index with
  | nil => cases h : column - units <;> rfl
  | cons c cs ih =>
    rw [indexOfColumnFrom]
    split_ifs with hcolumn
    · rw [Nat.sub_eq_zero_of_le hcolumn, takeUnits_zero]
      rfl
    · obtain ⟨k, hk⟩ := Nat.exists_eq_add_one.mpr (Nat.sub_pos_of_lt (Nat.lt_of_not_le hcolumn))
      have hrest : column - (units + unitSize c) = k + 1 - unitSize c := by omega
      rw [ih, hk, hrest, takeUnits, List.length_cons]
      omega

theorem indexOf_ok (text : List Char) (p : Position) :
    indexOf text p = .ok (Document.indexOf text p) := by
  have hline : min p.line (lastLine text) < (editorLines text).length := by
    have hlast := lastLine_lt text
    omega
  have hstart : lineStart (editorLines text) (min p.line (lastLine text)) =
      .ok ((editorLines text).take (min p.line (lastLine text))).flatten.length :=
    if_pos (Nat.le_of_lt hline)
  have htake := List.prefix_iff_eq_take.mp
    (addressable_isPrefix (editorLines text)[min p.line (lastLine text)])
  rw [indexOf_clamp, Document.indexOf, indexInLines_of_lt hline, indexInLine]
  change (lineStart _ (min p.line (lastLine text)) >>= _) = _
  rw [hstart, ok_bind]
  change (item _ (min p.line (lastLine text)) >>= _) = _
  rw [item_ok (List.getElem?_eq_getElem hline), ok_bind, addressableLength_ok, ok_bind, ← htake,
    indexOfColumnFrom_eq, Nat.zero_add, Nat.sub_zero]
  rfl

theorem insertAt_ok (a b inserted : List Char) :
    insertAt (a ++ b) a.length inserted = .ok (a ++ inserted ++ b) := by
  rw [insertAt, if_pos (List.prefix_append a b).length_le, List.take_left, List.drop_left]

theorem replaceBetween_ok {text : List Char} {start stop : Nat} (h : start ≤ stop)
    (hstop : stop ≤ text.length) (inserted : List Char) :
    replaceBetween text start stop inserted = .ok (splice text start stop inserted) := by
  have hinsert := insertAt_ok (text.take start) (text.drop stop) inserted
  rw [List.length_take_of_le (Nat.le_trans h hstop)] at hinsert
  rw [replaceBetween, removeBetween, if_pos ⟨h, hstop⟩, ok_bind]
  exact hinsert

/-- One change is one splice. -/
theorem applyEdit_ok (document : Document) (edit : Edit) :
    applyEdit document edit = .ok { document with text := Edit.apply document.text edit } := by
  unfold applyEdit Edit.apply
  cases edit.range with
  | none => rfl
  | some range =>
    have hstop := max_indexOf_le document.text range
    dsimp only
    rw [indexOf_ok, ok_bind, indexOf_ok, ok_bind, Nat.max_comm,
      replaceBetween_ok (Nat.le_max_left _ _) hstop, ok_bind]
    rfl

theorem foldlM_applyEdit (document : Document) (edits : List Edit) :
    edits.foldlM applyEdit document =
      .ok { document with text := edits.foldl Edit.apply document.text } := by
  induction edits generalizing document with
  | nil => rfl
  | cons edit edits ih => rw [List.foldlM_cons, applyEdit_ok, ok_bind, ih, List.foldl_cons]

end Checked

namespace Document

/-! ### Texts after changes -/

/-- A text is another one after changes: each of them puts a new text in the place of the whole, or
of the part between the two indices of its range. -/
inductive Spliced : List Char → List Edit → List Char → Prop
  | done (text : List Char) : Spliced text [] text
  | whole {text inserted final : List Char} {edits : List Edit} (h : Spliced inserted edits final) :
    Spliced text (⟨none, inserted⟩ :: edits) final
  | between {a removed b inserted final : List Char} {edits : List Edit} {range : Span}
    (hstart : a.length = indexOf (a ++ removed ++ b) range.start)
    (hstop : (a ++ removed).length = max a.length (indexOf (a ++ removed ++ b) range.stop))
    (h : Spliced (a ++ inserted ++ b) edits final) :
    Spliced (a ++ removed ++ b) (⟨some range, inserted⟩ :: edits) final

theorem spliced_foldl (text : List Char) (edits : List Edit) :
    Spliced text edits (edits.foldl Edit.apply text) := by
  induction edits generalizing text with
  | nil => exact .done text
  | cons edit edits ih =>
    rw [List.foldl_cons]
    obtain ⟨range, inserted⟩ := edit
    cases range with
    | none => exact .whole (ih inserted)
    | some range =>
      obtain ⟨a, removed, b, rfl, hstart, hstop, happly⟩ :=
        apply_between rfl rfl (max_indexOf_le text range) inserted
      rw [happly]
      apply Spliced.between hstart
      · rw [hstop, hstart]
      · exact ih _

/-- Nothing else is the text after the changes, because the indices say where it is cut. -/
theorem Spliced.eq_foldl {text final : List Char} {edits : List Edit}
    (h : Spliced text edits final) : final = edits.foldl Edit.apply text := by
  induction h with
  | done text => rfl
  | whole _ ih => exact ih
  | @between a removed b inserted final edits range hstart hstop _ ih =>
    have happly : Edit.apply (a ++ removed ++ b) ⟨some range, inserted⟩ = a ++ inserted ++ b := by
      have htake : (a ++ removed ++ b).take a.length = a := by
        rw [List.append_assoc, List.take_left]
      simp only [Edit.apply, ← hstart, ← hstop, splice, htake, List.drop_left]
    rw [List.foldl_cons, happly, ih]

theorem spliced_iff {text final : List Char} {edits : List Edit} :
    Spliced text edits final ↔ final = edits.foldl Edit.apply text :=
  ⟨Spliced.eq_foldl, fun h => h ▸ spliced_foldl text edits⟩

/-- An update for a newer version ends, in every document and with positions of any kind, with the
one text that its changes make, each read in the text left by those before it. An update for another
version is refused, and neither text nor version are touched. -/
theorem update_spliced (document : Document) (edits : List Edit) (version : Int) :
    (version ≤ document.version →
      update document edits version = .error ⟨version, document.version⟩ ∧
      Checked.update document edits version =
        .ok (.error ⟨version, document.version⟩, document)) ∧
    (document.version < version →
      ∃ text, (∀ final, Spliced document.text edits final ↔ final = text) ∧
        update document edits version = .ok ⟨text, version⟩ ∧
        Checked.update document edits version = .ok (.ok (), ⟨text, version⟩)) ∧
    ∀ (text : List Char) (range : Span),
      Checked.indexOf text range.start = .ok (indexOf text range.start) ∧
      Checked.indexOf text range.stop = .ok (indexOf text range.stop) ∧
      max (indexOf text range.start) (indexOf text range.stop) ≤ text.length := by
  refine ⟨fun hstale => ?_, fun hnewer => ?_, fun text range => ?_⟩
  · unfold update Checked.update
    rw [if_pos hstale, if_pos hstale]
    exact ⟨rfl, rfl⟩
  · have hstale : ¬ version ≤ document.version := Int.not_le.mpr hnewer
    refine ⟨edits.foldl Edit.apply document.text, fun final => spliced_iff, ?_⟩
    unfold update Checked.update
    rw [if_neg hstale, if_neg hstale, Checked.foldlM_applyEdit]
    exact ⟨rfl, rfl⟩
  · exact ⟨Checked.indexOf_ok _ _, Checked.indexOf_ok _ _, max_indexOf_le text range⟩

/-- An inverted range that ends inside a surrogate pair, and then one past the end that is read in
the changed text. The same changes for the version in force change nothing. -/
theorem update_spliced_inverted :
    let document : Document := ⟨"a\r\n😀b".toList, 3⟩
    let edits : List Edit := [⟨some ⟨⟨1, 1⟩, ⟨0, 9⟩⟩, ['\n']⟩, ⟨some ⟨⟨2, 0⟩, ⟨7, 7⟩⟩, ['!']⟩]
    (3 : Int) < 4 ∧
      update document edits 4 = .ok ⟨"a\r\n😀\n!".toList, 4⟩ ∧
      Checked.update document edits 4 = .ok (.ok (), ⟨"a\r\n😀\n!".toList, 4⟩) ∧
      (3 : Int) ≤ 3 ∧
      Checked.update document edits 3 = .ok (.error ⟨3, 3⟩, document) := by
  intro document edits
  have hnewer : document.version < 4 := by decide
  have hstale : (3 : Int) ≤ document.version := by decide
  obtain ⟨text, hspliced, hupdate, hchecked⟩ := (update_spliced document edits 4).2.1 hnewer
  obtain rfl : "a\r\n😀\n!".toList = text := (hspliced _).mp (spliced_iff.mpr (by decide))
  exact ⟨hnewer, hupdate, hchecked, hstale, ((update_spliced document edits 3).1 hstale).2⟩

end Document

end UtsInsight
