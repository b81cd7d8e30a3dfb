import UtsInsight.Proofs.Insight.CheckedBrackets
import UtsInsight.Proofs.Outline.CheckedEntries
import UtsInsight.Proofs.Text.LineStarts

/-!
# No step on a text fails

The functions on texts that the requests are put together from convert between bytes and columns,
cut texts at bytes they have counted, and count down brackets and table entries. On a text of fewer
than 2 ^ 32 bytes, and on every line of it, none of this fails: the functions with steps that can
fail have a result everywhere, for positions that are not in the text as well, and it is the result
of the functions that the requests use.
-/
namespace UtsInsight

open Text

/-- Every function with steps that can fail gives the result of the one without. -/
structure Faultless (text : List Char) : Prop where
  positionOf : ∀ offset, Checked.positionOf text offset = .ok (Text.positionOf text offset)
  offsetOf : ∀ p, Checked.offsetOf text p = .ok (Text.offsetOf text p)
  columnOfByte : ∀ byte, Checked.columnOfByte text byte = .ok (Text.columnOfByte text byte)
  byteOfColumn : ∀ column, Checked.byteOfColumn text column = .ok (Text.byteOfColumn text column)
  before : ∀ column, Checked.before text column = .ok (takeUnits column text)
  wordAt : ∀ column, Checked.wordAt text column = .ok (Text.wordAt text column)
  receiver : ∀ word, Checked.receiver? text word = .ok (word.receiver? text)
  isCalled : ∀ word, Checked.isCalled text word = .ok (word.isCalled text)
  occurrences : ∀ word, Checked.occurrences text word = .ok (Text.occurrences text word)
  classify : ∀ column, Checked.classify text column = .ok (Insight.classify text column)
  activeCall : Checked.activeCall text = .ok (Insight.activeCall text)
  parameterList : Checked.parameterList? text = .ok (Insight.parameterList? text)
  scan : Checked.scan text = .ok (Outline.scan text)
  returnTypeOf : Checked.returnTypeOf text = .ok (UtsInsight.returnTypeOf text)

variable {text : List Char}

theorem Faultless.of_byteLength_lt (h : byteLength text < Checked.countLimit) : Faultless text where
  positionOf := Checked.positionOf_ok h
  offsetOf := Checked.offsetOf_ok h
  columnOfByte := Checked.columnOfByte_ok h
  byteOfColumn := Checked.byteOfColumn_ok h
  before := Checked.before_ok h
  wordAt := Checked.wordAt_ok h
  receiver := Checked.receiver?_ok h
  isCalled := Checked.isCalled_ok h
  occurrences := Checked.occurrences_ok text
  classify := Checked.classify_ok h
  activeCall := Checked.activeCall_ok h
  parameterList := Checked.parameterList?_ok text
  scan := Checked.scan_ok h
  returnTypeOf := Checked.returnTypeOf_ok text

theorem byteLength_lineAt_le (text : List Char) (n : Nat) :
    byteLength (lineAt text n) ≤ byteLength text := by
  unfold lineAt
  cases hline : (contentLines text)[n]? with
  | none => exact Nat.zero_le _
  | some line => exact Checked.byteLength_le_of_contentLines hline

/-- The text of a document and each of its lines, those past the end among them. -/
theorem faultless_document (h : byteLength text < Checked.countLimit) :
    Faultless text ∧ ∀ n, Faultless (lineAt text n) :=
  ⟨.of_byteLength_lt h, fun n =>
    .of_byteLength_lt (Nat.lt_of_le_of_lt (byteLength_lineAt_le text n) h)⟩

/-- A column between the two units of a character, on a line past the end, and a call whose argument
has such a character. -/
theorem faultless_between_units :
    let text := "f('😀', ".toList
    byteLength text < Checked.countLimit ∧ Checked.offsetOf text ⟨9, 4⟩ = .ok 7 ∧
      Checked.byteOfColumn (lineAt text 0) 4 = .ok 7 ∧
      Checked.activeCall text = .ok (some ⟨"f", 1⟩) := by
  intro text
  have h : byteLength text < Checked.countLimit := by decide +kernel
  obtain ⟨htext, hline⟩ := faultless_document h
  refine ⟨h, (htext.offsetOf _).trans ?_, ((hline 0).byteOfColumn 4).trans ?_,
    htext.activeCall.trans ?_⟩
  · exact congrArg Except.ok (by decide +kernel)
  · exact congrArg Except.ok (by decide +kernel)
  · exact congrArg Except.ok (by decide +kernel)

end UtsInsight
