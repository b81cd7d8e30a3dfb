import UtsInsight.Insight.Context
import UtsInsight.Proofs.Text.Blanks
import UtsInsight.Proofs.Text.Runs

/-!
# The receiver before a dot

Completion asks for the receiver when the dot has just been written, and a tooltip asks for it when a
member stands behind the dot. The first takes the longest run of characters of names before the dot,
the second the longest run of identifier characters. The two classes are the same among the characters
of ASCII but not beyond, so the receivers are the same exactly where the characters before the dot that
are in one of the classes are all in both.
-/
namespace UtsInsight.Insight

open Text

/-! ### Two classes of characters -/

section

variable {p q : Char → Bool} {cs : List Char}

/-- The longest beginnings in two classes are the same if the classes agree as far as one of them
reaches. -/
theorem takeWhile_eq_takeWhile_iff :
    cs.takeWhile p = cs.takeWhile q ↔ ∀ c ∈ cs.takeWhile (fun c => p c || q c), p c = q c := by
  induction cs with
  | nil => simp
  | cons c cs ih =>
    cases hp : p c <;> cases hq : q c <;> simp [hp, hq, ih]

theorem tailRun_eq_tailRun_iff :
    tailRun p cs = tailRun q cs ↔ ∀ c ∈ tailRun (fun c => p c || q c) cs, p c = q c := by
  simp only [tailRun, List.reverse_inj, List.mem_reverse]
  exact takeWhile_eq_takeWhile_iff

end

/-- Names and identifiers are written with the same characters of ASCII. -/
theorem isNamePart_eq_isIdentifier {c : Char} (h : c.toNat < 128) :
    isNamePart c = isIdentifier c := by
  simp [isNamePart, isIdentifier, isWord, isAlphanumeric, h]

theorem isIdentifier_of_isAsciiLetter {c : Char} (h : isAsciiLetter c = true) :
    isIdentifier c = true := by
  have hcode : c.toNat < 128 := by
    simp only [isAsciiLetter, Bool.or_eq_true, Bool.and_eq_true, decide_eq_true_eq, Char.le_def,
      UInt32.le_iff_toNat_le] at h
    have hlast : 'z'.val.toNat = 122 ∧ 'Z'.val.toNat = 90 := by decide
    change c.val.toNat < 128
    omega
  simp [isIdentifier, isAlphanumeric, hcode, h]

/-! ### Both receivers -/

/-- A name, unless it has no characters. -/
def nonempty? (name : List Char) : Option String :=
  if name.isEmpty then none else some (String.ofList name)

theorem nonempty?_inj {a b : List Char} : nonempty? a = nonempty? b ↔ a = b := by
  cases a <;> cases b <;> simp [nonempty?, String.ofList_inj]

variable {left member : List Char}

/-- Behind a dot a member is completed if a name stands before the dot. Otherwise the dot ends the
text, so neither a type nor a call is completed. -/
theorem contextAfter_dot (receiver : String) :
    contextAfter (left ++ ['.']) = .member receiver ↔
      nonempty? (tailRun isNamePart left) = some receiver := by
  have hreverse : (left ++ ['.']).reverse = '.' :: left.reverse := List.reverse_concat
  have htrim : trimEnd (left ++ ['.']) = left ++ ['.'] := trimEnd_append_cons (by decide) left []
  have hlast : (left ++ ['.']).getLast? = some '.' := List.getLast?_concat
  have hrun : (left.reverse.takeWhile isNamePart).reverse = tailRun isNamePart left := rfl
  have hcolon : ¬ some '.' = some ':' := by decide
  have hopening : ¬ some '.' = some '(' := by decide
  unfold contextAfter nonempty?
  simp only [hreverse, htrim, hlast, hrun, if_neg hcolon, if_neg hopening]
  split_ifs with hname
  · exact iff_of_false (by simp) (by simp)
  · simp

/-- The receiver of a word behind a dot is the identifier before the dot. -/
theorem receiver?_dot {word : CursorWord} (hstart : word.start = unitLength (left ++ ['.'])) :
    word.receiver? (left ++ ['.'] ++ member) = nonempty? (tailRun isIdentifier left) := by
  have hreverse : (left ++ ['.']).reverse = '.' :: left.reverse := List.reverse_concat
  unfold CursorWord.receiver?
  rw [hstart, takeUnits_unitLength, hreverse]
  rfl

/-- Letters of ASCII behind a dot, at the end of a line, are a word of it. -/
theorem isRun_dot (hne : member ≠ []) (hletters : ∀ c ∈ member, isAsciiLetter c = true) :
    IsRun (left ++ ['.']) member [] where
  nonempty := hne
  solid c hc := isIdentifier_of_isAsciiLetter (hletters c hc)
  before := by
    rw [List.getLast?_concat]
    decide
  after := rfl

/-- With a dot written behind a text, the receiver to complete is the name that ends the text. With a
member written behind the dot, the receiver of the member is the identifier that ends the text. The
two are the same exactly if the characters of either class that end the text are all in both, as they
are in a text of ASCII. -/
theorem receivers_agree_iff (rest : List Char) (hne : member ≠ [])
    (hletters : ∀ c ∈ member, isAsciiLetter c = true) :
    let before := left ++ ['.']
    ∃ word : CursorWord, word.text = String.ofList member ∧
      (∀ column, unitLength before ≤ column → column ≤ unitLength (before ++ member) →
        wordAt (before ++ member) column = some word) ∧
      (∀ receiver, classify (before ++ rest) (unitLength before) = .member receiver ↔
        nonempty? (tailRun isNamePart left) = some receiver) ∧
      word.receiver? (before ++ member) = nonempty? (tailRun isIdentifier left) ∧
      ((∀ receiver, classify (before ++ rest) (unitLength before) = .member receiver ↔
          word.receiver? (before ++ member) = some receiver) ↔
        ∀ c ∈ tailRun (fun c => isNamePart c || isIdentifier c) left,
          isNamePart c = isIdentifier c) ∧
      ((∀ c ∈ left, c.toNat < 128) →
        ∀ receiver, classify (before ++ rest) (unitLength before) = .member receiver ↔
          word.receiver? (before ++ member) = some receiver) := by
  intro before
  let word : CursorWord :=
    ⟨String.ofList member, unitLength before, unitLength before + unitLength member⟩
  have hcontext : ∀ receiver, classify (before ++ rest) (unitLength before) = .member receiver ↔
      nonempty? (tailRun isNamePart left) = some receiver := by
    intro receiver
    rw [classify, takeUnits_unitLength]
    exact contextAfter_dot receiver
  have hreceiver : word.receiver? (before ++ member) = nonempty? (tailRun isIdentifier left) :=
    receiver?_dot rfl
  have hagree : (∀ receiver, classify (before ++ rest) (unitLength before) = .member receiver ↔
      word.receiver? (before ++ member) = some receiver) ↔
        ∀ c ∈ tailRun (fun c => isNamePart c || isIdentifier c) left,
          isNamePart c = isIdentifier c := by
    rw [← tailRun_eq_tailRun_iff, ← nonempty?_inj, hreceiver]
    simp only [hcontext]
    exact Option.ext_iff.symm
  refine ⟨word, rfl, ?_, hcontext, hreceiver, hagree, fun hascii => hagree.mpr fun c hc => ?_⟩
  · intro column hstart hstop
    have hword := (isRun_dot hne hletters).wordAt hstart (unitLength_append before member ▸ hstop)
    rwa [List.append_nil] at hword
  · have hleft := List.mem_append_right
      (beforeTailRun (fun c => isNamePart c || isIdentifier c) left) hc
    rw [beforeTailRun_append_tailRun] at hleft
    exact isNamePart_eq_isIdentifier (hascii c hleft)

/-- A receiver that ends in a letter and a combining mark: the mark is in a name but in no identifier,
so the members of the name are completed while a member behind it has no receiver. -/
theorem receivers_agree_iff_combining :
    let line := "e\u0301.m".toList
    "m".toList ≠ [] ∧ (∀ c ∈ "m".toList, isAsciiLetter c = true) ∧
      classify line 3 = .member "e\u0301" ∧
      ∃ word, wordAt line 3 = some word ∧ word.text = "m" ∧ word.receiver? line = none := by
  intro line
  have hne : "m".toList ≠ [] := by decide
  have hletters : ∀ c ∈ "m".toList, isAsciiLetter c = true :=
    List.all_eq_true.mp (by decide +kernel)
  have hname : nonempty? (tailRun isNamePart "e\u0301".toList) = some "e\u0301" := by decide +kernel
  have hidentifier : nonempty? (tailRun isIdentifier "e\u0301".toList) = none := by decide +kernel
  obtain ⟨word, htext, hword, hcontext, hreceiver, -⟩ :=
    @receivers_agree_iff "e\u0301".toList "m".toList "m".toList hne hletters
  exact ⟨hne, hletters, (hcontext _).mpr hname,
    word, hword 3 (by decide) (by decide), htext, hreceiver.trans hidentifier⟩

end UtsInsight.Insight
