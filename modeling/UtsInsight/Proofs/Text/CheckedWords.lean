import UtsInsight.Proofs.Text.Checked
import UtsInsight.Proofs.Text.Lines

/-!
# Words by byte offsets

The word under a cursor is found by walking over the characters on both sides of it, each with the
byte at which it starts, and is then cut out of its line. The occurrences of a word are its literal
matches, and the text is cut at both ends of a match to look at its neighbours. All these cuts are
made at character boundaries, and the words and occurrences are those of the lists of characters.
-/
namespace UtsInsight.Checked

open Text

/-! ### Characters and where they start -/

/-- The characters of a text that begins at a byte, each with the byte at which it starts. -/
def indices : Nat → List Char → List (Nat × Char)
  | _, [] => []
  | byte, c :: cs => (byte, c) :: indices (byte + c.utf8Size) cs

/-- Where the longest end of a text in a class starts. -/
def runStart (p : Char → Bool) (text : List Char) : Option Nat :=
  ((indices 0 text).reverse.takeWhile fun i => p i.2).getLast?.map (·.1)

/-- Where the longest beginning of a text in a class is followed by another character. -/
def runStop (p : Char → Bool) (text : List Char) : Option Nat :=
  ((indices 0 text).find? fun i => !p i.2).map (·.1)

/-- The identifier touching a column of a line. -/
def wordAt (line : List Char) (column : Nat) : Checked (Option CursorWord) := do
  let cursor ← byteOfColumn line column
  let left ← cut line 0 cursor
  let right ← cut line cursor (byteLength line)
  let start := (runStart isIdentifier left).getD cursor
  let stop := ((runStop isIdentifier right).map (cursor + ·)).getD (byteLength line)
  if start = stop then return none
  else
    let word ← cut line start stop
    let startColumn ← columnOfByte line start
    let stopColumn ← columnOfByte line stop
    return some ⟨String.ofList word, startColumn, stopColumn⟩

/-- The identifier ending right before the dot in front of a word. -/
def receiver? (line : List Char) (word : CursorWord) : Checked (Option String) := do
  let start ← byteOfColumn line word.start
  let left ← cut line 0 start
  if left.getLast? = some '.' then
    match runStart isIdentifier left.dropLast with
    | some start =>
      let receiver ← cut left.dropLast start (byteLength left.dropLast)
      return some (String.ofList receiver)
    | none => return none
  else return none

/-- Whether the next character after a word that is not blank opens a call. -/
def isCalled (line : List Char) (word : CursorWord) : Checked Bool := do
  let stop ← byteOfColumn line word.stop
  let rest ← cut line stop (byteLength line)
  return (trimStart rest).head? == some '('

/-- The literal matches of a word in the rest of a text, from left to right and without overlap. The
first number counts the characters that the match before still covers, the second is the byte at
which the rest starts. -/
def matchesFrom (word : List Char) : Nat → Nat → List Char → List ByteSpan
  | _, _, [] => []
  | covered + 1, byte, c :: cs => matchesFrom word covered (byte + c.utf8Size) cs
  | 0, byte, c :: cs =>
    if word.isPrefixOf (c :: cs) then
      ⟨byte, byte + byteLength word⟩ :: matchesFrom word (word.length - 1) (byte + c.utf8Size) cs
    else matchesFrom word 0 (byte + c.utf8Size) cs

/-- The matches that continue no identifier on either side. -/
def standingAlone (text : List Char) : List ByteSpan → Checked (List ByteSpan)
  | [] => return []
  | m :: ms => do
    let left ← cut text 0 m.start
    let right ← cut text m.stop (byteLength text)
    let later ← standingAlone text ms
    return if continuesIdentifier left.getLast? || continuesIdentifier right.head? then later
      else m :: later

/-- The byte ranges of the occurrences of a word. -/
def occurrences (text word : List Char) : Checked (List ByteSpan) :=
  if word.isEmpty then return [] else standingAlone text (matchesFrom word 0 0 text)

/-! ### Runs -/

theorem indices_append (byte : Nat) (a b : List Char) :
    indices byte (a ++ b) = indices byte a ++ indices (byte + byteLength a) b := by
  induction a generalizing byte with
  | nil => rfl
  | cons c a ih => rw [List.cons_append, indices, ih, byteLength, Nat.add_assoc]; rfl

theorem snd_of_mem_indices {byte : Nat} {text : List Char} {i : Nat × Char}
    (h : i ∈ indices byte text) : i.2 ∈ text := by
  induction text generalizing byte with
  | nil => cases h
  | cons c cs ih =>
    rcases List.mem_cons.mp h with rfl | h
    · exact List.mem_cons_self
    · exact List.mem_cons_of_mem c (ih h)

theorem head?_indices (byte : Nat) (text : List Char) :
    (indices byte text).head? = text.head?.map fun c => (byte, c) := by
  cases text <;> rfl

theorem getLast?_indices_any {p : Char → Bool} {text : List Char} (h : text.getLast?.any p = false)
    (byte : Nat) : (indices byte text).getLast?.any (fun i => p i.2) = false := by
  rcases List.eq_nil_or_concat text with rfl | ⟨cs, c, rfl⟩
  · rfl
  · rw [List.concat_eq_append, List.getLast?_concat] at h
    rw [List.concat_eq_append, indices_append]
    exact (congrArg (Option.any _) List.getLast?_concat).trans h

section

variable {p : Char → Bool} {a part b : List Char}

theorem runStart_append (hpart : ∀ c ∈ part, p c = true) (ha : a.getLast?.any p = false) :
    runStart p (a ++ part) = part.head?.map fun _ => byteLength a := by
  have hrun : ∀ i ∈ (indices (0 + byteLength a) part).reverse, p i.2 = true := fun i hi =>
    hpart i.2 (snd_of_mem_indices (List.mem_reverse.mp hi))
  have hstop : ((indices 0 a).reverse.head?).any (fun i => p i.2) = false := by
    rw [List.head?_reverse]
    exact getLast?_indices_any ha 0
  rw [runStart, indices_append, List.reverse_append, takeWhile_append_of_head? hrun hstop,
    List.getLast?_reverse, head?_indices, Option.map_map, Nat.zero_add]
  rfl

theorem runStop_append (hpart : ∀ c ∈ part, p c = true) (hb : b.head?.any p = false) :
    runStop p (part ++ b) = b.head?.map fun _ => byteLength part := by
  have hrun : (indices 0 part).find? (fun i => !p i.2) = none := by
    refine List.find?_eq_none.mpr fun i hi => ?_
    rw [hpart i.2 (snd_of_mem_indices hi)]
    decide
  rw [runStop, indices_append, List.find?_append, hrun, Option.none_or, Nat.zero_add]
  cases b with
  | nil => rfl
  | cons c b =>
    have hc : (!p c) = true := congrArg not hb
    have hfind : (indices (byteLength part) (c :: b)).find? (fun i => !p i.2) =
        some (byteLength part, c) := List.find?_cons_of_pos hc
    rw [hfind]
    rfl

end

/-- The longest end in a class starts behind what stands before it. -/
theorem runStart_eq (p : Char → Bool) (text : List Char) :
    runStart p text = (tailRun p text).head?.map fun _ => byteLength (beforeTailRun p text) := by
  have h := @runStart_append p (beforeTailRun p text) (tailRun p text)
    (fun _ => of_mem_tailRun) (getLast?_beforeTailRun_any p text)
  rwa [beforeTailRun_append_tailRun] at h

theorem runStop_eq (p : Char → Bool) (text : List Char) :
    runStop p text = (text.dropWhile p).head?.map fun _ => byteLength (text.takeWhile p) := by
  have h := @runStop_append p (text.takeWhile p) (text.dropWhile p)
    (fun _ => List.mem_takeWhile_imp) (head?_dropWhile_any p text)
  rwa [List.takeWhile_append_dropWhile] at h

/-- Where the longest end in a class starts, or the end of the text if it is empty. -/
theorem getD_runStart (p : Char → Bool) (text : List Char) :
    (runStart p text).getD (byteLength text) = byteLength (beforeTailRun p text) := by
  have hlength : byteLength text =
      byteLength (beforeTailRun p text) + byteLength (tailRun p text) := by
    rw [← byteLength_append, beforeTailRun_append_tailRun]
  rw [runStart_eq, hlength]
  cases tailRun p text <;> rfl

theorem getD_runStop (p : Char → Bool) (text : List Char) (byte : Nat) :
    ((runStop p text).map (byte + ·)).getD (byte + byteLength text) =
      byte + byteLength (text.takeWhile p) := by
  have hlength : byteLength text =
      byteLength (text.takeWhile p) + byteLength (text.dropWhile p) := by
    rw [← byteLength_append, List.takeWhile_append_dropWhile]
  rw [runStop_eq, hlength]
  cases text.dropWhile p <;> rfl

/-! ### The word under a cursor -/

variable {line : List Char}

theorem wordAt_ok (h : byteLength line < countLimit) (column : Nat) :
    wordAt line column = .ok (Text.wordAt line column) := by
  let a := beforeTailRun isIdentifier (takeUnits column line)
  let u := tailRun isIdentifier (takeUnits column line)
  let v := (dropUnits column line).takeWhile isIdentifier
  let w := (dropUnits column line).dropWhile isIdentifier
  have hleft : takeUnits column line = a ++ u := (beforeTailRun_append_tailRun _ _).symm
  have hright : dropUnits column line = v ++ w := List.takeWhile_append_dropWhile.symm
  have hline : line = a ++ ((u ++ v) ++ w) := by
    rw [← takeUnits_append_dropUnits column line, hleft, hright]
    simp only [List.append_assoc]
  have hstart : (runStart isIdentifier (takeUnits column line)).getD
      (Text.byteOfColumn line column) = byteLength a := getD_runStart isIdentifier _
  have hstop : ((runStop isIdentifier (dropUnits column line)).map
      (Text.byteOfColumn line column + ·)).getD (byteLength line) =
        byteLength a + byteLength (u ++ v) := by
    have hcursor : Text.byteOfColumn line column = byteLength (a ++ u) := congrArg byteLength hleft
    have hlength : byteLength line =
        Text.byteOfColumn line column + byteLength (dropUnits column line) := by
      rw [Text.byteOfColumn, ← byteLength_append, takeUnits_append_dropUnits]
    rw [hlength, getD_runStop, hcursor, byteLength_append, byteLength_append, Nat.add_assoc]
  obtain ⟨hcut, hcolumn, hcolumn'⟩ := part_ok h hline
  unfold wordAt Text.wordAt
  simp only [byteOfColumn_ok h, ok_bind, cut_beforeColumn, cut_behindColumn, hstart, hstop]
  by_cases hword : u ++ v = []
  · have hlength : byteLength (u ++ v) = 0 := byteLength_eq_zero_iff.mpr hword
    rw [if_pos (by omega), if_pos (List.isEmpty_iff.mpr hword)]
    rfl
  · have hlength : byteLength (u ++ v) ≠ 0 := mt byteLength_eq_zero_iff.mp hword
    rw [if_neg (by omega), if_neg (mt List.isEmpty_iff.mp hword), hcut, ok_bind, hcolumn, ok_bind,
      hcolumn', ok_bind]
    rfl

theorem receiver?_ok (h : byteLength line < countLimit) (word : CursorWord) :
    receiver? line word = .ok (word.receiver? line) := by
  unfold receiver? CursorWord.receiver?
  rw [byteOfColumn_ok h, ok_bind, cut_beforeColumn, ok_bind]
  rcases List.eq_nil_or_concat (takeUnits word.start line) with hleft | ⟨name, c, hleft⟩
  · rw [hleft]
    rfl
  · rw [hleft, List.concat_eq_append, List.getLast?_concat, List.dropLast_concat,
      List.reverse_append, List.reverse_singleton, List.singleton_append]
    by_cases hc : c = '.'
    · subst hc
      have hcut : cut name (byteLength (beforeTailRun isIdentifier name)) (byteLength name) =
          .ok (tailRun isIdentifier name) := by
        have h := cut_rest (beforeTailRun isIdentifier name) (tailRun isIdentifier name)
        rwa [beforeTailRun_append_tailRun] at h
      rw [if_pos rfl, runStart_eq]
      change _ = Except.ok (if (tailRun isIdentifier name).isEmpty then none
        else some (String.ofList (tailRun isIdentifier name)))
      cases htail : tailRun isIdentifier name with
      | nil => rfl
      | cons d run =>
        rw [htail] at hcut
        dsimp only [List.head?_cons, Option.map_some]
        rw [hcut]
        rfl
    · rw [if_neg fun h => hc (Option.some.inj h)]
      split
      next heq => exact absurd (List.cons.inj heq).1 hc
      next => rfl

theorem isCalled_ok (h : byteLength line < countLimit) (word : CursorWord) :
    isCalled line word = .ok (word.isCalled line) := by
  rw [isCalled, byteOfColumn_ok h, ok_bind, cut_behindColumn, ok_bind]
  rfl

/-! ### Occurrences -/

theorem standingAlone_matchesFrom {word passed rest : List Char} {covered : Nat} :
    standingAlone (passed ++ rest) (matchesFrom word covered (byteLength passed) rest) =
      .ok (occurrencesFrom word covered passed.getLast? (byteLength passed) rest) := by
  induction rest generalizing passed covered with
  | nil => rfl
  | cons c rest ih =>
    have hlast : (passed ++ [c]).getLast? = some c := List.getLast?_concat
    have hlength : byteLength (passed ++ [c]) = byteLength passed + c.utf8Size :=
      byteLength_append _ _
    have ih := fun covered => @ih (passed ++ [c]) covered
    rw [hlast, hlength, List.append_assoc, List.singleton_append] at ih
    cases covered with
    | succ covered =>
      rw [matchesFrom, occurrencesFrom]
      exact ih covered
    | zero =>
      rw [matchesFrom, occurrencesFrom]
      by_cases hprefix : word.isPrefixOf (c :: rest) = true
      · obtain ⟨b, hb⟩ := List.isPrefixOf_iff_prefix.mp hprefix
        have hleft : cut (passed ++ c :: rest) 0 (byteLength passed) = .ok passed :=
          cut_start (List.prefix_append _ _)
        have hright : cut (passed ++ c :: rest) (byteLength passed + byteLength word)
            (byteLength (passed ++ c :: rest)) = .ok b := by
          rw [← hb, ← List.append_assoc, ← byteLength_append]
          exact cut_rest _ b
        have hdrop : (c :: rest).drop word.length = b := by
          rw [← hb, List.drop_left]
        rw [if_pos hprefix, if_pos hprefix, hdrop, standingAlone]
        simp only [hleft, hright, ok_bind, ih]
        split <;> rfl
      · rw [if_neg hprefix, if_neg hprefix]
        exact ih 0

theorem occurrences_ok (text word : List Char) :
    occurrences text word = .ok (Text.occurrences text word) := by
  unfold occurrences Text.occurrences
  split
  · rfl
  · exact @standingAlone_matchesFrom word [] text 0

end UtsInsight.Checked
