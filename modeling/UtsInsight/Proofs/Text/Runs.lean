import Mathlib.Data.List.Basic
import UtsInsight.Proofs.Text.Lines

/-!
# Maximal runs of identifier characters

The word under a cursor and the occurrences of a word are found by two readers that have nothing in
common: one walks to both sides of a column of a line, the other searches the whole text for literal
matches and drops those that continue an identifier. Both find maximal runs of identifier
characters, and each finds all of them that it can be asked for. A match of an identifier lies inside
one run, so the search from left to right never steps over the beginning of another.
-/
namespace UtsInsight.Text

/-- A maximal run of identifier characters, with what stands before and behind it. -/
structure IsRun (before part after : List Char) : Prop where
  nonempty : part ≠ []
  solid : ∀ c ∈ part, isIdentifier c = true
  before : continuesIdentifier before.getLast? = false
  after : continuesIdentifier after.head? = false

variable {before part after : List Char}

/-! ### Runs and what surrounds them -/

theorem continuesIdentifier_head?_append {a b : List Char}
    (ha : continuesIdentifier a.head? = false) (hb : continuesIdentifier b.head? = false) :
    continuesIdentifier (a ++ b).head? = false := by
  cases a with
  | nil => exact hb
  | cons c a => exact ha

theorem continuesIdentifier_getLast?_append {a b : List Char}
    (ha : continuesIdentifier a.getLast? = false) (hb : continuesIdentifier b.getLast? = false) :
    continuesIdentifier (a ++ b).getLast? = false := by
  rw [List.getLast?_append]
  cases hlast : b.getLast? with
  | none => exact ha
  | some c =>
    rw [hlast] at hb
    exact hb

theorem continuesIdentifier_head?_left {a b : List Char}
    (h : continuesIdentifier (a ++ b).head? = false) : continuesIdentifier a.head? = false := by
  cases a with
  | nil => rfl
  | cons c a => exact h

theorem continuesIdentifier_getLast?_right {a b : List Char}
    (h : continuesIdentifier (a ++ b).getLast? = false) : continuesIdentifier b.getLast? = false := by
  rw [List.getLast?_append] at h
  cases hlast : b.getLast? with
  | none => rfl
  | some c =>
    rw [hlast] at h
    exact h

/-- No identifier continues across a line feed. -/
theorem continuesIdentifier_of_inLine {neighbour : Option Char}
    (h : neighbour.any inLine = false) : continuesIdentifier neighbour = false := by
  cases neighbour with
  | none => rfl
  | some c =>
    obtain rfl : c = '\n' := bne_eq_false_iff_eq.mp h
    decide

theorem IsRun.inLine (h : IsRun before part after) {c : Char} (hc : c ∈ part) :
    Text.inLine c = true := by
  have hsolid := h.solid c hc
  refine bne_iff_ne.mpr ?_
  rintro rfl
  exact absurd hsolid (by decide)

/-- No run starts inside another one or right behind it. -/
theorem IsRun.apart {before' part' after' : List Char} (h : IsRun before part after)
    (h' : IsRun before' part' after')
    (htext : before ++ (part ++ after) = before' ++ (part' ++ after'))
    (hlt : byteLength before < byteLength before') :
    ∃ between ≠ [], before' = before ++ (part ++ between) := by
  -- what stands before the later run does not end in identifier characters
  have hend : ∀ x, x ≠ [] → (∀ c ∈ x, isIdentifier c = true) → before' ≠ before ++ x := by
    rintro x hx hsolid rfl
    have hbefore := h'.before
    rw [List.getLast?_append, List.getLast?_eq_some_getLast hx] at hbefore
    exact Bool.false_ne_true (hbefore.symm.trans (hsolid _ (List.getLast_mem hx)))
  rcases List.append_eq_append_iff.mp htext with ⟨x, hx, hpart⟩ | ⟨x, rfl, -⟩
  · rcases List.append_eq_append_iff.mp hpart with ⟨y, rfl, -⟩ | ⟨y, rfl, -⟩
    · refine ⟨y, ?_, hx⟩
      rintro rfl
      exact hend part h.nonempty h.solid (hx.trans (by rw [List.append_nil]))
    · have hne : x ≠ [] := by
        rintro rfl
        rw [hx, List.append_nil] at hlt
        exact Nat.lt_irrefl _ hlt
      exact absurd hx (hend x hne fun c hc => h.solid c (List.mem_append_left y hc))
  · rw [byteLength_append] at hlt
    exact absurd hlt (Nat.not_lt.mpr (Nat.le_add_right _ _))

/-! ### The word at a column -/

theorem takeUnits_append (a b : List Char) (n : Nat) :
    takeUnits (unitLength a + n) (a ++ b) = a ++ takeUnits n b := by
  induction a with
  | nil => rw [unitLength, Nat.zero_add, List.nil_append, List.nil_append]
  | cons c a ih => rw [unitLength, Nat.add_assoc, List.cons_append, takeUnits_cons, ih,
      List.cons_append]

/-- The column behind a text cuts what follows it off. -/
theorem takeUnits_unitLength (a b : List Char) : takeUnits (unitLength a) (a ++ b) = a := by
  have htake := takeUnits_append a b 0
  rwa [Nat.add_zero, takeUnits_zero, List.append_nil] at htake

/-- A column within the first of two texts cuts nothing off the second. -/
theorem takeUnits_append_of_le {a : List Char} {n : Nat} (h : n ≤ unitLength a) (b : List Char) :
    takeUnits n (a ++ b) = takeUnits n a := by
  induction a generalizing n with
  | nil =>
    obtain rfl := Nat.le_zero.mp h
    rw [takeUnits_zero, takeUnits_zero]
  | cons c a ih =>
    cases n with
    | zero => rw [takeUnits_zero, takeUnits_zero]
    | succ n =>
      rw [unitLength] at h
      rw [List.cons_append, takeUnits, takeUnits, ih (by omega)]

/-- The characters on both sides of a column of a run that stands in a line. -/
theorem units_of_column {column : Nat} (hstart : unitLength before ≤ column)
    (hstop : column ≤ unitLength before + unitLength part) :
    ∃ left right, part = left ++ right ∧
      takeUnits column (before ++ (part ++ after)) = before ++ left ∧
      dropUnits column (before ++ (part ++ after)) = right ++ after := by
  obtain ⟨n, rfl⟩ := Nat.exists_eq_add_of_le hstart
  have htake : takeUnits (unitLength before + n) (before ++ (part ++ after)) =
      before ++ takeUnits n part := by
    rw [takeUnits_append, takeUnits_append_of_le (by omega)]
  refine ⟨takeUnits n part, dropUnits n part, (takeUnits_append_dropUnits n part).symm, htake, ?_⟩
  have hsplit := takeUnits_append_dropUnits (unitLength before + n) (before ++ (part ++ after))
  have hpart := takeUnits_append_dropUnits n part
  rw [htake, List.append_assoc, List.append_cancel_left_eq] at hsplit
  refine List.append_cancel_left (hsplit.trans ?_)
  rw [← List.append_assoc, hpart]

/-- The longest end before a cut and the longest beginning behind it make up a run. -/
theorem isRun_of_ne_nil {left right : List Char}
    (h : tailRun isIdentifier left ++ right.takeWhile isIdentifier ≠ []) :
    IsRun (beforeTailRun isIdentifier left)
      (tailRun isIdentifier left ++ right.takeWhile isIdentifier) (right.dropWhile isIdentifier) where
  nonempty := h
  solid c hc := by
    rcases List.mem_append.mp hc with hc | hc
    · exact of_mem_tailRun hc
    · exact List.mem_takeWhile_imp hc
  before := getLast?_beforeTailRun_any _ _
  after := head?_dropWhile_any _ _

/-- The word at a column is a run that the column cuts, or that begins or ends there. -/
theorem exists_cut_of_wordAt {line : List Char} {column : Nat} {word : CursorWord}
    (h : wordAt line column = some word) :
    ∃ before x y after, takeUnits column line = before ++ x ∧ dropUnits column line = y ++ after ∧
      IsRun before (x ++ y) after ∧
      word = ⟨String.ofList (x ++ y), unitLength before, unitLength before + unitLength (x ++ y)⟩ := by
  unfold wordAt at h
  dsimp only at h
  split at h
  · cases h
  next hword =>
    exact ⟨_, _, _, _, (beforeTailRun_append_tailRun _ _).symm,
      List.takeWhile_append_dropWhile.symm, isRun_of_ne_nil (mt List.isEmpty_iff.mpr hword),
      (Option.some.inj h).symm⟩

theorem exists_run_of_wordAt {line : List Char} {column : Nat} {word : CursorWord}
    (h : wordAt line column = some word) :
    ∃ before part after, line = before ++ (part ++ after) ∧ IsRun before part after ∧
      word = ⟨String.ofList part, unitLength before, unitLength before + unitLength part⟩ := by
  obtain ⟨before, x, y, after, hleft, hright, hrun, hword⟩ := exists_cut_of_wordAt h
  refine ⟨before, x ++ y, after, ?_, hrun, hword⟩
  rw [← takeUnits_append_dropUnits column line, hleft, hright]
  simp only [List.append_assoc]

/-- Every column of a run, both ends included, selects the run. -/
theorem IsRun.wordAt (h : IsRun before part after) {column : Nat}
    (hstart : unitLength before ≤ column) (hstop : column ≤ unitLength before + unitLength part) :
    Text.wordAt (before ++ (part ++ after)) column =
      some ⟨String.ofList part, unitLength before, unitLength before + unitLength part⟩ := by
  obtain ⟨left, right, rfl, htake, hdrop⟩ := @units_of_column before part after column hstart hstop
  have hleft : ∀ c ∈ left, isIdentifier c = true := fun c hc =>
    h.solid c (List.mem_append_left right hc)
  have hright : ∀ c ∈ right, isIdentifier c = true := fun c hc =>
    h.solid c (List.mem_append_right left hc)
  have hne : ¬ (left ++ right).isEmpty = true := mt List.isEmpty_iff.mp h.nonempty
  unfold Text.wordAt
  rw [htake, hdrop]
  simp only [tailRun_append hleft h.before, beforeTailRun_append hleft h.before,
    takeWhile_append_of_head? hright h.after, if_neg hne]

/-! ### Occurrences -/

/-- A run that is the word stands in the rest of a text, at these bytes. -/
def RunIn (word passed rest : List Char) (bytes : ByteSpan) : Prop :=
  ∃ x b, rest = x ++ (word ++ b) ∧ IsRun (passed ++ x) word b ∧
    bytes = ⟨byteLength (passed ++ x), byteLength (passed ++ x) + byteLength word⟩

/-- The run stands at the beginning of the rest, or behind the first character. -/
theorem runIn_cons {word passed rest : List Char} {c : Char} {bytes : ByteSpan} :
    RunIn word passed (c :: rest) bytes ↔
      (∃ b, c :: rest = word ++ b ∧ IsRun passed word b ∧
        bytes = ⟨byteLength passed, byteLength passed + byteLength word⟩) ∨
      RunIn word (passed ++ [c]) rest bytes := by
  constructor
  · rintro ⟨x, b, hrest, hrun, hbytes⟩
    cases x with
    | nil =>
      rw [List.append_nil] at hrun hbytes
      exact .inl ⟨b, hrest, hrun, hbytes⟩
    | cons d x =>
      obtain ⟨rfl, rfl⟩ := List.cons.inj hrest
      rw [List.append_cons] at hrun hbytes
      exact .inr ⟨x, b, rfl, hrun, hbytes⟩
  · rintro (⟨b, hrest, hrun, hbytes⟩ | ⟨x, b, rfl, hrun, hbytes⟩)
    · rw [← List.append_nil passed] at hrun hbytes
      exact ⟨[], b, hrest, hrun, hbytes⟩
    · rw [← List.append_cons] at hrun hbytes
      exact ⟨c :: x, b, rfl, hrun, hbytes⟩

/-- What the search finds in the rest of a text are the runs in it. While a match still covers the
next characters, these continue the identifier of the match, so no run starts among them. -/
theorem mem_occurrencesFrom {word passed rest : List Char} {covered : Nat} {bytes : ByteSpan}
    (hne : word ≠ []) (hsolid : ∀ c ∈ word, isIdentifier c = true)
    (hinside : 0 < covered → continuesIdentifier passed.getLast? = true)
    (hcovered : ∀ c ∈ rest.take covered, isIdentifier c = true) :
    bytes ∈ occurrencesFrom word covered passed.getLast? (byteLength passed) rest ↔
      RunIn word passed rest bytes := by
  induction rest generalizing passed covered with
  | nil =>
    rw [occurrencesFrom]
    refine iff_of_false List.not_mem_nil ?_
    rintro ⟨x, b, hrest, -, -⟩
    have hword := (List.append_eq_nil_iff.mp (List.append_eq_nil_iff.mp hrest.symm).2).1
    exact hne hword
  | cons c rest ih =>
    have hlast : (passed ++ [c]).getLast? = some c := List.getLast?_concat
    have hlength : byteLength (passed ++ [c]) = byteLength passed + c.utf8Size :=
      byteLength_append _ _
    have ih := fun covered => @ih (passed ++ [c]) covered
    rw [hlast, hlength] at ih
    rw [runIn_cons]
    cases covered with
    | succ covered =>
      have hnone : ¬ ∃ b, c :: rest = word ++ b ∧ IsRun passed word b ∧
          bytes = ⟨byteLength passed, byteLength passed + byteLength word⟩ := by
        rintro ⟨b, -, hrun, -⟩
        exact Bool.false_ne_true (hrun.before.symm.trans (hinside (Nat.succ_pos covered)))
      rw [or_iff_right hnone, occurrencesFrom]
      refine ih covered (fun _ => hcovered c List.mem_cons_self) fun d hd => ?_
      exact hcovered d (List.mem_cons_of_mem c hd)
    | zero =>
      rw [occurrencesFrom]
      by_cases hprefix : word.isPrefixOf (c :: rest) = true
      · obtain ⟨b, hb⟩ := List.isPrefixOf_iff_prefix.mp hprefix
        obtain ⟨w, rfl, rfl⟩ : ∃ w, word = c :: w ∧ rest = w ++ b := by
          cases word with
          | nil => exact absurd rfl hne
          | cons d w =>
            obtain ⟨rfl, hrest⟩ := List.cons.inj hb
            exact ⟨w, rfl, hrest.symm⟩
        have hdrop : (c :: (w ++ b)).drop (c :: w).length = b := by
          rw [← List.cons_append, List.drop_left]
        have hlater := ih w.length (fun _ => hsolid c List.mem_cons_self) fun d hd => by
          rw [List.take_left] at hd
          exact hsolid d (List.mem_cons_of_mem c hd)
        rw [if_pos hprefix, hdrop]
        dsimp only
        rw [List.length_cons, Nat.add_sub_cancel]
        split_ifs with hcontinues
        · have hnone : ¬ ∃ b', c :: (w ++ b) = c :: w ++ b' ∧ IsRun passed (c :: w) b' ∧
              bytes = ⟨byteLength passed, byteLength passed + byteLength (c :: w)⟩ := by
            rintro ⟨b', hrest, hrun, -⟩
            have hrest : c :: w ++ b = c :: w ++ b' := hrest
            obtain rfl := List.append_cancel_left hrest
            rw [hrun.before, hrun.after] at hcontinues
            cases hcontinues
          rw [or_iff_right hnone]
          exact hlater
        · have hrun : IsRun passed (c :: w) b := by
            rw [Bool.not_eq_true, Bool.or_eq_false_iff] at hcontinues
            exact ⟨hne, hsolid, hcontinues.1, hcontinues.2⟩
          rw [List.mem_cons, hlater]
          refine or_congr_left ⟨fun hbytes => ⟨b, rfl, hrun, hbytes⟩, ?_⟩
          rintro ⟨_, -, -, hbytes⟩
          exact hbytes
      · have hnone : ¬ ∃ b, c :: rest = word ++ b ∧ IsRun passed word b ∧
            bytes = ⟨byteLength passed, byteLength passed + byteLength word⟩ := by
          rintro ⟨b, hrest, -, -⟩
          exact hprefix (List.isPrefixOf_iff_prefix.mpr ⟨b, hrest.symm⟩)
        rw [or_iff_right hnone, if_neg hprefix]
        exact ih 0 (fun h => absurd h (Nat.lt_irrefl 0)) fun d hd => absurd hd List.not_mem_nil

/-- The occurrences of an identifier are the runs of the text that are the identifier. -/
theorem mem_occurrences {text word : List Char} {bytes : ByteSpan} (hne : word ≠ [])
    (hsolid : ∀ c ∈ word, isIdentifier c = true) :
    bytes ∈ occurrences text word ↔
      ∃ a b, text = a ++ (word ++ b) ∧ IsRun a word b ∧
        bytes = ⟨byteLength a, byteLength a + byteLength word⟩ := by
  rw [occurrences, if_neg (mt List.isEmpty_iff.mp hne)]
  exact @mem_occurrencesFrom word [] text 0 bytes hne hsolid (fun h => absurd h (Nat.lt_irrefl 0))
    fun c hc => absurd hc List.not_mem_nil

/-- The search goes from left to right. -/
theorem le_of_mem_occurrencesFrom {word cs : List Char} {covered offset : Nat}
    {before : Option Char} {bytes : ByteSpan}
    (h : bytes ∈ occurrencesFrom word covered before offset cs) : offset ≤ bytes.start := by
  fun_induction occurrencesFrom word covered before offset cs with
  | case1 => cases h
  | case2 _ _ _ _ _ ih => exact Nat.le_trans (Nat.le_add_right _ _) (ih h)
  | case3 _ _ _ _ _ _ _ ih => exact Nat.le_trans (Nat.le_add_right _ _) (ih h)
  | case4 _ _ _ _ _ _ _ ih =>
    rcases List.mem_cons.mp h with rfl | h
    · exact Nat.le_refl _
    · exact Nat.le_trans (Nat.le_add_right _ _) (ih h)
  | case5 _ _ _ _ _ ih => exact Nat.le_trans (Nat.le_add_right _ _) (ih h)

theorem occurrencesFrom_pairwise (word cs : List Char) (covered offset : Nat)
    (before : Option Char) :
    (occurrencesFrom word covered before offset cs).Pairwise fun s t => s.start < t.start := by
  fun_induction occurrencesFrom word covered before offset cs with
  | case1 => exact List.Pairwise.nil
  | case2 _ _ _ _ _ ih => exact ih
  | case3 _ _ _ _ _ _ _ ih => exact ih
  | case4 before offset c cs _ later _ ih =>
    refine List.pairwise_cons.mpr ⟨fun t ht => ?_, ih⟩
    exact Nat.lt_of_lt_of_le (Nat.lt_add_of_pos_right c.utf8Size_pos) (le_of_mem_occurrencesFrom ht)
  | case5 _ _ _ _ _ ih => exact ih

theorem occurrences_pairwise (text word : List Char) :
    (occurrences text word).Pairwise fun s t => s.start < t.start := by
  unfold occurrences
  split_ifs
  · exact List.Pairwise.nil
  · exact occurrencesFrom_pairwise word text 0 0 none

/-! ### Runs in lines -/

theorem dropReturn_append {a : List Char} (h : a.getLast? ≠ some '\r') (b : List Char) :
    dropReturn (a ++ b) = a ++ dropReturn b := by
  cases hlast : b.getLast? with
  | none =>
    obtain rfl := List.getLast?_eq_none_iff.mp hlast
    rw [List.append_nil, dropReturn, if_neg h]
    exact (List.append_nil a).symm
  | some c =>
    have hne : b ≠ [] := List.ne_nil_of_mem (List.mem_of_getLast? hlast)
    unfold dropReturn
    rw [List.getLast?_append, hlast, Option.some_or, List.dropLast_append_of_ne_nil hne]
    split_ifs <;> rfl

/-- A line is its content and a carriage return at most. -/
theorem exists_of_dropReturn (line : List Char) :
    ∃ end', line = dropReturn line ++ end' ∧ continuesIdentifier end'.head? = false := by
  unfold dropReturn
  split_ifs with hlast
  · exact ⟨['\r'], (List.dropLast_append_getLast? _ hlast).symm, by decide⟩
  · exact ⟨[], (List.append_nil line).symm, rfl⟩

/-- A run of a line without its terminator is a run of the text, at that line and column. -/
theorem IsRun.of_lineAt {text : List Char} {n : Nat}
    (hline : lineAt text n = before ++ (part ++ after)) (h : IsRun before part after) :
    ∃ a b, text = a ++ (part ++ b) ∧ IsRun a part b ∧
      positionAfter a = ⟨n, unitLength before⟩ := by
  unfold Text.lineAt contentLines at hline
  rw [List.getElem?_map] at hline
  cases hl : (lines text)[n]? with
  | none =>
    rw [hl] at hline
    have hnil := List.append_eq_nil_iff.mp hline.symm
    exact absurd (List.append_eq_nil_iff.mp hnil.2).1 h.nonempty
  | some line =>
    rw [hl] at hline
    obtain ⟨far, near, rfl, hbetween⟩ := exists_of_getElem?_lines hl
    obtain ⟨end', hsplit, hend⟩ := exists_of_dropReturn line
    have hcontent : line = before ++ (part ++ (after ++ end')) := by
      rw [hsplit, show dropReturn line = _ from hline]
      simp only [List.append_assoc]
    rw [hcontent] at hbetween ⊢
    refine ⟨far ++ before, after ++ end' ++ near, ?_, ?_, hbetween.positionAfter_append⟩
    · simp only [List.append_assoc]
    · exact ⟨h.nonempty, h.solid,
        continuesIdentifier_getLast?_append (continuesIdentifier_of_inLine hbetween.starts) h.before,
        continuesIdentifier_head?_append (continuesIdentifier_head?_append h.after hend)
          (continuesIdentifier_of_inLine hbetween.ends)⟩

/-- A run of the text is a run of the line of its position. -/
theorem IsRun.lineAt (h : IsRun before part after) :
    ∃ left right, Text.lineAt (before ++ (part ++ after)) (positionAfter before).line =
        left ++ (part ++ right) ∧ IsRun left part right ∧
      (positionAfter before).column = unitLength left ∧
      positionAfter (before ++ part) =
        ⟨(positionAfter before).line, unitLength left + unitLength part⟩ := by
  obtain ⟨far, left, rest, near, rfl, hrest, hbetween⟩ := exists_lineBetween before (part ++ after)
  -- no line ends inside a run
  obtain ⟨right, rfl, rfl⟩ : ∃ right, rest = part ++ right ∧ after = right ++ near := by
    rcases List.append_eq_append_iff.mp hrest with ⟨right, hright, hafter⟩ | ⟨cut, hcut, hnear⟩
    · exact ⟨right, hright, hafter⟩
    · cases cut with
      | nil => exact ⟨[], by rw [hcut]; simp, by rw [hnear]; simp⟩
      | cons c cut =>
        have hends := hbetween.ends
        have hc := h.inLine (hcut ▸ List.mem_append_right rest List.mem_cons_self)
        rw [hnear] at hends
        exact absurd (hc.symm.trans hends) (by decide)
  obtain ⟨end', hsplit, -⟩ := exists_of_dropReturn right
  have hlast : (left ++ part).getLast? ≠ some '\r' := by
    rw [List.getLast?_append, List.getLast?_eq_some_getLast h.nonempty, Option.some_or]
    intro hreturn
    have hsolid := h.solid _ (List.getLast_mem h.nonempty)
    rw [Option.some.inj hreturn] at hsolid
    exact absurd hsolid (by decide)
  have hline : lines (far ++ left ++ (part ++ (right ++ near))) =
      lines (far ++ (left ++ (part ++ right) ++ near)) := by
    simp only [List.append_assoc]
  have hposition : positionAfter (far ++ left ++ part) =
      ⟨(positionAfter (far ++ left)).line, unitLength (left ++ part)⟩ := by
    rw [← List.append_assoc] at hbetween
    rw [List.append_assoc]
    exact hbetween.positionAfter_append
  refine ⟨left, dropReturn right, ?_, ⟨h.nonempty, h.solid, ?_, ?_⟩, ?_, ?_⟩
  · rw [Text.lineAt, contentLines, List.getElem?_map, hline, hbetween.getElem?, ← List.append_assoc]
    exact (dropReturn_append hlast right).trans (List.append_assoc _ _ _)
  · exact continuesIdentifier_getLast?_right h.before
  · have hafter := h.after
    rw [hsplit, List.append_assoc] at hafter
    exact continuesIdentifier_head?_left hafter
  · exact congrArg Position.column hbetween.positionAfter_append
  · rw [hposition, unitLength_append]

end UtsInsight.Text
