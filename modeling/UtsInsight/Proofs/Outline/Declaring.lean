import UtsInsight.Outline.Declaring
import UtsInsight.Proofs.Outline.Keywords

/-!
# Declarations of a given word

A declaration of a given word is looked for without the readers of headers: behind a keyword the gap
is tried from its longest form on, and the word is taken literally. At one place of a line both ways
see the same declarations of a name. They part on a whole line: the search for a word goes past the
declarations of other names, the readers of headers stop at the first of them.
-/
namespace UtsInsight.Outline

open Text

/-- A text opens with the keyword, a gap and the word, and no name goes on behind the word. -/
def DeclaresAt (keyword : String) (word cs : List Char) : Prop :=
  ∃ gap after, gap ≠ [] ∧ (∀ c ∈ gap, isBlank c = true) ∧
    cs = keyword.toList ++ (gap ++ (word ++ after)) ∧ after.head?.any isNamePart = false

section

variable {keyword : String} {keywords : List String} {word cs rest line : List Char}
  {header : Header}

/-! ### The word taken literally -/

theorem endedWord?_isSome :
    (endedWord? word cs).isSome = true ↔
      ∃ after, cs = word ++ after ∧ after.head?.any isNamePart = false := by
  unfold endedWord?
  constructor
  · intro h
    split at h
    next hdrop => exact ⟨[], append_of_dropPrefix? hdrop, rfl⟩
    next c after hdrop =>
      refine ⟨c :: after, append_of_dropPrefix? hdrop, ?_⟩
      cases hc : isNamePart c <;> simp [hc] at h ⊢
    next => cases h
  · rintro ⟨after, rfl, hafter⟩
    rw [dropPrefix?_append]
    cases after with
    | nil => rfl
    | cons c after =>
      have hc : isNamePart c = false := by simpa using hafter
      simp [hc]

theorem gapThen?_isSome {read : List Char → Option (List Char)} :
    (gapThen? read cs).isSome = true ↔
      ∃ gap rest, gap ≠ [] ∧ (∀ c ∈ gap, isBlank c = true) ∧ cs = gap ++ rest ∧
        (read rest).isSome = true := by
  induction cs with
  | nil => simp [gapThen?]
  | cons c cs ih =>
    have hcons : (gapThen? read (c :: cs)).isSome = true ↔
        isBlank c = true ∧ ((gapThen? read cs).isSome = true ∨ (read cs).isSome = true) := by
      cases hc : isBlank c <;> simp [gapThen?, hc]
    rw [hcons, ih]
    constructor
    · rintro ⟨hc, ⟨gap, rest, -, hblank, rfl, hread⟩ | hread⟩
      · exact ⟨c :: gap, rest, by simp, by simpa [hc] using hblank, rfl, hread⟩
      · exact ⟨[c], cs, by simp, by simpa using hc, rfl, hread⟩
    · intro ⟨gap, rest, hne, hblank, heq, hread⟩
      cases gap with
      | nil => exact absurd rfl hne
      | cons d gap =>
        obtain ⟨rfl, rfl⟩ := List.cons.inj heq
        refine ⟨hblank c List.mem_cons_self, ?_⟩
        by_cases hgap : gap = []
        · exact .inr (by simpa [hgap] using hread)
        · exact .inl ⟨gap, rest, hgap, fun e he => hblank e (List.mem_cons_of_mem c he), rfl, hread⟩

theorem declaresAt_iff : DeclaresAt keyword word cs ↔
    ∃ rest, cs = keyword.toList ++ rest ∧ (gapThen? (endedWord? word) rest).isSome = true := by
  simp only [gapThen?_isSome, endedWord?_isSome]
  constructor
  · intro ⟨gap, after, hne, hblank, hcs, hafter⟩
    exact ⟨_, hcs, gap, _, hne, hblank, rfl, after, rfl, hafter⟩
  · intro ⟨rest, hcs, gap, _, hne, hblank, hrest, after, hword, hafter⟩
    exact ⟨gap, after, hne, hblank, by rw [hcs, hrest, hword], hafter⟩

/-- What introduces a word at a place does not depend on how much of the gap is tried first. -/
theorem introduction?_isSome :
    (introduction? keywords word cs).isSome = true ↔
      ∃ keyword ∈ keywords, DeclaresAt keyword word cs := by
  rw [introduction?, List.findSome?_isSome_iff]
  refine exists_congr fun keyword => and_congr_right fun _ => ?_
  rw [declaresAt_iff]
  cases hdrop : dropPrefix? keyword.toList cs with
  | none =>
    have hother : ∀ rest, cs ≠ keyword.toList ++ rest := by
      rintro rest rfl
      rw [dropPrefix?_append] at hdrop
      cases hdrop
    simp [keyword?, hdrop, hother]
  | some rest =>
    cases hgap : gapThen? (endedWord? word) rest <;>
      simp [keyword?, append_of_dropPrefix? hdrop, dropPrefix?_append, hgap]

/-! ### Headers of variables -/

theorem gap?_append {gap : List Char} (hne : gap ≠ []) (hblank : ∀ c ∈ gap, isBlank c = true)
    (hrest : rest.head?.any isBlank = false) : gap? (gap ++ rest) = some (gap, rest) := by
  cases gap with
  | nil => exact absurd rfl hne
  | cons c gap =>
    have hc := hblank c List.mem_cons_self
    rw [List.cons_append, gap?, if_pos hc, ← List.cons_append, blanks_append hblank hrest]

theorem name?_append (hword : IsName word) (hrest : rest.head?.any isNamePart = false) :
    name? (word ++ rest) = some (word, rest) := by
  obtain ⟨c, cs, rfl, hc⟩ := hword.exists_cons
  have hpart : ∀ d ∈ cs, isNamePart d = true := fun d hd => hword.part d (List.mem_cons_of_mem c hd)
  rw [List.cons_append, name?, if_pos hc, takeWhile_append_of_head? hpart hrest,
    dropWhile_append_of_head? hpart hrest]

theorem introduced?_eq_some (hword : IsName word) (h : DeclaresAt keyword word cs) :
    ∃ header rest, introduced? keyword cs = some (header, rest) ∧ header.name = word := by
  obtain ⟨gap, after, hne, hblank, rfl, hafter⟩ := h
  have hhead : (word ++ after).head?.any isBlank = false := by
    obtain ⟨c, cs, rfl, hc⟩ := hword.exists_cons
    simpa using isBlank_of_isNamePart (isNameStart_ascii hc).1
  simp only [introduced?, keyword?, dropPrefix?_append, Option.map_some, Option.bind_eq_bind,
    Option.bind_some, gap?_append hne hblank hhead, name?_append hword hafter]
  exact ⟨_, _, rfl, rfl⟩

theorem declaresAt_of_introduced? (h : introduced? keyword cs = some (header, rest)) :
    DeclaresAt keyword header.name cs := by
  obtain ⟨rfl, hne, hblank, -, hmaximal⟩ := introduced?_spec h
  refine ⟨header.gap, rest, hne, hblank, ?_, hmaximal⟩
  rw [String.toList_ofList]
  exact (introduced?_introduces h).eq

theorem openedVariable?_eq_some (hkeyword : keyword ∈ variableKeywords)
    (h : introduced? keyword cs = some (header, rest)) :
    openedVariable? cs = some (header, rest) := by
  obtain ⟨more, rfl⟩ : ∃ more, cs = keyword.toList ++ more := by
    obtain ⟨gap, after, -, -, hcs, -⟩ := declaresAt_of_introduced? h
    exact ⟨_, hcs⟩
  -- no keyword is a beginning of another one
  have hconst : introduced? "let" ("const".toList ++ more) = none := rfl
  have hvar : introduced? "let" ("var".toList ++ more) = none ∧
      introduced? "const" ("var".toList ++ more) = none := ⟨rfl, rfl⟩
  simp only [variableKeywords, List.mem_cons, List.not_mem_nil, or_false] at hkeyword
  rcases hkeyword with rfl | rfl | rfl
  · rw [openedVariable?, h]
    rfl
  · rw [openedVariable?, hconst, h]
    rfl
  · rw [openedVariable?, hvar.1, hvar.2, h]
    rfl

/-- A header of a variable is a declaration of its name. -/
theorem introduction?_variable (hword : IsName word) :
    (introduction? variableKeywords word cs).isSome = true ↔
      (variableHeader? cs).map (·.name) = some word := by
  have hname := congrArg (Option.map fun p => p.2.2) (variableHeader?_pieces cs)
  simp only [Option.map_map, Function.comp_def] at hname
  rw [introduction?_isSome, hname, Option.map_eq_some_iff]
  constructor
  · intro ⟨keyword, hkeyword, hdeclares⟩
    obtain ⟨header, rest, hintroduced, hname⟩ := introduced?_eq_some hword hdeclares
    exact ⟨(header, rest), openedVariable?_eq_some hkeyword hintroduced, hname⟩
  · intro ⟨⟨header, rest⟩, hopened, hname⟩
    obtain ⟨keyword, hkeyword, hintroduced⟩ := exists_of_openedVariable? hopened
    exact ⟨keyword, hkeyword, hname ▸ declaresAt_of_introduced? hintroduced⟩

/-! ### Whole lines -/

/-- The first header of a variable on a line stands no later than a declaration of a given name, and
at the place of it exactly if it has that name. -/
theorem exists_variable_of_declaring? {bytes : ByteSpan} (hword : IsName word)
    (h : declaring? variableKeywords word line = some (bytes, keyword)) :
    ∃ first header, search variableHeader? line = some (first, header) ∧
      byteLength first ≤ bytes.start ∧ (header.name = word ↔ byteLength first = bytes.start) := by
  obtain ⟨⟨before, found⟩, hsearch, hbytes⟩ := Option.map_eq_some_iff.mp h
  obtain ⟨rfl, -⟩ := Prod.mk.inj hbytes
  obtain ⟨c, rest, rfl, hedge, hread, hleftmost⟩ := exists_first_of_search hsearch
  have hhere : (variableHeader? (c :: rest)).map (·.name) = some word :=
    (introduction?_variable hword).mp (by simp [hread])
  have hsome : search variableHeader? (before ++ c :: rest) ≠ none := by
    intro hnone
    simp [search_eq_none_iff.mp hnone before c rest rfl hedge] at hhere
  obtain ⟨⟨first, header⟩, hfirst⟩ := Option.ne_none_iff_exists'.mp hsome
  obtain ⟨d, more, hsplit, hedge', hread', hleftmost'⟩ := exists_first_of_search hfirst
  have hle : first.length ≤ before.length := by
    by_contra hlt
    simp [hleftmost' before c rest rfl (by omega) hedge] at hhere
  obtain ⟨between, rfl⟩ := List.prefix_of_prefix_length_le ⟨_, hsplit.symm⟩ ⟨_, rfl⟩ hle
  refine ⟨first, header, hfirst, by simp [byteLength_append], ?_⟩
  simp only [byteLength_append, Nat.left_eq_add, byteLength_eq_zero_iff]
  constructor
  · intro hname
    have haccepted : (introduction? variableKeywords word (d :: more)).isSome = true :=
      (introduction?_variable hword).mpr (by simp [hread', hname])
    have hge : (first ++ between).length ≤ first.length := by
      by_contra hlt
      simp [hleftmost first d more hsplit (by omega) hedge'] at haccepted
    rw [List.length_append] at hge
    exact List.eq_nil_of_length_eq_zero (by omega)
  · rintro rfl
    rw [List.append_nil, List.append_cancel_left_eq] at hsplit
    simpa [hsplit, hread'] using hhere

end

end UtsInsight.Outline
