import UtsInsight.Proofs.Typing.Brackets

/-!
# Elements of arrays

The type of an array is that of its elements with a suffix, and a suffix binds stronger than the
operators that join types. So an element type with an operator outside all brackets has to stand in
parentheses, or the suffix applies to its last part only. The type that is printed has no such
operator exactly if the parentheses are there. They are put where the element type has a blank in it:
around every union of different types, but not around one type that is written without a blank.
-/
namespace UtsInsight

namespace Text

variable {stack more a b u v cs : List Char} {o c : Char}

/-! ### Operators outside brackets -/

/-- A bar, an ampersand or an arrow stands in the text outside all brackets. -/
def HasOuterOperator (cs : List Char) : Prop :=
  ∃ a x b, cs = a ++ x :: b ∧ Balanced a ∧ (x = '|' ∨ x = '&' ∨ BeginsArrow x b)

/-- Behind a text that closes its stack, the rest closes what else is to be closed. -/
theorem Closes.of_append (ha : Closes stack a) (h : Closes (stack ++ more) (a ++ b))
    (hends : ∀ c ∈ b.head?, EndsBefore c a) : Closes more b := by
  induction ha with
  | nil => exact h
  | arrow _ ih => exact ih h.of_arrow fun c hc => (hends c hc).of_cons.of_cons
  | opening ho _ ih => exact ih (h.of_opening ho) fun c hc => (hends c hc).of_cons
  | closing hc _ ih =>
    obtain ⟨rest, hrest, h⟩ := h.of_closing hc
    rw [← (List.cons.inj hrest).2] at h
    exact ih h fun c hc => (hends c hc).of_cons
  | @plain _ cs x hopening hclosing harrow _ ih =>
    refine ih (h.of_plain hopening hclosing ?_) fun c hc => (hends c hc).of_cons
    cases b with
    | nil => simpa using harrow
    | cons c b => exact not_beginsArrow_append harrow (hends c rfl)

/-- An operator of two texts in a row is in one of them. -/
theorem hasOuterOperator_append (hu : Balanced u) (hends : ∀ c ∈ v.head?, EndsBefore c u) :
    HasOuterOperator (u ++ v) ↔ HasOuterOperator u ∨ HasOuterOperator v := by
  constructor
  · rintro ⟨a, x, b, heq, ha, hx⟩
    rcases List.append_eq_append_iff.mp heq with ⟨t, rfl, hv⟩ | ⟨t, rfl, hb⟩
    · refine .inr ⟨t, x, b, hv, hu.of_append ha fun c hc => hends c ?_, hx⟩
      cases t with
      | nil => cases hc
      | cons d t => simpa [hv] using hc
    · cases t with
      | nil => exact .inr ⟨[], x, b, hb.symm, .nil, hx⟩
      | cons y t =>
        obtain ⟨rfl, rfl⟩ := List.cons.inj hb
        refine .inl ⟨a, x, t, rfl, ha, hx.imp_right (.imp_right fun harrow => ?_)⟩
        cases t with
        | nil => exact absurd harrow.1 (by simpa using hends '>' harrow.2 rfl)
        | cons z t => exact harrow
  · rintro (⟨a, x, b, rfl, ha, hx⟩ | ⟨a, x, b, rfl, ha, hx⟩)
    · refine ⟨a, x, b ++ v, by simp, ha, hx.imp_right (.imp_right fun harrow => ⟨harrow.1, ?_⟩)⟩
      rw [List.head?_append, harrow.2, Option.some_or]
    · exact ⟨u ++ a, x, b, by simp, hu.append ha, hx⟩

/-- Everything in a pair of brackets is inside of brackets. -/
theorem not_hasOuterOperator_group (ho : closing? o = some c) (h : Balanced u)
    (hends : EndsBefore c u) : ¬ HasOuterOperator (o :: (u ++ [c])) := by
  rintro ⟨a, x, b, heq, ha, hx⟩
  cases a with
  | nil =>
    obtain ⟨rfl, -⟩ := List.cons.inj heq
    rcases hx with rfl | rfl | ⟨rfl, -⟩ <;> cases ho
  | cons y a =>
    obtain ⟨rfl, hrest⟩ := List.cons.inj heq
    obtain ⟨inner, rest, rfl, hinner, hends', -⟩ := ha.split ho
    have hrest : u ++ c :: [] = inner ++ c :: (rest ++ x :: b) := by simpa using hrest
    have hnil := (closed_unique (isClosing_iff.mpr ⟨_, ho⟩) h hends hinner hends' hrest).2
    simp at hnil

theorem HasOuterOperator.exists_mem (h : HasOuterOperator cs) :
    ∃ x ∈ cs, x = '|' ∨ x = '&' ∨ x = '=' := by
  obtain ⟨a, x, b, rfl, -, hx⟩ := h
  exact ⟨x, by simp, hx.imp_right (.imp_right And.left)⟩

/-! ### Blanks between words -/

/-- A character that is not blank is a word of its own or begins the first word of the rest. -/
theorem words_solid (hc : isBlank c = false) (cs : List Char) :
    words (c :: cs) = [c] :: words cs ∨
      ∃ w ws, words cs = w :: ws ∧ words (c :: cs) = (c :: w) :: ws := by
  cases cs with
  | nil => simp [words, hc]
  | cons d cs =>
    cases hrest : words (d :: cs) with
    | nil => simp [words.eq_3, hc, hrest]
    | cons w ws =>
      rw [words.eq_2 c d cs w ws hrest]
      cases hd : isBlank d <;> simp [hc]

theorem isBlank_of_mem_words {w : List Char} (hw : w ∈ words cs) (hc : c ∈ w) :
    isBlank c = false := by
  induction cs generalizing w with
  | nil => simp [words] at hw
  | cons d cs ih =>
    cases hd : isBlank d with
    | true =>
      have hskip : words (d :: cs) = words cs := by
        rw [words.eq_def]
        exact if_pos hd
      exact ih (hskip ▸ hw) hc
    | false =>
      rcases words_solid hd cs with heq | ⟨v, vs, hrest, heq⟩
      · rw [heq] at hw
        rcases List.mem_cons.mp hw with rfl | hw
        · rwa [List.mem_singleton.mp hc]
        · exact ih hw hc
      · rw [heq] at hw
        rcases List.mem_cons.mp hw with rfl | hw
        · rcases List.mem_cons.mp hc with rfl | hc
          · exact hd
          · exact ih (by simp [hrest]) hc
        · exact ih (by simp [hrest, hw]) hc

/-- A text with its words set apart has a blank in it exactly if there are two of them. -/
theorem mem_collapse_iff : ' ' ∈ collapse cs ↔ 2 ≤ (words cs).length := by
  unfold collapse
  have hwords : ∀ w ∈ words cs, ' ' ∉ w := fun w hw hc =>
    absurd (isBlank_of_mem_words hw hc) (by decide)
  match hlist : words cs with
  | [] => simp
  | [w] => simpa using hwords w (by simp [hlist])
  | v :: w :: ws =>
    rw [List.intercalate_cons_cons]
    simp

end Text

open Text

/-! ### Unions -/

section

variable {types elements : List String} {s t : String}

theorem distinct_of_forall_eq (hne : types ≠ []) (h : ∀ s ∈ types, s = t) :
    distinct types = [t] := by
  have hfold : ∀ rest : List String, (∀ s ∈ rest, s = t) →
      rest.foldl (fun seen t => if seen.contains t then seen else seen ++ [t]) [t] = [t] := by
    intro rest hrest
    induction rest with
    | nil => rfl
    | cons s rest ih =>
      obtain ⟨rfl, hrest⟩ := List.forall_mem_cons.mp hrest
      simpa using ih hrest
  cases types with
  | nil => exact absurd rfl hne
  | cons s rest =>
    obtain ⟨rfl, hrest⟩ := List.forall_mem_cons.mp h
    simpa [distinct] using hfold rest hrest

theorem unionType_of_forall_eq (hne : types ≠ []) (h : ∀ s ∈ types, s = t) :
    unionType types = t := by
  by_cases ht : unknownType = t <;>
    simp [unionType, distinct_of_forall_eq hne h, ht]

/-- Only a union of one type has no blank in it, and then all types are that one. -/
theorem eq_unionType (ht : t ∈ types) (hunknown : unionType types ≠ unknownType)
    (hblank : ' ' ∉ (unionType types).toList) : t = unionType types := by
  unfold unionType at hunknown hblank ⊢
  dsimp only at hunknown hblank ⊢
  have hparts : t ∈ distinct types := mem_distinct.mpr ht
  split_ifs at hunknown hblank ⊢
  · exact absurd rfl hunknown
  · match hlist : distinct types with
    | [] => simp [hlist] at hparts
    | [u] => simpa [hlist] using hparts
    | u :: v :: rest => simp [hlist, String.toList_intercalate] at hblank

/-! ### Arrays -/

theorem hasOuterOperator_grouped (h : Balanced t.toList) :
    ¬ HasOuterOperator ("(" ++ t ++ ")[]").toList := by
  have hsplit : ("(" ++ t ++ ")[]").toList = '(' :: (t.toList ++ [')']) ++ '[' :: ([] ++ [']']) := by
    simp
  have hgroup : Balanced ('(' :: (t.toList ++ [')'])) := .group rfl h nofun
  rw [hsplit, hasOuterOperator_append hgroup (by simp [EndsBefore])]
  exact not_or.mpr ⟨not_hasOuterOperator_group rfl h nofun,
    not_hasOuterOperator_group rfl .nil nofun⟩

theorem hasOuterOperator_suffixed (h : Balanced t.toList) :
    HasOuterOperator (t ++ "[]").toList ↔ HasOuterOperator t.toList := by
  have hsplit : (t ++ "[]").toList = t.toList ++ '[' :: ([] ++ [']']) := by simp
  rw [hsplit, hasOuterOperator_append h (by simp [EndsBefore])]
  exact or_iff_left (not_hasOuterOperator_group rfl .nil nofun)

/-- All elements of an array have one type, which is written without a blank. -/
def Unspaced (elements : List String) : Prop :=
  ∃ t, (∀ s ∈ elements, s = t) ∧ ' ' ∉ t.toList

theorem unspaced_iff (hne : elements ≠ [])
    (hoperator : HasOuterOperator (unionType elements).toList) :
    Unspaced elements ↔ ' ' ∉ (unionType elements).toList := by
  have hunknown : unionType elements ≠ unknownType := by
    intro heq
    rw [heq] at hoperator
    have hmem := hoperator.exists_mem
    simp [unknownType] at hmem
  constructor
  · rintro ⟨t, hall, ht⟩
    rwa [unionType_of_forall_eq hne hall]
  · exact fun hblank => ⟨_, fun s hs => eq_unionType hs hunknown hblank, hblank⟩

/-- The type of an array whose elements have an operator outside all brackets. The elements are put in
parentheses, and the suffix applies to all of the type, unless the elements have one type that is
written without a blank: the suffix is then behind the last part of it. An annotation is such a type
if it is written as one word. -/
theorem arrayOf_operator (hne : elements ≠ []) (hbalanced : ∀ t ∈ elements, Balanced t.toList)
    (hoperator : HasOuterOperator (unionType elements).toList) :
    let union := unionType elements
    (arrayOf elements = "(" ++ union ++ ")[]" ↔ ¬ Unspaced elements) ∧
    (¬ HasOuterOperator (arrayOf elements).toList ↔ ¬ Unspaced elements) ∧
    (Unspaced elements → arrayOf elements = union ++ "[]") ∧
    ∀ source, (∀ t ∈ elements, t = String.ofList (collapse source)) →
      (Unspaced elements ↔ (words source).length < 2) := by
  intro union
  have hunion : Balanced union.toList := balanced_unionType hbalanced
  have harray : arrayOf elements =
      if ' ' ∈ union.toList then "(" ++ union ++ ")[]" else union ++ "[]" := by
    simp [arrayOf, hne, union]
  have hne' : union ++ "[]" ≠ "(" ++ union ++ ")[]" := by
    intro heq
    have hlength := congrArg (fun s => s.toList.length) heq
    simp only [String.toList_append, List.length_append, String.reduceToList, List.length_cons,
      List.length_nil] at hlength
    omega
  rw [harray, unspaced_iff hne hoperator]
  refine ⟨?_, ?_, ?_, fun source hsource => ?_⟩
  · split_ifs with hblank <;> simp [union, hblank, hne']
  · split_ifs with hblank
    · simpa [union, hblank] using hasOuterOperator_grouped hunion
    · simpa [union, hblank] using (hasOuterOperator_suffixed hunion).mpr hoperator
  · exact fun hblank => if_neg hblank
  · rw [unionType_of_forall_eq hne hsource, String.toList_ofList, mem_collapse_iff]
    exact Nat.not_le

/-- One annotation in two spellings: only the spaced one is put in parentheses. -/
theorem arrayOf_operator_spacing :
    (HasOuterOperator "string | number".toList ∧ HasOuterOperator "string|number".toList) ∧
    (arrayOf ["string | number"] = "(string | number)[]" ∧
      ¬ HasOuterOperator (arrayOf ["string | number"]).toList) ∧
    (arrayOf ["string|number", "string|number"] = "string|number[]" ∧
      HasOuterOperator (arrayOf ["string|number", "string|number"]).toList) := by
  have hspaced : HasOuterOperator "string | number".toList :=
    ⟨"string ".toList, '|', " number".toList, rfl, by decide, .inl rfl⟩
  have hjoined : HasOuterOperator "string|number".toList :=
    ⟨"string".toList, '|', "number".toList, rfl, by decide, .inl rfl⟩
  have hnot : ¬ Unspaced ["string | number"] := by
    rintro ⟨t, hall, ht⟩
    rw [← hall _ List.mem_cons_self] at ht
    exact ht (by decide)
  have hone : Unspaced ["string|number", "string|number"] := ⟨"string|number", by simp, by decide⟩
  have hsingle : ["string | number"] ≠ [] := by simp
  have hdouble : ["string|number", "string|number"] ≠ [] := by simp
  obtain ⟨hgrouped, happlies, -⟩ := arrayOf_operator hsingle (by decide) hspaced
  obtain ⟨-, happlies', hsuffixed, -⟩ := arrayOf_operator hdouble (by decide) hjoined
  exact ⟨⟨hspaced, hjoined⟩, ⟨hgrouped.mpr hnot, happlies.mpr hnot⟩, hsuffixed hone,
    not_not.mp fun h => happlies'.mp h hone⟩

end

end UtsInsight
