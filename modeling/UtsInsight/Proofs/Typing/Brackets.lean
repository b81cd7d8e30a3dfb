import UtsInsight.Proofs.Text.Cutting
import UtsInsight.Proofs.Text.Searching
import UtsInsight.Proofs.Typing.ReturnType

/-!
# Brackets of types

Types are put together from parts with matching brackets and have matching brackets themselves. Two
operations take a type apart. Awaiting a promise takes off the name with the first bracket, and
the last bracket; these two belong together unless the type goes on behind the promise. A call takes
off everything before the return type, and counts the second character of an arrow among the type
parameters as a bracket. In both cases the brackets of what is left match if and only if the right
ones were taken.
-/
namespace UtsInsight

open Text

/-! ### Types that are put together -/

section

variable {types parameters : List String} {s t typeParameters returnType : String}

theorem balanced_unknownType : Balanced unknownType.toList := by
  decide

theorem balanced_getD {type? : Option String} (h : ∀ t ∈ type?, Balanced t.toList) :
    Balanced (type?.getD unknownType).toList := by
  cases type? with
  | some t => exact h t rfl
  | none => exact balanced_unknownType

theorem balanced_append (hs : Balanced s.toList) (ht : Balanced t.toList) :
    Balanced (s ++ t).toList := by
  rw [String.toList_append]
  exact hs.append ht

theorem balanced_intercalate {separator : String} (hseparator : Balanced separator.toList)
    (h : ∀ t ∈ types, Balanced t.toList) : Balanced (separator.intercalate types).toList := by
  rw [String.toList_intercalate]
  apply Balanced.intercalate hseparator
  intro text htext
  obtain ⟨t, ht, rfl⟩ := List.mem_map.mp htext
  exact h t ht

theorem mem_distinct : t ∈ distinct types ↔ t ∈ types := by
  have hfold : ∀ seen : List String,
      t ∈ types.foldl (fun seen t => if seen.contains t then seen else seen ++ [t]) seen ↔
        t ∈ seen ∨ t ∈ types := by
    induction types with
    | nil => simp
    | cons first types ih =>
      intro seen
      rw [List.foldl_cons, ih, List.mem_cons]
      by_cases hseen : first ∈ seen <;> grind
  simpa [distinct] using hfold []

theorem balanced_pair (hs : Balanced s.toList) (ht : Balanced t.toList) :
    ∀ u ∈ [s, t], Balanced u.toList :=
  List.forall_mem_cons.mpr ⟨hs, List.forall_mem_cons.mpr ⟨ht, fun _ h => nomatch h⟩⟩

theorem balanced_unionType (h : ∀ t ∈ types, Balanced t.toList) :
    Balanced (unionType types).toList := by
  unfold unionType
  dsimp only
  split_ifs
  · decide
  · exact balanced_intercalate (by decide) fun t ht => h t (mem_distinct.mp ht)

theorem balanced_arrayOf (h : ∀ t ∈ types, Balanced t.toList) :
    Balanced (arrayOf types).toList := by
  have helement := balanced_unionType h
  unfold arrayOf
  dsimp only
  split_ifs
  · decide
  · have hgroup : Balanced ('(' :: ((unionType types).toList ++ [')'])) :=
      .group rfl helement nofun
    have hsquare : Balanced "[]".toList := by decide
    have hshape := hgroup.append hsquare
    rw [List.cons_append, List.append_assoc] at hshape
    rw [String.toList_append, String.toList_append, List.append_assoc]
    exact hshape
  · exact balanced_append helement (by decide)

/-- An equals sign before the last bracket would make an arrow of it. -/
theorem balanced_promise (h : Balanced t.toList) (hends : t.toList.getLast? ≠ some '=') :
    Balanced ("Promise<" ++ t ++ ">").toList := by
  have hgroup : Balanced ('<' :: (t.toList ++ ['>'])) := .group rfl h fun _ => hends
  have hname : Balanced "Promise".toList := by decide
  have hshape := hname.append hgroup
  rw [String.toList_append, String.toList_append, List.append_assoc]
  exact hshape

theorem balanced_functionType (htypeParameters : Balanced typeParameters.toList)
    (hparameters : ∀ p ∈ parameters, Balanced p.toList) (hreturn : Balanced returnType.toList) :
    Balanced (functionType typeParameters parameters returnType).toList := by
  have hlist : Balanced (", ".intercalate parameters).toList :=
    balanced_intercalate (by decide) hparameters
  have hgroup : Balanced ('(' :: ((", ".intercalate parameters).toList ++ [')'])) :=
    .group rfl hlist nofun
  have harrow : Balanced " => ".toList := by decide
  have hshape := (htypeParameters.append hgroup).append (harrow.append hreturn)
  simp only [functionType, String.toList_append, String.reduceToList, List.append_assoc,
    List.cons_append, List.nil_append] at hshape ⊢
  exact hshape

theorem balanced_sumType (left right : String) : Balanced (sumType left right).toList := by
  unfold sumType
  split_ifs <;> decide

theorem balanced_unaryType (operator : Option String) : Balanced (unaryType operator).toList := by
  unfold unaryType
  split <;> decide

end

variable {a b s t : List Char}

/-! ### Awaiting -/

/-- The type begins with a promise, goes on behind it, and ends in an angle bracket. -/
def Torn (type : List Char) : Prop :=
  ∃ inner rest, type = "Promise<".toList ++ (inner ++ '>' :: rest) ∧ Balanced inner ∧
    EndsBefore '>' inner ∧ rest.getLast? = some '>'

theorem balanced_of_promise {rest : List Char} (h : Balanced ("Promise<".toList ++ rest)) :
    Balanced ('<' :: rest) := by
  have hletter : ∀ {c : Char} {cs : List Char}, closing? c = none → isClosing c = false → c ≠ '=' →
      Balanced (c :: cs) → Balanced cs :=
    fun hopening hclosing hne h => h.of_plain hopening hclosing fun harrow => hne harrow.1
  iterate 7 replace h := hletter (by decide) (by decide) (by decide) h
  exact h

/-- Awaiting leaves matching brackets exactly if the type does not go on behind a promise. -/
theorem balanced_awaitedType {type : String} (h : Balanced type.toList) :
    Balanced (awaitedType type).toList ↔ ¬ Torn type.toList := by
  unfold awaitedType
  cases hdrop : dropPrefix? "Promise<".toList type.toList with
  | none =>
    refine iff_of_true h ?_
    rintro ⟨inner, rest, heq, -⟩
    rw [heq, dropPrefix?_append] at hdrop
    cases hdrop
  | some promised =>
    have htype := append_of_dropPrefix? hdrop
    rw [htype] at h
    obtain ⟨inner, rest, rfl, hinner, hends, hrest⟩ := (balanced_of_promise h).split rfl
    have htorn : Torn type.toList ↔ rest.getLast? = some '>' := by
      constructor
      · rintro ⟨inner', rest', heq, hinner', hends', hlast⟩
        rw [htype, List.append_cancel_left_eq] at heq
        rwa [(closed_unique rfl hinner hends hinner' hends' heq).2]
      · exact fun hlast => ⟨inner, rest, htype, hinner, hends, hlast⟩
    rw [htorn]
    dsimp only
    cases rest with
    | nil =>
      rw [List.getLast?_concat, if_pos rfl, String.toList_ofList, List.dropLast_concat]
      exact iff_of_true hinner nofun
    | cons c rest =>
      have hlast : (inner ++ '>' :: c :: rest).getLast? = (c :: rest).getLast? := by
        rw [List.getLast?_append_cons, List.getLast?_cons_cons]
      rw [hlast]
      split_ifs with hbracket
      · rw [String.toList_ofList, List.dropLast_append_cons, List.dropLast_cons_cons]
        exact iff_of_false (hinner.not_overclosed rfl hends _) fun hnot => hnot hbracket
      · rw [htype]
        exact iff_of_true h hbracket

/-- Awaiting takes off the first and the last bracket, whatever stands between them. -/
theorem awaitedType_promise (t : String) : awaitedType ("Promise<" ++ t ++ ">") = t := by
  have htext : ("Promise<" ++ t ++ ">").toList = "Promise<".toList ++ (t.toList ++ ['>']) := by
    rw [String.toList_append, String.toList_append, List.append_assoc]
    rfl
  rw [awaitedType, htext, dropPrefix?_append]
  dsimp only
  rw [List.getLast?_concat, if_pos rfl, List.dropLast_concat, String.ofList_toList]

/-- The type of an array ends in a square bracket, so awaiting leaves it as it is. -/
theorem awaitedType_arrayOf (types : List String) : awaitedType (arrayOf types) = arrayOf types := by
  have hlast : (arrayOf types).toList.getLast? = some ']' := by
    unfold arrayOf
    dsimp only
    split_ifs
    all_goals
      rw [String.toList_append, List.getLast?_append]
      rfl
  unfold awaitedType
  cases hdrop : dropPrefix? "Promise<".toList (arrayOf types).toList with
  | none => rfl
  | some rest =>
    apply if_neg
    intro hbracket
    rw [append_of_dropPrefix? hdrop, List.getLast?_append, hbracket] at hlast
    cases hlast

/-- The union of the promises of two different types begins and ends like one promise. -/
theorem unionType_promises {s t : String} (h : s ≠ t) :
    unionType ["Promise<" ++ s ++ ">", "Promise<" ++ t ++ ">"] =
      "Promise<" ++ (s ++ "> | Promise<" ++ t) ++ ">" := by
  have hne : "Promise<" ++ t ++ ">" ≠ "Promise<" ++ s ++ ">" := by
    intro heq
    apply h
    rw [← awaitedType_promise s, ← awaitedType_promise t, heq]
  have hknown : ∀ u : String, unknownType ≠ "Promise<" ++ u ++ ">" := by
    intro u heq
    have hchars := congrArg String.toList heq
    rw [String.toList_append, String.toList_append] at hchars
    cases hchars
  have hdistinct : distinct ["Promise<" ++ s ++ ">", "Promise<" ++ t ++ ">"] =
      ["Promise<" ++ s ++ ">", "Promise<" ++ t ++ ">"] := by
    simp [distinct, hne]
  have hcontains : ["Promise<" ++ s ++ ">", "Promise<" ++ t ++ ">"].contains unknownType = false := by
    simp [hknown]
  have hjoined : " | ".intercalate ["Promise<" ++ s ++ ">", "Promise<" ++ t ++ ">"] =
      "Promise<" ++ s ++ ">" ++ " | " ++ ("Promise<" ++ t ++ ">") := by
    simp
  rw [unionType, hdistinct, hcontains, if_neg Bool.false_ne_true, hjoined]
  simp only [String.append_assoc]
  rfl

/-- So awaiting it leaves the brackets between them, which do not match. -/
theorem not_balanced_awaitedType_promises {s t : String} (h : s ≠ t) (hs : Balanced s.toList)
    (hends : s.toList.getLast? ≠ some '=') :
    ¬ Balanced (awaitedType (unionType ["Promise<" ++ s ++ ">", "Promise<" ++ t ++ ">"])).toList := by
  rw [unionType_promises h, awaitedType_promise, String.toList_append, String.toList_append,
    List.append_assoc]
  exact hs.not_overclosed rfl (fun _ => hends) _

/-! ### Calling -/

/-- The type begins with type parameters that have an arrow among them, and a return type is found
all the same. -/
def Misread (type : List Char) : Prop :=
  (∃ inner rest, trim type = '<' :: (inner ++ '>' :: rest) ∧ Balanced inner ∧
    EndsBefore '>' inner ∧ HasArrow inner) ∧ (returnTypeOf type).isSome

theorem afterClosing?_suffix {o c : Char} {n : Nat} {cs rest : List Char}
    (h : afterClosing? o c n cs = some rest) : rest <:+ cs := by
  fun_induction afterClosing? o c n cs with
  | case1 => cases h
  | case2 n cs ih => exact (ih h).trans (List.suffix_cons o cs)
  | case3 => cases h
  | case4 cs =>
    obtain rfl := Option.some.inj h
    exact List.suffix_cons c cs
  | case5 cs _ n ih => exact (ih h).trans (List.suffix_cons c cs)
  | case6 n x cs _ _ ih => exact (ih h).trans (List.suffix_cons x cs)

/-- From where brackets match, the return type is cut out with matching brackets. -/
theorem balanced_returnTypeBehind {text type : List Char} (h : Balanced text)
    (htype : returnTypeBehind text = some type) : Balanced type := by
  unfold returnTypeBehind at htype
  split_ifs at htype with hhead
  obtain ⟨cs, rfl⟩ := List.head?_eq_some_iff.mp hhead
  obtain ⟨inner, rest, rfl, hinner, -, hrest⟩ := h.split (c := ')') rfl
  have hclosed : afterClosing? '(' ')' 0 ('(' :: (inner ++ ')' :: rest)) = some rest := by
    rw [afterClosing?_opening rfl rfl]
    exact (afterClosing?_append rfl _ hinner (fun hc => absurd hc (by decide)) 0).trans
      (afterClosing?_last (by decide))
  rw [hclosed, Option.bind_some] at htype
  obtain ⟨behind, hbehind, rfl⟩ := Option.map_eq_some_iff.mp htype
  have hstart := hrest.trimStart
  rw [append_of_dropPrefix? hbehind] at hstart
  exact balanced_trim_iff.mpr hstart.of_arrow

/-- From inside of type parameters, the return type is cut out with the bracket that closes them. -/
theorem not_balanced_returnTypeBehind {stack type : List Char} (h : Closes stack s)
    (hends : EndsBefore '>' s)
    (htype : returnTypeBehind (trimStart (s ++ '>' :: t)) = some type) : ¬ Balanced type := by
  rw [trimStart_append_cons (by decide)] at htype
  have hcloses := h.trimStart
  have hends' := hends.trimStart
  generalize trimStart s = s at htype hcloses hends'
  unfold returnTypeBehind at htype
  split_ifs at htype with hhead
  cases s with
  | nil => cases hhead
  | cons x s =>
    obtain rfl : x = '(' := Option.some.inj hhead
    obtain ⟨_, left, hopen, hleft⟩ := afterClosing?_within (o := '(') (c := ')') rfl ('>' :: t)
      (hcloses.of_opening rfl) (n := 0) (.inl (by rw [List.count_cons_self]; omega))
    have hsuffix : left <:+ s :=
      (List.suffix_append_self_iff).mp (afterClosing?_suffix hleft)
    rw [List.cons_append, afterClosing?_opening rfl rfl, beq_self_eq_true, if_pos rfl, hleft,
      Option.bind_some] at htype
    obtain ⟨behind, hbehind, rfl⟩ := Option.map_eq_some_iff.mp htype
    rw [balanced_trim_iff]
    have hstart : trimStart (left ++ '>' :: t) = '=' :: '>' :: behind :=
      append_of_dropPrefix? hbehind
    rw [trimStart_append_cons (by decide)] at hstart
    have hleftEnds : EndsBefore '>' (trimStart left) :=
      (hends'.of_cons.of_suffix hsuffix).trimStart
    have hleftCloses := hopen.trimStart
    generalize trimStart left = left at hstart hleftEnds hleftCloses
    rcases left with _ | ⟨y, _ | ⟨z, left⟩⟩
    · cases hstart
    · cases (List.cons.inj hstart).1
      exact absurd rfl (hleftEnds rfl)
    · obtain ⟨rfl, htail⟩ := List.cons.inj hstart
      obtain ⟨rfl, rfl⟩ := List.cons.inj htail
      exact @not_closes_overclosed _ [] _ _ hleftCloses.of_arrow rfl hleftEnds.of_cons.of_cons t

/-- A call leaves matching brackets exactly if no return type is found behind type parameters with an
arrow among them. -/
theorem balanced_returnTypeOrUnknown {type : String} (h : Balanced type.toList) :
    Balanced (returnTypeOrUnknown type).toList ↔ ¬ Misread type.toList := by
  unfold returnTypeOrUnknown Misread
  cases hreturn : returnTypeOf type.toList with
  | none => exact iff_of_true (by decide) fun hmisread => nomatch hmisread.2
  | some found =>
    dsimp only
    rw [String.toList_ofList, Option.isSome_some, and_iff_left rfl]
    rw [returnTypeOf_eq] at hreturn
    have htrim := balanced_trim_iff.mpr h
    generalize trim type.toList = text at hreturn htrim
    by_cases hhead : text.head? = some '<'
    · obtain ⟨cs, rfl⟩ := List.head?_eq_some_iff.mp hhead
      obtain ⟨inner, rest, rfl, hinner, hends, hrest⟩ := htrim.split (c := '>') rfl
      have harrow : (∃ inner' rest', '<' :: (inner ++ '>' :: rest) = '<' :: (inner' ++ '>' :: rest') ∧
          Balanced inner' ∧ EndsBefore '>' inner' ∧ HasArrow inner') ↔ HasArrow inner := by
        constructor
        · rintro ⟨inner', rest', heq, hinner', hends', harrow⟩
          rwa [(closed_unique rfl hinner hends hinner' hends' (List.cons.inj heq).2).1]
        · exact fun harrow => ⟨inner, rest, rfl, hinner, hends, harrow⟩
      rw [harrow]
      rw [if_pos hhead, afterClosing?_opening rfl rfl, beq_self_eq_true, if_pos rfl] at hreturn
      by_cases hin : HasArrow inner
      · obtain ⟨_, left, hleft, hclosed⟩ := afterClosing?_within (o := '<') rfl ('>' :: rest) hinner
          (n := 0) (.inr ⟨rfl, rfl, hin⟩)
        have hsuffix := List.suffix_append_self_iff.mp (afterClosing?_suffix hclosed)
        rw [hclosed, Option.map_some, Option.bind_some] at hreturn
        exact iff_of_false
          (not_balanced_returnTypeBehind hleft (hends.of_suffix hsuffix) hreturn)
          fun hnot => hnot hin
      · have hclosed := (afterClosing?_append (o := '<') rfl ('>' :: rest) hinner (fun _ => hin)
          0).trans (afterClosing?_last (by decide))
        rw [List.count_nil] at hclosed
        rw [hclosed, Option.map_some, Option.bind_some] at hreturn
        exact iff_of_true (balanced_returnTypeBehind hrest.trimStart hreturn) hin
    · rw [if_neg hhead, Option.bind_some] at hreturn
      refine iff_of_true (balanced_returnTypeBehind htrim hreturn) ?_
      rintro ⟨inner, rest, rfl, -⟩
      exact hhead rfl

end UtsInsight
