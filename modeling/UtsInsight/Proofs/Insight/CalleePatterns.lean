import UtsInsight.Proofs.Insight.Arguments

/-!
# Callees as patterns find them

Two readers look for the callee of a call at the end of a text, each with a pattern of its own. The
pattern of completion has the parenthesis in it and captures the receiver apart from the name,
`(?:([\w$]+)\.)?([\w$]+)\($`. That of the help with a call captures both as one, and blanks may stand
behind them, `((?:[\w$]+\.)?[\w$]+)\s*$`. What a pattern captures is decided by the match that begins
as far to the left as any, and each reader gives exactly that.
-/
namespace UtsInsight.Insight

open Text

/-! ### Matches at the end of a text -/

/-- A match of a pattern that reaches to the end of a text, and no match that does begins further to
the left. The pattern relates what it captures to the text that it matches. -/
structure IsLeftmostAtEnd {α : Type} (pattern : α → List Char → Prop) (text found : List Char)
    (captured : α) : Prop where
  isSuffix : found <:+ text
  isMatch : pattern captured found
  leftmost : ∀ captured' other, other <:+ text → pattern captured' other →
    other.length ≤ found.length

/-- There is one such match, so if a match decides what is captured, so does the text. -/
theorem IsLeftmostAtEnd.captured_eq {α : Type} {pattern : α → List Char → Prop}
    {text found found' : List Char} {a a' : α} (h : IsLeftmostAtEnd pattern text found a)
    (h' : IsLeftmostAtEnd pattern text found' a')
    (hpattern : ∀ {a a' : α} {t : List Char}, pattern a t → pattern a' t → a = a') : a = a' := by
  have hle := h.leftmost a' found' h'.isSuffix h'.isMatch
  have hle' := h'.leftmost a found h.isSuffix h.isMatch
  have heq := (List.suffix_of_suffix_length_le h'.isSuffix h.isSuffix hle).eq_of_length_le hle'
  exact hpattern h.isMatch (heq ▸ h'.isMatch)

/-- If a reader gives only what leftmost matches capture, and gives something wherever there is a
match, it gives exactly what they capture. -/
theorem reads_iff_leftmost {α : Type} {pattern : α → List Char → Prop}
    (hpattern : ∀ {a a' : α} {t : List Char}, pattern a t → pattern a' t → a = a')
    {reads : List Char → α → Prop}
    (hsound : ∀ {text a}, reads text a → ∃ found, IsLeftmostAtEnd pattern text found a)
    (hreads : ∀ {a found} before, pattern a found → ∃ a', reads (before ++ found) a')
    {text : List Char} {a : α} :
    reads text a ↔ ∃ found, IsLeftmostAtEnd pattern text found a := by
  refine ⟨hsound, fun ⟨found, hfound⟩ => ?_⟩
  obtain ⟨before, rfl⟩ := hfound.isSuffix
  obtain ⟨a', ha'⟩ := hreads before hfound.isMatch
  obtain ⟨found', hfound'⟩ := hsound ha'
  rwa [hfound.captured_eq hfound' hpattern]

/-- The pattern of an opened call, which captures the receiver, if there is one, and the name. -/
inductive OpensCall : Option String × String → List Char → Prop
  | bare {name : List Char} : IsNameRun name →
      OpensCall (none, String.ofList name) (name ++ ['('])
  | qualified {receiver name : List Char} : IsNameRun receiver → IsNameRun name →
      OpensCall (some (String.ofList receiver), String.ofList name)
        (receiver ++ '.' :: name ++ ['('])

/-- The pattern of a callee with blanks behind it, which captures the callee. -/
inductive EndsInCallee : String → List Char → Prop
  | intro {callee blanks : List Char} : IsCallee callee → (∀ c ∈ blanks, isBlank c = true) →
      EndsInCallee (String.ofList callee) (callee ++ blanks)

/-- A callee that reaches as far to the left as it can: with any of the text before it, it would be
none. -/
structure IsLongestCallee (before callee : List Char) : Prop where
  isCallee : IsCallee callee
  longest : ∀ a b, before = a ++ b → b ≠ [] → ¬ IsCallee (b ++ callee)

/-- A callee is longest if no callee at the end of the text is longer. -/
theorem isLongestCallee_iff {before callee : List Char} : IsLongestCallee before callee ↔
    IsCallee callee ∧ ∀ other, IsCallee other → other <:+ before ++ callee →
      other.length ≤ callee.length := by
  constructor
  · rintro ⟨hcallee, hlongest⟩
    refine ⟨hcallee, fun other hother hsuffix => ?_⟩
    by_contra hlonger
    obtain ⟨b, rfl⟩ := List.suffix_of_suffix_length_le (List.suffix_append before callee) hsuffix
      (Nat.le_of_not_le hlonger)
    obtain ⟨a, ha⟩ := hsuffix
    rw [← List.append_assoc] at ha
    refine hlongest a b (List.append_cancel_right ha).symm ?_ hother
    rintro rfl
    exact hlonger (Nat.le_refl _)
  · rintro ⟨hcallee, hlongest⟩
    refine ⟨hcallee, fun a b hsplit hb hother => ?_⟩
    have hsuffix : b ++ callee <:+ before ++ callee := ⟨a, by rw [hsplit, List.append_assoc]⟩
    have hlength := hlongest _ hother hsuffix
    rw [List.length_append] at hlength
    have hpos := List.length_pos_iff.mpr hb
    omega

section

variable {before name receiver : List Char}

theorem IsNameRun.dot_notMem (h : IsNameRun name) : '.' ∉ name := fun hdot =>
  absurd (h.2 '.' hdot) (by decide)

/-- What ends where no name does is not made of characters of names. -/
theorem exists_not_isNamePart (hbefore : before.getLast?.any isNamePart = false) {a b : List Char}
    (hsplit : before = a ++ b) (hb : b ≠ []) : ∃ c ∈ b, isNamePart c = false := by
  refine ⟨b.getLast hb, List.getLast_mem hb, ?_⟩
  rw [hsplit, List.getLast?_append_of_ne_nil a hb, List.getLast?_eq_some_getLast hb] at hbefore
  exact hbefore

/-- A name is a longest callee if what stands before it is neither more of the name nor a receiver. -/
theorem isLongestCallee_bare (hname : IsNameRun name)
    (hbefore : before.getLast?.any isNamePart = false)
    (hreceiver : ∀ a r, before = a ++ (r ++ ['.']) → ¬ IsNameRun r) :
    IsLongestCallee before name where
  isCallee := .bare hname
  longest a b hsplit hb hcallee := by
    obtain ⟨c, hc, hpart⟩ := exists_not_isNamePart hbefore hsplit hb
    generalize htext : b ++ name = text at hcallee
    cases hcallee with
    | bare hlonger =>
      subst htext
      exact Bool.false_ne_true (hpart ▸ hlonger.2 c (List.mem_append_left name hc))
    | @qualified r n hr hn =>
      rcases List.append_eq_append_iff.mp htext with ⟨y, -, hy⟩ | ⟨y, hb', hy⟩
      · -- the dot would be in the name
        exact hname.dot_notMem (hy ▸ List.mem_append_right y List.mem_cons_self)
      · cases y with
        | nil =>
          rw [List.nil_append] at hy
          exact hname.dot_notMem (hy ▸ List.mem_cons_self)
        | cons d y =>
          obtain ⟨rfl, rfl⟩ := List.cons.inj hy
          by_cases hy : y = []
          · subst hy
            exact hreceiver a r (hsplit.trans (congrArg (a ++ ·) hb')) hr
          · have hsplit' : before = (a ++ (r ++ ['.'])) ++ y := by
              rw [hsplit, hb']
              simp
            obtain ⟨d, hd, hpart⟩ := exists_not_isNamePart hbefore hsplit' hy
            exact Bool.false_ne_true (hpart ▸ hn.2 d (List.mem_append_left name hd))

/-- A name with a receiver is a longest callee if what stands before it is not more of the receiver.
-/
theorem isLongestCallee_qualified (hreceiver : IsNameRun receiver) (hname : IsNameRun name)
    (hbefore : before.getLast?.any isNamePart = false) :
    IsLongestCallee before (receiver ++ '.' :: name) where
  isCallee := .qualified hreceiver hname
  longest a b hsplit hb hcallee := by
    obtain ⟨c, hc, hpart⟩ := exists_not_isNamePart hbefore hsplit hb
    generalize htext : b ++ (receiver ++ '.' :: name) = text at hcallee
    cases hcallee with
    | bare hlonger =>
      subst htext
      exact Bool.false_ne_true (hpart ▸ hlonger.2 c (List.mem_append_left _ hc))
    | @qualified r n hr hn =>
      rw [← List.append_assoc, eq_comm,
        List.append_cons_inj_of_notMem hr.dot_notMem hn.dot_notMem] at htext
      obtain ⟨rfl, -, -⟩ := htext
      exact Bool.false_ne_true (hpart ▸ hr.2 c (List.mem_append_left receiver hc))

end

/-- The name before a dot at the end of a text. -/
def receiverAtEnd? (before : List Char) : Option String :=
  match before.reverse with
  | '.' :: rest =>
    let name := (rest.takeWhile isNamePart).reverse
    if name.isEmpty then none else some (String.ofList name)
  | _ => none

section

variable {before name cs : List Char} {receiver : Option String} {callee : String}

theorem isNameRun_tailRun (h : ¬(tailRun isNamePart cs).isEmpty) :
    IsNameRun (tailRun isNamePart cs) :=
  ⟨mt List.isEmpty_iff.mpr h, fun _ => of_mem_tailRun⟩

theorem receiverAtEnd?_dot (left : List Char) :
    receiverAtEnd? (left ++ ['.']) = if (tailRun isNamePart left).isEmpty then none
      else some (String.ofList (tailRun isNamePart left)) := by
  unfold receiverAtEnd?
  rw [List.reverse_concat]
  rfl

/-- A receiver at the end of a text reaches as far to the left as it can. -/
theorem exists_of_receiverAtEnd? {receiver : String} (h : receiverAtEnd? before = some receiver) :
    ∃ rest r, before = rest ++ (r ++ ['.']) ∧ receiver = String.ofList r ∧ IsNameRun r ∧
      rest.getLast?.any isNamePart = false := by
  have hdot : before.getLast? = some '.' := by
    unfold receiverAtEnd? at h
    split at h
    next rest hrest => rw [List.getLast?_eq_head?_reverse, hrest, List.head?_cons]
    next => cases h
  have hsplit := List.dropLast_append_getLast? '.' hdot
  rw [← hsplit, receiverAtEnd?_dot] at h
  split_ifs at h with hempty
  refine ⟨beforeTailRun isNamePart before.dropLast, tailRun isNamePart before.dropLast, ?_,
    (Option.some.inj h).symm, isNameRun_tailRun hempty, getLast?_beforeTailRun_any _ _⟩
  rw [← List.append_assoc, beforeTailRun_append_tailRun, hsplit]

theorem not_isNameRun_of_receiverAtEnd? (h : receiverAtEnd? before = none) (a r : List Char)
    (hsplit : before = a ++ (r ++ ['.'])) : ¬ IsNameRun r := by
  intro hr
  rw [hsplit, ← List.append_assoc, receiverAtEnd?_dot] at h
  split_ifs at h with hempty
  have hlast := tailRun_eq_nil_iff.mp (List.isEmpty_iff.mp hempty)
  obtain ⟨c, hc, hpart⟩ := exists_not_isNamePart hlast rfl hr.1
  exact Bool.false_ne_true (hpart ▸ hr.2 c hc)

/-- A name with the receiver before it is the longest callee at the end of a text. -/
theorem exists_longestCallee_of_name (hname : IsNameRun name)
    (hbefore : before.getLast?.any isNamePart = false)
    (hreceiver : receiverAtEnd? before = receiver) :
    ∃ rest, before ++ name = rest ++ (qualified receiver (String.ofList name)).toList ∧
      IsLongestCallee rest (qualified receiver (String.ofList name)).toList ∧
      OpensCall (receiver, String.ofList name)
        ((qualified receiver (String.ofList name)).toList ++ ['(']) := by
  cases receiver with
  | none =>
    rw [qualified, String.toList_ofList]
    exact ⟨before, rfl,
      isLongestCallee_bare hname hbefore (not_isNameRun_of_receiverAtEnd? hreceiver), .bare hname⟩
  | some receiver =>
    obtain ⟨rest, r, rfl, rfl, hr, hrest⟩ := exists_of_receiverAtEnd? hreceiver
    have hqualified : (qualified (some (String.ofList r)) (String.ofList name)).toList =
        r ++ '.' :: name := by
      simp [qualified]
    rw [hqualified]
    exact ⟨rest, by simp, isLongestCallee_qualified hr hname hrest, .qualified hr hname⟩

/-- The name at the end of a text, with its receiver, is the longest callee there. -/
theorem exists_longestCallee (h : nameAtEnd? cs = some (receiver, callee)) :
    ∃ before, cs = before ++ (qualified receiver callee).toList ∧
      IsLongestCallee before (qualified receiver callee).toList ∧
      OpensCall (receiver, callee) ((qualified receiver callee).toList ++ ['(']) := by
  have hresult : nameAtEnd? cs = if (tailRun isNamePart cs).isEmpty then none
      else some (receiverAtEnd? (beforeTailRun isNamePart cs),
        String.ofList (tailRun isNamePart cs)) := rfl
  rw [hresult] at h
  split_ifs at h with hempty
  obtain ⟨hreceiver, rfl⟩ := Prod.mk.inj (Option.some.inj h)
  have hlongest := exists_longestCallee_of_name (isNameRun_tailRun hempty)
    (getLast?_beforeTailRun_any isNamePart cs) hreceiver
  rwa [beforeTailRun_append_tailRun] at hlongest

/-- Behind a callee there is a name. -/
theorem exists_nameAtEnd? {text : List Char} (h : IsCallee text) (before : List Char) :
    ∃ receiver callee, nameAtEnd? (before ++ text) = some (receiver, callee) := by
  obtain ⟨cs, c, rfl, hc⟩ := h.exists_concat
  have hrun : ¬ (tailRun isNamePart (before ++ (cs ++ [c]))).isEmpty = true := by
    rw [List.isEmpty_iff, tailRun_eq_nil_iff, ← List.append_assoc, List.getLast?_concat,
      Option.any_some, hc]
    exact Bool.noConfusion
  exact ⟨_, _, if_neg hrun⟩

/-! ### The pattern of completion -/

theorem OpensCall.exists_callee {captured : Option String × String} {text : List Char}
    (h : OpensCall captured text) : ∃ callee, text = callee ++ ['('] ∧ IsCallee callee ∧
      Insight.qualified captured.1 captured.2 = String.ofList callee := by
  cases h with
  | @bare name hname => exact ⟨name, rfl, .bare hname, rfl⟩
  | @qualified receiver name hreceiver hname =>
    refine ⟨receiver ++ '.' :: name, rfl, .qualified hreceiver hname, ?_⟩
    simp [Insight.qualified, ← String.toList_inj]

theorem IsCallee.exists_opensCall {text : List Char} (h : IsCallee text) :
    ∃ captured, OpensCall captured (text ++ ['(']) := by
  cases h with
  | bare hname => exact ⟨_, .bare hname⟩
  | qualified hreceiver hname => exact ⟨_, .qualified hreceiver hname⟩

/-- A match decides what is captured, since no name has a dot in it. -/
theorem OpensCall.captured_eq {a a' : Option String × String} {text : List Char}
    (h : OpensCall a text) (h' : OpensCall a' text) : a = a' := by
  cases h with
  | @bare name hname =>
    generalize htext : name ++ ['('] = text at h'
    cases h' with
    | bare hname' => rw [List.append_cancel_right htext]
    | qualified hreceiver' hname' =>
      have hdot := List.append_cancel_right htext ▸ hname.dot_notMem
      exact absurd (List.mem_append_right _ List.mem_cons_self) hdot
  | @qualified receiver name hreceiver hname =>
    generalize htext : receiver ++ '.' :: name ++ ['('] = text at h'
    cases h' with
    | bare hname' =>
      have hdot := List.append_cancel_right htext ▸ hname'.dot_notMem
      exact absurd (List.mem_append_right _ List.mem_cons_self) hdot
    | qualified hreceiver' hname' =>
      have hsplit := List.append_cancel_right htext
      rw [List.append_cons_inj_of_notMem hreceiver.dot_notMem hname.dot_notMem] at hsplit
      rw [hsplit.1, hsplit.2.2]

/-- Right behind a parenthesis a call is completed if a name stands before it. -/
theorem contextAfter_concat (cs : List Char) :
    contextAfter (cs ++ ['(']) = match nameAtEnd? cs with
      | some (receiver, callee) => .call callee receiver
      | none => .default := by
  have htrim : trimEnd (cs ++ ['(']) = cs ++ ['('] := trimEnd_append_cons (by decide) cs []
  unfold contextAfter
  rw [List.reverse_concat, htrim, List.getLast?_concat, List.dropLast_concat]
  rfl

/-- A call is completed right behind the parenthesis that follows a name. -/
theorem exists_of_contextAfter {before : List Char}
    (h : contextAfter before = .call callee receiver) :
    ∃ cs, before = cs ++ ['('] ∧ nameAtEnd? cs = some (receiver, callee) := by
  unfold contextAfter at h
  dsimp only at h
  split at h
  next context hmember =>
    -- behind a dot no call is completed
    split at hmember
    · split at hmember
      · cases hmember
      · rw [← Option.some.inj hmember] at h
        cases h
    · cases hmember
  next =>
    split at h
    · cases h
    split at h
    next hparen =>
      split at h
      next r c hname =>
        obtain ⟨rfl, rfl⟩ := Context.call.inj h
        exact ⟨before.dropLast, (List.dropLast_append_getLast? '(' hparen).symm, hname⟩
      · cases h
    · cases h

/-- A longest callee with the parenthesis behind it is the leftmost match. -/
theorem IsLongestCallee.opensCall {before text : List Char} {captured : Option String × String}
    (h : IsLongestCallee before text) (hopens : OpensCall captured (text ++ ['('])) :
    IsLeftmostAtEnd OpensCall (before ++ (text ++ ['('])) (text ++ ['(']) captured := by
  refine ⟨List.suffix_append _ _, hopens, fun captured' other hother hopens' => ?_⟩
  obtain ⟨text', rfl, htext', -⟩ := hopens'.exists_callee
  rw [← List.append_assoc] at hother
  have hle := (isLongestCallee_iff.mp h).2 text' htext' (List.suffix_append_self_iff.mp hother)
  rw [List.length_append, List.length_append]
  exact Nat.add_le_add_right hle _

theorem exists_leftmost_of_contextAfter {before : List Char}
    (h : contextAfter before = .call callee receiver) :
    ∃ found, IsLeftmostAtEnd OpensCall before found (receiver, callee) := by
  obtain ⟨cs, rfl, hname⟩ := exists_of_contextAfter h
  obtain ⟨rest, rfl, hlongest, hopens⟩ := exists_longestCallee hname
  rw [List.append_assoc]
  exact ⟨_, hlongest.opensCall hopens⟩

theorem OpensCall.exists_contextAfter {captured : Option String × String} {text : List Char}
    (h : OpensCall captured text) (before : List Char) :
    ∃ receiver callee, contextAfter (before ++ text) = .call callee receiver := by
  obtain ⟨text, rfl, hcallee, -⟩ := h.exists_callee
  obtain ⟨receiver, callee, hname⟩ := exists_nameAtEnd? hcallee before
  refine ⟨receiver, callee, ?_⟩
  rw [← List.append_assoc, contextAfter_concat, hname]

/-- Completion finds a call exactly as its pattern does: the receiver and the name are those that
the leftmost match captures. -/
theorem contextAfter_eq_call_iff {before : List Char} :
    contextAfter before = .call callee receiver ↔
      ∃ found, IsLeftmostAtEnd OpensCall before found (receiver, callee) :=
  @reads_iff_leftmost _ OpensCall OpensCall.captured_eq
    (fun text captured => contextAfter text = .call captured.2 captured.1)
    exists_leftmost_of_contextAfter
    (fun before h => Prod.exists.mpr (h.exists_contextAfter before)) before (receiver, callee)

/-! ### The pattern of the help with a call -/

theorem IsCallee.getLast?_isBlank {text : List Char} (h : IsCallee text) (before : List Char) :
    (before ++ text).getLast?.any isBlank = false := by
  rw [← trimEnd_eq_self_iff]
  exact trimEnd_append_callee h

theorem EndsInCallee.isCallee {name : String} {text : List Char} (h : EndsInCallee name text) :
    IsCallee name.toList := by
  obtain ⟨hcallee, -⟩ := h
  rwa [String.toList_ofList]

/-- The blanks behind a callee are all that is trimmed. -/
theorem EndsInCallee.trimEnd_append {name : String} {text : List Char} (h : EndsInCallee name text)
    (before : List Char) : trimEnd (before ++ text) = before ++ name.toList := by
  obtain ⟨hcallee, hblanks⟩ := h
  rw [← List.append_assoc, String.toList_ofList]
  exact beforeTailRun_append hblanks (hcallee.getLast?_isBlank before)

theorem EndsInCallee.captured_eq {name name' : String} {text : List Char}
    (h : EndsInCallee name text) (h' : EndsInCallee name' text) : name = name' :=
  String.toList_inj.mp ((h.trimEnd_append []).symm.trans (h'.trimEnd_append []))

/-- A longest callee with the blanks behind it is the leftmost match. -/
theorem IsLongestCallee.endsInCallee {before blanks : List Char} {name : String}
    (h : IsLongestCallee before name.toList) (hblanks : ∀ c ∈ blanks, isBlank c = true) :
    IsLeftmostAtEnd EndsInCallee (before ++ (name.toList ++ blanks)) (name.toList ++ blanks)
      name := by
  have hpattern := EndsInCallee.intro h.isCallee hblanks
  rw [String.ofList_toList] at hpattern
  refine ⟨List.suffix_append _ _, hpattern, fun name' other ⟨before', hother⟩ hpattern' => ?_⟩
  -- without the blanks, the callees of both matches end at the same place
  have htrim := hpattern'.trimEnd_append before'
  rw [hother, hpattern.trimEnd_append] at htrim
  have hle := (isLongestCallee_iff.mp h).2 _ hpattern'.isCallee ⟨before', htrim.symm⟩
  have hlength := congrArg List.length hother
  have htrimmed := congrArg List.length htrim
  rw [List.length_append, List.length_append] at hlength htrimmed
  omega

theorem exists_leftmost_of_calleeAtEnd? {name : String} (h : calleeAtEnd? cs = some name) :
    ∃ found, IsLeftmostAtEnd EndsInCallee cs found name := by
  obtain ⟨⟨receiver, callee⟩, hname, rfl⟩ := Option.map_eq_some_iff.mp h
  obtain ⟨rest, hrest, hlongest, -⟩ := exists_longestCallee hname
  have hcs : trimEnd cs ++ tailRun isBlank cs = cs := beforeTailRun_append_tailRun isBlank cs
  rw [hrest, List.append_assoc] at hcs
  have hfound := hlongest.endsInCallee fun c (hc : c ∈ tailRun isBlank cs) => of_mem_tailRun hc
  exact ⟨_, hcs ▸ hfound⟩

theorem EndsInCallee.exists_calleeAtEnd? {name : String} {text : List Char}
    (h : EndsInCallee name text) (before : List Char) :
    ∃ name', calleeAtEnd? (before ++ text) = some name' := by
  obtain ⟨receiver, callee, hname⟩ := exists_nameAtEnd? h.isCallee before
  refine ⟨qualified receiver callee, ?_⟩
  rw [calleeAtEnd?, h.trimEnd_append, hname, Option.map_some]

/-- The help with a call finds a callee exactly as its pattern does: the callee is what the leftmost
match captures. -/
theorem calleeAtEnd?_eq_some_iff {name : String} :
    calleeAtEnd? cs = some name ↔ ∃ found, IsLeftmostAtEnd EndsInCallee cs found name :=
  @reads_iff_leftmost _ EndsInCallee EndsInCallee.captured_eq
    (fun text name => calleeAtEnd? text = some name) exists_leftmost_of_calleeAtEnd?
    (fun before h => h.exists_calleeAtEnd? before) cs name

end

end UtsInsight.Insight
