import UtsInsight.Outline.Entry
import UtsInsight.Proofs.Outline.Edges
import UtsInsight.Proofs.Text.Lines
import UtsInsight.Proofs.Text.Parentheses
import UtsInsight.Proofs.Text.Searching

/-!
# Headers of functions, written and read

A function is declared by its name, its parameters and its return type. Where these are complete
texts, the header that is read from the line is the one that was written: the name ends at the first
parenthesis, the list at the parenthesis that matches it, and the return type at the body. No other
place of the line is taken for a function, because the keyword stands nowhere else.
-/
namespace UtsInsight.Outline

open Text

/-! ### What is written -/

/-- A name that can be declared. -/
structure IsName (name : List Char) : Prop where
  start : name.head?.any isNameStart = true
  part : ∀ c ∈ name, isNamePart c = true

/-- A parameter: its brackets match, parentheses are nested in it at most once, and no comma stands
outside all brackets. -/
structure IsParameter (parameter : List Char) : Prop where
  nonempty : parameter ≠ []
  trimmed : trim parameter = parameter
  matched : Balanced parameter
  shallow : NestsAtMost 1 0 parameter
  single : ∀ a, a ++ [','] <+: parameter → ¬ Balanced a
  noKeyword : ¬ "function".toList <:+: parameter

/-- A return type: an equals sign stands only in an arrow, and no arrow stands at its end. -/
structure IsReturnType (type : List Char) : Prop where
  nonempty : type ≠ []
  trimmed : trim type = type
  noBody : '\x7b' ∉ type
  noEnd : ';' ∉ type
  arrows : ∀ b, '=' :: b <:+ type → b.head? = some '>'
  complete : ¬ "=>".toList <:+ type
  noKeyword : ¬ "function".toList <:+: type

theorem IsName.ne_nil {name : List Char} (h : IsName name) : name ≠ [] := by
  rintro rfl
  exact absurd h.start (by decide)

instance (name : List Char) : Decidable (IsName name) :=
  decidable_of_iff (name.head?.any isNameStart = true ∧ name.all isNamePart = true)
    ⟨fun ⟨start, part⟩ => ⟨start, List.all_eq_true.mp part⟩,
      fun h => ⟨h.start, List.all_eq_true.mpr h.part⟩⟩

instance (parameter : List Char) : Decidable (IsParameter parameter) :=
  decidable_of_iff (parameter ≠ [] ∧ trim parameter = parameter ∧ Balanced parameter ∧
      NestsAtMost 1 0 parameter ∧
      (∀ a ∈ parameter.inits, a ++ [','] <+: parameter → ¬ Balanced a) ∧
      ¬ "function".toList <:+: parameter)
    ⟨fun ⟨nonempty, trimmed, matched, shallow, single, noKeyword⟩ =>
      ⟨nonempty, trimmed, matched, shallow, fun a ha =>
        single a ((List.mem_inits _ _).mpr ((List.prefix_append a _).trans ha)) ha, noKeyword⟩,
    fun h => ⟨h.nonempty, h.trimmed, h.matched, h.shallow, fun a _ => h.single a, h.noKeyword⟩⟩

instance (type : List Char) : Decidable (IsReturnType type) :=
  decidable_of_iff (type ≠ [] ∧ trim type = type ∧ '\x7b' ∉ type ∧ ';' ∉ type ∧
      (∀ b ∈ type.tails, '=' :: b <:+ type → b.head? = some '>') ∧
      ¬ "=>".toList <:+ type ∧ ¬ "function".toList <:+: type)
    ⟨fun ⟨nonempty, trimmed, noBody, noEnd, arrows, complete, noKeyword⟩ =>
      ⟨nonempty, trimmed, noBody, noEnd, fun b hb =>
        arrows b ((List.mem_tails _ _).mpr ((List.suffix_cons _ b).trans hb)) hb, complete,
        noKeyword⟩,
    fun h => ⟨h.nonempty, h.trimmed, h.noBody, h.noEnd, fun b _ => h.arrows b, h.complete,
      h.noKeyword⟩⟩

/-- The text between the parentheses of a list of parameters. -/
def parametersText (parameters : List (List Char)) : List Char :=
  ", ".toList.intercalate parameters

/-- A signature without its keyword. -/
def signatureText (name : List Char) (parameters : List (List Char)) (type : List Char) : List Char :=
  name ++ '(' :: (parametersText parameters ++ ')' :: ':' :: ' ' :: type)

/-- The line that begins a declaration. -/
def declarationLine (name : List Char) (parameters : List (List Char)) (type : List Char) :
    List Char :=
  "function ".toList ++ (signatureText name parameters type ++ " \x7b".toList)

section

variable {name type rest : List Char} {parameters : List (List Char)}

/-! ### Parameters -/

theorem parametersText_cons (p q : List Char) (parameters : List (List Char)) :
    parametersText (p :: q :: parameters) =
      p ++ ',' :: ' ' :: parametersText (q :: parameters) := by
  unfold parametersText
  rw [List.intercalate_cons_cons, List.append_assoc]
  rfl

theorem parametersEnd?_other {c : Char} (hopen : c ≠ '(') (hclose : c ≠ ')') (nested : Bool)
    (cs : List Char) :
    parametersEnd? nested (c :: cs) =
      (parametersEnd? nested cs).map fun p => (c :: p.1, p.2) := by
  rw [parametersEnd?, if_neg hopen, if_neg hclose]

/-- The reader of a list is inside a nested pair exactly if a parenthesis is open. -/
theorem parametersEnd?_closesParens {depth : Nat} {cs : List Char} (h : ClosesParens depth cs)
    (hnests : NestsAtMost 1 depth cs) (rest : List Char) :
    parametersEnd? (decide (0 < depth)) (cs ++ rest) =
      (parametersEnd? false rest).map fun p => (cs ++ p.1, p.2) := by
  induction h with
  | nil => exact (congrFun Option.map_id _).symm
  | @opening depth cs _ ih =>
    have hnests := hnests.opening
    obtain rfl : depth = 0 := Nat.le_zero.mp (Nat.le_of_succ_le_succ hnests.le)
    have ih : parametersEnd? true (cs ++ rest) = _ := ih hnests
    rw [List.cons_append, parametersEnd?, if_pos rfl, if_neg (by decide), ih, Option.map_map]
    rfl
  | @closing depth cs _ ih =>
    obtain rfl : depth = 0 := Nat.le_zero.mp (Nat.le_of_succ_le_succ hnests.le)
    have ih : parametersEnd? false (cs ++ rest) = _ := ih hnests.closing
    rw [List.cons_append, parametersEnd?, if_neg (by decide), if_pos rfl, if_pos (by decide), ih,
      Option.map_map]
    rfl
  | other hopen hclose _ ih =>
    rw [List.cons_append, parametersEnd?_other hopen hclose, ih (hnests.other hopen hclose),
      Option.map_map]
    rfl

/-- The list ends where its parenthesis is closed. -/
theorem parametersEnd?_parametersText (h : ∀ p ∈ parameters, IsParameter p) (rest : List Char) :
    parametersEnd? false (parametersText parameters ++ ')' :: rest) =
      some (parametersText parameters ++ [')'], rest) := by
  induction parameters with
  | nil => rfl
  | cons p parameters ih =>
    have hp := h p List.mem_cons_self
    have hread : ∀ rest, parametersEnd? false (p ++ rest) = _ :=
      parametersEnd?_closesParens hp.matched.closesParens hp.shallow
    have ih := ih fun q hq => h q (List.mem_cons_of_mem p hq)
    cases parameters with
    | nil =>
      rw [parametersText, List.intercalate_singleton, hread]
      rfl
    | cons q parameters =>
      rw [parametersText_cons, List.append_assoc, hread, List.cons_append, List.cons_append,
        parametersEnd?_other (by decide) (by decide), parametersEnd?_other (by decide) (by decide),
        ih, List.append_assoc]
      rfl

/-! ### The return type -/

theorem typeRun_arrow {stop : Char → Bool} {cs : List Char} (h : typeRun stop cs ≠ []) :
    typeRun stop ('=' :: '>' :: cs) = '=' :: '>' :: typeRun stop cs := by
  rw [typeRun]
  split
  · contradiction
  · rfl

theorem typeRun_cons {stop : Char → Bool} {c : Char} {cs : List Char} (hc : c ≠ '=')
    (hstop : stop c = false) (h : typeRun stop cs = [] → isBlank c = false) :
    typeRun stop (c :: cs) = c :: typeRun stop cs := by
  rw [typeRun.eq_2 stop c cs fun _ heq => absurd heq hc, hstop, if_neg Bool.false_ne_true]
  split
  next hnil => rw [h hnil, hnil, if_neg Bool.false_ne_true]
  next => rfl

/-- The blank before the body is no part of a type. -/
theorem typeRun_body {stop : Char → Bool} (hbody : stop '\x7b' = true) (hblank : stop ' ' = false)
    (rest : List Char) : typeRun stop (' ' :: '\x7b' :: rest) = [] := by
  rw [typeRun.eq_2 stop ' ' _ nofun, typeRun.eq_2 stop '\x7b' _ nofun, if_pos hbody, hblank]
  rfl

/-- Every end of a return type is read as it stands before the body, an arrow as a whole. -/
theorem typeRun_suffix {stop : Char → Bool}
    (hstop : ∀ c, stop c = true ↔ c = '\x7b' ∨ c = ';' ∨ c = '=') (h : IsReturnType type)
    (rest cs : List Char) (hcs : cs <:+ type) :
    typeRun stop (cs ++ ' ' :: '\x7b' :: rest) = cs := by
  match cs with
  | [] =>
    refine typeRun_body ((hstop _).mpr (.inl rfl)) (Bool.eq_false_iff.mpr ?_) rest
    rw [Ne, hstop]
    decide
  | c :: cs =>
    have hmem : c ∈ type := hcs.subset List.mem_cons_self
    have htail : cs <:+ type := (List.suffix_cons c cs).trans hcs
    by_cases hc : c = '='
    · subst hc
      obtain ⟨cs, rfl⟩ := List.head?_eq_some_iff.mp (h.arrows cs hcs)
      have hne : cs ≠ [] := by
        rintro rfl
        exact h.complete hcs
      have ih := typeRun_suffix hstop h rest cs ((List.suffix_cons _ _).trans htail)
      rw [List.cons_append, List.cons_append, typeRun_arrow, ih]
      rwa [ih]
    · have ih := typeRun_suffix hstop h rest cs htail
      rw [List.cons_append, typeRun_cons hc, ih]
      · rw [Bool.eq_false_iff, Ne, hstop]
        rintro (rfl | rfl | rfl)
        · exact h.noBody hmem
        · exact h.noEnd hmem
        · exact hc rfl
      · intro hnil
        have hlast := (trim_eq_self_iff.mp h.trimmed).2
        rw [ih] at hnil
        obtain ⟨a, rfl⟩ := hcs
        rwa [hnil, List.getLast?_concat] at hlast
termination_by cs.length

theorem blanks_append {gap : List Char} (hgap : ∀ c ∈ gap, isBlank c = true)
    (hrest : rest.head?.any isBlank = false) : blanks (gap ++ rest) = (gap, rest) := by
  rw [blanks, takeWhile_append_of_head? hgap hrest, dropWhile_append_of_head? hgap hrest]

theorem annotation?_of_run {run : List Char → List Char} {cs after t : List Char}
    (hblanks : blanks cs = ([' '], t ++ after)) (hrun : run (t ++ after) = t) (ht : t ≠ []) :
    annotation? run (':' :: cs) = some ((':' :: ' ' :: t, after), t) := by
  simp only [annotation?, hblanks, hrun]
  cases t with
  | nil => exact absurd rfl ht
  | cons d t =>
    rw [List.drop_left]
    rfl

/-- The return type of a declaration is read up to its body. -/
theorem withReturnType_returnType (h : IsReturnType type) (header : Header) (tail rest : List Char) :
    withReturnType header tail (':' :: ' ' :: (type ++ ' ' :: '\x7b' :: rest)) =
      { header with tail := tail ++ ':' :: ' ' :: type, declaredType := some type } := by
  have hhead : (type ++ ' ' :: '\x7b' :: rest).head?.any isBlank = false := by
    rw [List.head?_append_of_ne_nil _ h.nonempty]
    exact (trim_eq_self_iff.mp h.trimmed).1
  have hblanks : blanks (' ' :: (type ++ ' ' :: '\x7b' :: rest)) =
      ([' '], type ++ ' ' :: '\x7b' :: rest) :=
    blanks_append (List.forall_mem_singleton.mpr rfl) hhead
  have hstop : ∀ c : Char, (c == '\x7b' || c == ';' || c == '=') = true ↔
      c = '\x7b' ∨ c = ';' ∨ c = '=' := fun c => by
    rw [Bool.or_eq_true, Bool.or_eq_true, beq_iff_eq, beq_iff_eq, beq_iff_eq, or_assoc]
  have hrun := typeRun_suffix hstop h rest type List.suffix_rfl
  unfold withReturnType
  rw [annotation?_of_run hblanks hrun h.nonempty]

/-! ### The header -/

/-- The header of a declaration, in its pieces. -/
def writtenHeader (name : List Char) (parameters : List (List Char)) (type : List Char) : Header where
  keyword := "function".toList
  gap := [' ']
  name := name
  tail := '(' :: (parametersText parameters ++ ')' :: ':' :: ' ' :: type)
  declaredType := some type
  initializer := none

/-- Behind the keyword the name reaches up to the parenthesis, if there is one. -/
theorem functionName?_keyword {gap m : List Char} (hgap : ∀ c ∈ gap, isBlank c = true)
    (hm : ∀ c ∈ m, isNamePart c = true) (rest : List Char) :
    functionName? ("function".toList ++ (gap ++ (m ++ '(' :: rest))) =
      if m.head?.any isNameStart then
        some (⟨"function".toList, gap, m, [], none, none⟩, '(' :: rest)
      else none := by
  have hhead : (m ++ '(' :: rest).head?.any isBlank = false ∧
      char? '*' (m ++ '(' :: rest) = none := by
    cases m with
    | nil => exact ⟨rfl, rfl⟩
    | cons c m =>
      have hc := hm c List.mem_cons_self
      refine ⟨isBlank_of_isNamePart hc, if_neg ?_⟩
      rintro rfl
      exact absurd hc (by decide)
  have hempty : blanks (m ++ '(' :: rest) = ([], m ++ '(' :: rest) :=
    @blanks_append (m ++ '(' :: rest) [] (fun c hc => absurd hc List.not_mem_nil) hhead.1
  have hname : name? (m ++ '(' :: rest) =
      if m.head?.any isNameStart then some (m, '(' :: rest) else none := by
    cases m with
    | nil => rfl
    | cons c m =>
      have hm : ∀ c ∈ m, isNamePart c = true := fun d hd => hm d (List.mem_cons_of_mem c hd)
      rw [List.cons_append, name?, takeWhile_append_of_head? hm rfl,
        dropWhile_append_of_head? hm rfl]
      rfl
  unfold functionName? keyword?
  rw [dropPrefix?_append]
  simp only [Option.map_some, Option.bind_eq_bind, Option.bind_some, blanks_append hgap hhead.1,
    hhead.2, Option.getD_none, hempty, hname]
  split
  · rw [Option.bind_some, List.append_nil, List.append_nil]
    rfl
  · rfl

theorem declarationLine_eq (name : List Char) (parameters : List (List Char)) (type : List Char) :
    declarationLine name parameters type =
      "function".toList ++ ([' '] ++ (name ++ '(' :: (parametersText parameters ++
        ')' :: ':' :: ' ' :: (type ++ [' ', '\x7b'])))) := by
  have hkeyword : "function ".toList = "function".toList ++ [' '] := rfl
  have hbody : " \x7b".toList = [' ', '\x7b'] := rfl
  unfold declarationLine signatureText
  rw [hkeyword, hbody]
  simp only [List.append_assoc, List.cons_append]

theorem functionHeader?_declarationLine (hname : IsName name)
    (hparameters : ∀ p ∈ parameters, IsParameter p) (htype : IsReturnType type) :
    functionHeader? (declarationLine name parameters type) =
      some (writtenHeader name parameters type) := by
  have hblank : ∀ c ∈ [' '], isBlank c = true := List.forall_mem_singleton.mpr rfl
  have hopen : ∀ cs, blanks ('(' :: cs) = ([], '(' :: cs) := fun _ => rfl
  have hcolon : ∀ cs, blanks (':' :: cs) = ([], ':' :: cs) := fun _ => rfl
  unfold functionHeader?
  rw [declarationLine_eq, functionName?_keyword hblank hname.part, if_pos hname.start]
  simp only [Option.bind_eq_bind, Option.bind_some, hopen, parameters?,
    parametersEnd?_parametersText hparameters, Option.map_some, hcolon,
    withReturnType_returnType htype]
  have htail : [] ++ '(' :: (parametersText parameters ++ [')']) ++ [] ++ ':' :: ' ' :: type =
      '(' :: (parametersText parameters ++ ')' :: ':' :: ' ' :: type) := by
    rw [List.nil_append, List.append_nil, List.cons_append, List.append_assoc]
    rfl
  rw [htail]
  exact congrArg some rfl

theorem not_infix_parametersText (h : ∀ p ∈ parameters, IsParameter p) :
    ¬ "function".toList <:+: parametersText parameters := by
  induction parameters with
  | nil => decide
  | cons p parameters ih =>
    have hp := (h p List.mem_cons_self).noKeyword
    have ih := ih fun q hq => h q (List.mem_cons_of_mem p hq)
    cases parameters with
    | nil => rwa [parametersText, List.intercalate_singleton]
    | cons q parameters =>
      rw [parametersText_cons]
      exact not_infix_append_cons (by decide) hp
        (not_infix_append_cons (x := []) (by decide) (by decide) ih)

/-- Wherever the keyword stands on the line, a parenthesis follows the name behind it. -/
theorem exists_of_keyword (hname : IsName name)
    (hparameters : ∀ p ∈ parameters, IsParameter p) (htype : IsReturnType type) {a b : List Char}
    (h : declarationLine name parameters type = a ++ ("function".toList ++ b)) :
    ∃ gap m rest, b = gap ++ (m ++ '(' :: rest) ∧ (∀ c ∈ gap, isBlank c = true) ∧
      ∀ c ∈ m, isNamePart c = true := by
  have htail : ¬ "function".toList <:+: parametersText parameters ++
      ')' :: ':' :: ' ' :: (type ++ [' ', '\x7b']) := by
    refine not_infix_append_cons (by decide) (not_infix_parametersText hparameters) ?_
    refine not_infix_append_cons (x := []) (by decide) (by decide) ?_
    refine not_infix_append_cons (x := []) (by decide) (by decide) ?_
    exact not_infix_append_cons (by decide) htype.noKeyword (by decide)
  rw [declarationLine_eq] at h
  -- at the beginning of the line, inside the name, or behind it
  rcases exists_of_append_cons (by decide) h with ⟨t, hkeyword, rfl⟩ | ⟨t, -, hbehind⟩
  · have hlength := congrArg List.length hkeyword
    simp only [List.length_append] at hlength
    obtain rfl : t = [] := List.eq_nil_of_length_eq_zero (by omega)
    exact ⟨[' '], name, _, rfl, List.forall_mem_singleton.mpr rfl, hname.part⟩
  · rcases exists_of_append_cons (by decide) hbehind with ⟨m, hm, rfl⟩ | ⟨u, -, hrest⟩
    · refine ⟨[], m, _, rfl, fun c hc => absurd hc List.not_mem_nil, fun c hc => ?_⟩
      exact hname.part c (hm ▸ List.mem_append_right t (List.mem_append_right _ hc))
    · exact absurd ⟨u, b, by rw [hrest, List.append_assoc]⟩ htail

theorem genericFunctionHeader?_suffix (hname : IsName name)
    (hparameters : ∀ p ∈ parameters, IsParameter p) (htype : IsReturnType type) {cs : List Char}
    (hcs : cs <:+ declarationLine name parameters type) : genericFunctionHeader? cs = none := by
  obtain ⟨a, ha⟩ := hcs
  unfold genericFunctionHeader?
  cases hfound : dropPrefix? "function".toList cs with
  | none =>
    have hnone : functionName? cs = none := by
      rw [functionName?, keyword?, hfound]
      rfl
    rw [hnone]
    rfl
  | some b =>
    obtain rfl := append_of_dropPrefix? hfound
    obtain ⟨gap, m, rest, rfl, hgap, hm⟩ := exists_of_keyword hname hparameters htype ha.symm
    rw [functionName?_keyword hgap hm]
    split <;> rfl

/-! ### The outline -/

theorem search_of_read {α : Type} {read : List Char → Option α} {c : Char} {cs : List Char} {a : α}
    (hc : isWord c = true) (h : read (c :: cs) = some a) : search read (c :: cs) = some ([], a) := by
  unfold search
  rw [searchFrom, hc, h]
  rfl

/-- The header text is the signature behind its keyword. -/
theorem text_writtenHeader (name : List Char) (parameters : List (List Char)) (type : List Char) :
    (writtenHeader name parameters type).text =
      "function ".toList ++ signatureText name parameters type := by
  have hkeyword : "function ".toList = "function".toList ++ [' '] := rfl
  have htext : (writtenHeader name parameters type).text =
      "function".toList ++ [' '] ++ name ++
        '(' :: (parametersText parameters ++ ')' :: ':' :: ' ' :: type) := rfl
  rw [htext, hkeyword, signatureText, List.append_assoc _ name]

theorem signatureText_eq (name : List Char) (parameters : List (List Char)) (type : List Char) :
    signatureText name parameters type =
      (name ++ '(' :: (parametersText parameters ++ [')', ':', ' '])) ++ type := by
  simp only [signatureText, List.append_assoc, List.cons_append, List.nil_append]

theorem getLast?_signatureText (h : IsReturnType type) (cs : List Char) :
    (cs ++ signatureText name parameters type).getLast?.any isBlank = false := by
  rw [signatureText_eq, ← List.append_assoc, List.getLast?_append_of_ne_nil _ h.nonempty]
  exact (trim_eq_self_iff.mp h.trimmed).2

/-- The declaration is found by its name. -/
theorem find?_declarationLine {text : List Char} {more : List (List Char)} (hname : IsName name)
    (hparameters : ∀ p ∈ parameters, IsParameter p) (htype : IsReturnType type)
    (htext : contentLines text = declarationLine name parameters type :: more) :
    ∃ e, find? text (String.ofList name) [.genericFunction, .function] = some e ∧
      e.signature = String.ofList ("function ".toList ++ signatureText name parameters type) := by
  let line := declarationLine name parameters type
  let e := entryOf .function 0 line [] (writtenHeader name parameters type)
  have hgeneric : Rule.entry? ⟨.genericFunction, genericFunctionHeader?⟩ 0 line = none := by
    have hsearch : search genericFunctionHeader? line = none :=
      search_eq_none_iff.mpr fun before c rest hline _ =>
        genericFunctionHeader?_suffix hname hparameters htype ⟨before, hline.symm⟩
    rw [Rule.entry?, hsearch]
    rfl
  have hfunction : Rule.entry? ⟨.function, functionHeader?⟩ 0 line = some e := by
    have hsearch : search functionHeader? line = some ([], writtenHeader name parameters type) :=
      search_of_read (c := 'f') rfl (functionHeader?_declarationLine hname hparameters htype)
    rw [Rule.entry?, hsearch]
    rfl
  obtain ⟨later, hscan⟩ : ∃ later, scanLine 0 line = e :: later := by
    have hcomment : isCommentLine line = false := rfl
    rw [scanLine, if_neg (Bool.eq_false_iff.mp hcomment), rules, List.filterMap_cons, hgeneric]
    dsimp only
    rw [List.filterMap_cons, hfunction]
    exact ⟨_, rfl⟩
  have hcontains : contains (String.ofList name).toList line = true := by
    have hline := (declarationLine_eq name parameters type).symm
    rw [← List.append_assoc, ← List.append_assoc] at hline
    rw [contains_eq_true_iff, String.toList_ofList]
    exact ⟨_, _, hline⟩
  have hhere : (e :: later).find? (fun e => e.name == String.ofList name &&
      [.genericFunction, .function].contains e.kind) = some e :=
    List.find?_cons_of_pos (Bool.and_eq_true_iff.mpr ⟨beq_self_eq_true _, rfl⟩)
  refine ⟨e, ?_, ?_⟩
  · rw [find?, htext, findInLines, if_pos hcontains, hscan, hhere]
  · have htrim : trim ("function ".toList ++ signatureText name parameters type) =
        "function ".toList ++ signatureText name parameters type :=
      trim_eq_self_iff.mpr ⟨rfl, getLast?_signatureText htype _⟩
    exact congrArg String.ofList (congrArg trim (text_writtenHeader _ _ _) |>.trans htrim)

end

end UtsInsight.Outline
