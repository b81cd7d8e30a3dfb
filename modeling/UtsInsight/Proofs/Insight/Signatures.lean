import UtsInsight.Proofs.Insight.Arguments
import UtsInsight.Proofs.Outline.FunctionHeader
import UtsInsight.Proofs.Text.Runs

/-!
# Signatures, declared and shown

Four readers look at a declaration and its call with rules of their own: the one of the declaration
line allows for one nested parenthesis, the one of a signature counts parentheses, the one that
splits a list counts all brackets, and the call is read backwards. For a declaration of complete
texts they agree on where the list and each parameter end, so the help that is shown for a call has
the parameters as they were declared.
-/
namespace UtsInsight.Insight

open Text Outline

/-! ### The list of a signature -/

theorem listEnd?_opening (depth : Nat) (cs : List Char) :
    listEnd? depth ('(' :: cs) = (listEnd? (depth + 1) cs).map ('(' :: ·) :=
  rfl

theorem listEnd?_closing (depth : Nat) (cs : List Char) :
    listEnd? (depth + 1) (')' :: cs) = (listEnd? depth cs).map (')' :: ·) :=
  rfl

theorem listEnd?_other {c : Char} (hopen : c ≠ '(') (hclose : c ≠ ')') (depth : Nat)
    (cs : List Char) : listEnd? depth (c :: cs) = (listEnd? depth cs).map (c :: ·) := by
  rw [listEnd?.eq_def]
  exact (if_neg hopen).trans (if_neg hclose)

/-- A text that closes its parentheses is passed over. -/
theorem listEnd?_closesParens {depth : Nat} {cs : List Char} (h : ClosesParens depth cs)
    (rest : List Char) : listEnd? depth (cs ++ rest) = (listEnd? 0 rest).map (cs ++ ·) := by
  induction h with
  | nil => exact (congrFun Option.map_id _).symm
  | opening _ ih =>
    rw [List.cons_append, listEnd?_opening, ih, Option.map_map]
    rfl
  | closing _ ih =>
    rw [List.cons_append, listEnd?_closing, ih, Option.map_map]
    rfl
  | other hopen hclose _ ih =>
    rw [List.cons_append, listEnd?_other hopen hclose, ih, Option.map_map]
    rfl

theorem listStart?_name {name : List Char} (hname : ∀ c ∈ name, isNamePart c = true)
    (previous : Char) (rest : List Char) :
    listStart? 0 previous (name ++ '(' :: rest) = listEnd? 0 rest := by
  induction name generalizing previous with
  | nil => rfl
  | cons c name ih =>
    have hc : c ≠ '<' ∧ c ≠ '>' ∧ c ≠ '(' := by
      refine ⟨?_, ?_, ?_⟩ <;> (rintro rfl; exact absurd (hname _ List.mem_cons_self) (by decide))
    rw [List.cons_append, listStart?, if_neg hc.1, if_neg (mt And.left hc.2.1),
      if_neg (mt And.left hc.2.2)]
    exact ih (fun d hd => hname d (List.mem_cons_of_mem c hd)) c

/-! ### Parameters of a list -/

section

variable {current rest : List Char}

theorem splitParametersFrom_opening {depth : Int} {o c : Char} (h : closing? o = some c) :
    splitParametersFrom depth current (o :: rest) =
      splitParametersFrom (depth + 1) (o :: current) rest := by
  rcases closing?_eq_some.mp h with ⟨rfl, -⟩ | ⟨rfl, -⟩ | ⟨rfl, -⟩ | ⟨rfl, -⟩ <;> rfl

theorem splitParametersFrom_arrow {depth : Int} :
    splitParametersFrom depth current ('=' :: '>' :: rest) =
      splitParametersFrom depth ('>' :: '=' :: current) rest :=
  rfl

/-- A closing bracket counts where it does not end an arrow. -/
theorem splitParametersFrom_closing {depth : Int} {c : Char} (h : isClosing c = true)
    (harrow : c = '>' → current.head? ≠ some '=') :
    splitParametersFrom depth current (c :: rest) =
      splitParametersFrom (depth - 1) (c :: current) rest := by
  obtain ⟨o, ho⟩ := isClosing_iff.mp h
  rcases closing?_eq_some.mp ho with ⟨-, rfl⟩ | ⟨-, rfl⟩ | ⟨-, rfl⟩ | ⟨-, rfl⟩
  · rfl
  · rfl
  · rfl
  · have hhead : (current.head? == some '=') = false := beq_eq_false_iff_ne.mpr (harrow rfl)
    rw [splitParametersFrom, hhead]
    rfl

theorem splitParametersFrom_comma :
    splitParametersFrom 0 current (',' :: rest) =
      trim current.reverse :: splitParametersFrom 0 [] rest :=
  rfl

theorem splitParametersFrom_plain {depth : Int} {c : Char} (hopening : closing? c = none)
    (hclosing : isClosing c = false) (hcomma : c = ',' → depth ≠ 0) :
    splitParametersFrom depth current (c :: rest) =
      splitParametersFrom depth (c :: current) rest := by
  have hopen : (c == '(' || c == '[' || c == '\x7b' || c == '<') = false := by
    refine Bool.eq_false_iff.mpr fun h => ?_
    simp only [Bool.or_eq_true, beq_iff_eq] at h
    rcases h with ((rfl | rfl) | rfl) | rfl <;> cases hopening
  have harrow : (c == '>' && current.head? == some '=') = false := by
    refine Bool.eq_false_iff.mpr fun h => ?_
    rw [eq_of_beq (Bool.and_eq_true_iff.mp h).1] at hclosing
    cases hclosing
  have hseparates : (c == ',' && depth == 0) = false := by
    refine Bool.eq_false_iff.mpr fun h => ?_
    obtain ⟨hc, hdepth⟩ := Bool.and_eq_true_iff.mp h
    exact hcomma (eq_of_beq hc) (eq_of_beq hdepth)
  rw [splitParametersFrom, hopen, harrow, ← isClosing, hclosing, hseparates]
  rfl

/-- A text that closes its brackets is passed over if no comma stands outside all of them. -/
theorem splitParametersFrom_closes {stack cs : List Char} (h : Closes stack cs)
    (hcomma : ∀ a, a ++ [','] <+: cs → ¬ Closes stack a)
    (hjoin : cs.head? = some '>' → current.head? ≠ some '=') :
    splitParametersFrom stack.length current (cs ++ rest) =
      splitParametersFrom 0 (cs.reverse ++ current) rest := by
  have hbehind : ∀ {c : Char} {cs a : List Char}, a <+: cs → c :: a <+: c :: cs := fun ha =>
    List.cons_prefix_cons.mpr ⟨rfl, ha⟩
  induction h generalizing current with
  | nil => rfl
  | @arrow stack cs _ ih =>
    rw [List.cons_append, List.cons_append, splitParametersFrom_arrow, ih]
    · simp only [List.reverse_cons, List.append_assoc, List.cons_append, List.nil_append]
    · intro a ha hclosed
      exact hcomma ('=' :: '>' :: a) (hbehind (hbehind ha)) (.arrow hclosed)
    · exact fun _ heq => absurd (Option.some.inj heq) (by decide)
  | @opening stack cs o c hc _ ih =>
    have hdepth : (stack.length : Int) + 1 = (c :: stack).length := rfl
    rw [List.cons_append, splitParametersFrom_opening hc, hdepth, ih]
    · simp only [List.reverse_cons, List.append_assoc, List.cons_append, List.nil_append]
    · intro a ha hclosed
      exact hcomma (o :: a) (hbehind ha) (.opening hc hclosed)
    · intro _ heq
      rw [Option.some.inj heq] at hc
      cases hc
  | @closing stack cs c hc _ ih =>
    have hdepth : ((c :: stack).length : Int) - 1 = stack.length := by
      rw [List.length_cons]
      omega
    rw [List.cons_append, splitParametersFrom_closing hc fun h => hjoin (congrArg some h), hdepth, ih]
    · simp only [List.reverse_cons, List.append_assoc, List.cons_append, List.nil_append]
    · intro a ha hclosed
      exact hcomma (c :: a) (hbehind ha) (.closing hc hclosed)
    · intro _ heq
      rw [Option.some.inj heq] at hc
      cases hc
  | @plain stack cs c hopening hclosing harrow _ ih =>
    rw [List.cons_append, splitParametersFrom_plain hopening hclosing, ih]
    · simp only [List.reverse_cons, List.append_assoc, List.cons_append, List.nil_append]
    · intro a ha hclosed
      have hhead : ¬ BeginsArrow c a := by
        rintro ⟨hc, hhead⟩
        obtain ⟨b, rfl⟩ := ha
        exact harrow ⟨hc, by rw [List.append_assoc, List.head?_append, hhead]; rfl⟩
      exact hcomma (c :: a) (hbehind ha) (.plain hopening hclosing hhead hclosed)
    · exact fun hhead heq => harrow ⟨Option.some.inj heq, hhead⟩
    · rintro rfl hzero
      obtain rfl : stack = [] := List.eq_nil_of_length_eq_zero (Int.ofNat_eq_zero.mp hzero)
      exact hcomma [] (hbehind List.nil_prefix) .nil

/-- A parameter is passed over as a whole. A blank that stands before it does not belong to it. -/
theorem splitParametersFrom_parameter {p : List Char} (hp : IsParameter p)
    (hcurrent : current = [] ∨ current = [' ']) :
    trim (p.reverse ++ current).reverse = p ∧
      ∀ rest, splitParametersFrom 0 current (p ++ rest) =
        splitParametersFrom 0 (p.reverse ++ current) rest := by
  constructor
  · rw [List.reverse_append, List.reverse_reverse]
    rcases hcurrent with rfl | rfl
    · exact hp.trimmed
    · exact (trim_blank rfl p).trans hp.trimmed
  · intro rest
    have hjoin : p.head? = some '>' → current.head? ≠ some '=' := fun hhead =>
      absurd hhead hp.matched.head_ne
    exact splitParametersFrom_closes hp.matched hp.single hjoin

theorem splitParametersFrom_parametersText {p : List Char} {parameters : List (List Char)}
    (h : ∀ q ∈ p :: parameters, IsParameter q) (hcurrent : current = [] ∨ current = [' ']) :
    splitParametersFrom 0 current (parametersText (p :: parameters)) = p :: parameters := by
  induction parameters generalizing p current with
  | nil =>
    have hp := h p List.mem_cons_self
    obtain ⟨htrim, hread⟩ := splitParametersFrom_parameter hp hcurrent
    have htext : parametersText [p] = p ++ [] := by
      rw [parametersText, List.intercalate_singleton, List.append_nil]
    rw [htext, hread, splitParametersFrom, htrim]
    exact if_neg (mt List.isEmpty_iff.mp hp.nonempty)
  | cons q parameters ih =>
    obtain ⟨htrim, hread⟩ := splitParametersFrom_parameter (h p List.mem_cons_self) hcurrent
    have hblank : splitParametersFrom 0 [] (' ' :: parametersText (q :: parameters)) =
        splitParametersFrom 0 [' '] (parametersText (q :: parameters)) :=
      splitParametersFrom_plain rfl rfl fun hcomma => absurd hcomma (by decide)
    rw [parametersText_cons, hread, splitParametersFrom_comma, htrim, hblank,
      ih (fun r hr => h r (List.mem_cons_of_mem p hr)) (.inr rfl)]

end

/-! ### The signature -/

theorem parameterList?_signatureText {name type : List Char} {parameters : List (List Char)}
    (hname : ∀ c ∈ name, isNamePart c = true) (hparameters : ∀ p ∈ parameters, IsParameter p) :
    parameterList? (signatureText name parameters type) = some (parametersText parameters) := by
  have hbalanced : Balanced (parametersText parameters) :=
    Balanced.intercalate (closes_sound rfl) fun p hp => (hparameters p hp).matched
  have hread : ∀ rest, listEnd? 0 (parametersText parameters ++ rest) = _ :=
    listEnd?_closesParens hbalanced.closesParens
  rw [parameterList?, signatureText, listStart?_name hname, hread]
  exact congrArg some (List.append_nil _)

/-- A name without a dot is its own last name. -/
theorem lastName_name {name : List Char} (h : ∀ c ∈ name, isNamePart c = true) :
    lastName (String.ofList name) = String.ofList name := by
  have hdot : ∀ c ∈ name, (c != '.') = true := by
    intro c hc
    refine bne_iff_ne.mpr ?_
    rintro rfl
    exact absurd (h _ hc) (by decide)
  have hrun : tailRun (· != '.') name = name := tailRun_append (a := []) hdot rfl
  rw [lastName, String.toList_ofList, hrun]

theorem splitParameters_parametersText {parameters : List (List Char)}
    (h : ∀ p ∈ parameters, IsParameter p) :
    splitParameters (parametersText parameters) = parameters := by
  cases parameters with
  | nil => rfl
  | cons p parameters => exact splitParametersFrom_parametersText h (.inl rfl)

theorem documentSignature?_declarationLine {text name type : List Char}
    {parameters more : List (List Char)} (hname : IsName name)
    (hparameters : ∀ p ∈ parameters, IsParameter p) (htype : IsReturnType type)
    (htext : contentLines text = declarationLine name parameters type :: more) :
    documentSignature? text (String.ofList name) =
      some (String.ofList (signatureText name parameters type),
        parameters.map String.ofList) := by
  obtain ⟨e, hfind, hsignature⟩ := find?_declarationLine hname hparameters htype htext
  have hhead : (signatureText name parameters type).head?.any isBlank = false := by
    obtain ⟨c, name, rfl⟩ := List.exists_cons_of_ne_nil hname.ne_nil
    exact isBlank_of_isNamePart (hname.part c List.mem_cons_self)
  have hkeyword : e.signature.toList =
      "function".toList ++ ' ' :: signatureText name parameters type :=
    (congrArg String.toList hsignature).trans String.toList_ofList
  have hlabel : trim ((dropPrefix? "function".toList e.signature.toList).getD e.signature.toList) =
      signatureText name parameters type := by
    rw [hkeyword, dropPrefix?_append, Option.getD_some, trim_blank rfl]
    exact trim_eq_self_iff.mpr ⟨hhead, getLast?_signatureText htype []⟩
  rw [documentSignature?, lastName_name hname.part, hfind]
  simp only [Option.bind_eq_bind, Option.bind_some, hlabel,
    parameterList?_signatureText hname.part hparameters, splitParameters_parametersText hparameters]
  rfl

/-- Help with a call of a declared function shows its parameters as they were declared, and counts
the arguments before the last one. -/
theorem signatureHelp_declared {text name type : List Char}
    {parameters arguments more : List (List Char)} (hname : IsName name)
    (hfree : Vocabulary.signature? (String.ofList name) = none)
    (hparameters : ∀ p ∈ parameters, IsParameter p) (htype : IsReturnType type)
    (harguments : ∀ a ∈ arguments, Closed false a) (hsome : arguments ≠ [])
    (htext : contentLines text =
      declarationLine name parameters type :: callText name arguments :: more) :
    signatureHelp text ⟨1, unitLength (callText name arguments)⟩ =
      some ⟨String.ofList (signatureText name parameters type), parameters.map String.ofList, none,
        arguments.length - 1⟩ := by
  have hline : lineAt text 1 = callText name arguments := by
    rw [lineAt, htext]
    rfl
  have hbefore : takeUnits (unitLength (callText name arguments)) (callText name arguments) =
      callText name arguments := by
    have htake := takeUnits_unitLength (callText name arguments) []
    rwa [List.append_nil] at htake
  have hcall : activeCall (callText name arguments) =
      some ⟨String.ofList name, arguments.length - 1⟩ :=
    activeCall_arguments hname.ne_nil hname.part harguments hsome
  unfold signatureHelp
  simp only [hline, hbefore, hcall, Option.bind_eq_bind, Option.bind_some, hfree,
    documentSignature?_declarationLine hname hparameters htype htext]
  rfl

/-- Function types among the parameters, an arrow in the return type, and a string and a group among
the arguments. -/
theorem signatureHelp_declared_callbacks :
    let name := "run".toList
    let parameters := ["cb: (x: number, y: \x7ba: string\x7d) => void".toList,
      "m: Map<string, number[]>".toList]
    let type := "(() => void)".toList
    let arguments := ["\"a, (\"".toList, " [1, f(2)]".toList, " ".toList]
    let text := declarationLine name parameters type ++ '\n' :: callText name arguments
    IsName name ∧ Vocabulary.signature? (String.ofList name) = none ∧
      (∀ p ∈ parameters, IsParameter p) ∧ IsReturnType type ∧ (∀ a ∈ arguments, Closed false a) ∧
      signatureHelp text ⟨1, 23⟩ = some
        ⟨"run(cb: (x: number, y: \x7ba: string\x7d) => void, m: Map<string, number[]>): (() => void)",
          ["cb: (x: number, y: \x7ba: string\x7d) => void", "m: Map<string, number[]>"], none, 2⟩ := by
  intro name parameters type arguments text
  have hname : IsName name := by decide +kernel
  have hfree : Vocabulary.signature? (String.ofList name) = none := by decide +kernel
  have hparameters : ∀ p ∈ parameters, IsParameter p := by decide +kernel
  have htype : IsReturnType type := by decide +kernel
  have hstring : Closed false "\"a, (\"".toList :=
    @Closed.string false '"' "a, (".toList [] rfl (by decide) .nil
  have hgroup : Closed false " [1, f(2)]".toList := by
    have hcall : Closed true "1, f(2)".toList :=
      .plain rfl (.comma (.plain rfl (.plain rfl
        (.group (encloses_iff.mpr (.inl ⟨rfl, rfl⟩)) (.plain rfl .nil) .nil))))
    exact .plain rfl (.group (encloses_iff.mpr (.inr (.inl ⟨rfl, rfl⟩))) hcall .nil)
  have harguments : ∀ a ∈ arguments, Closed false a :=
    List.forall_mem_cons.mpr ⟨hstring, List.forall_mem_cons.mpr ⟨hgroup,
      List.forall_mem_singleton.mpr (.plain rfl .nil)⟩⟩
  have htext : contentLines text =
      declarationLine name parameters type :: callText name arguments :: [] := by
    decide +kernel
  have hcolumn : unitLength (callText name arguments) = 23 := by decide +kernel
  have hhelp := signatureHelp_declared hname hfree hparameters htype harguments
    (List.cons_ne_nil _ _) htext
  rw [hcolumn] at hhelp
  refine ⟨hname, hfree, hparameters, htype, harguments, hhelp.trans ?_⟩
  decide +kernel

end UtsInsight.Insight
