import UtsInsight.Insight.Call
import UtsInsight.Proofs.Text.Brackets
import UtsInsight.Proofs.Text.Lines

/-!
# The arguments of an open call

The call around a cursor is found by walking backwards. Arguments that are complete in themselves
are passed over: a string is entered at its closing quote and left at its opening one, a group is
entered at its closing bracket, and the commas inside neither count. So behind the opening
parenthesis of a call the commas between the arguments are the only ones that count.
-/
namespace UtsInsight.Insight

open Text

/-! ### Complete arguments -/

/-- A character that begins and ends a string. -/
def isQuote (c : Char) : Bool :=
  c == '"' || c == '\'' || c == '\x60'

/-- The two brackets of a group among arguments, where angle brackets make none. -/
def Encloses (o c : Char) : Prop :=
  closing? o = some c ∧ o ≠ '<'

/-- A character that is no quote, no bracket of a group and no comma. -/
def isPlain (c : Char) : Bool :=
  !isQuote c && c != '(' && c != ')' && c != '[' && c != ']' && c != '\x7b' && c != '\x7d' && c != ','

/-- A text of plain characters, complete strings and groups in matching brackets. The flag tells
whether commas may stand outside them, as they may inside a group. -/
inductive Closed : Bool → List Char → Prop
  | nil {commas : Bool} : Closed commas []
  | plain {commas : Bool} {c : Char} {cs : List Char} : isPlain c = true → Closed commas cs →
      Closed commas (c :: cs)
  | comma {cs : List Char} : Closed true cs → Closed true (',' :: cs)
  | string {commas : Bool} {q : Char} {content cs : List Char} : isQuote q = true → q ∉ content →
      Closed commas cs → Closed commas (q :: (content ++ q :: cs))
  | group {commas : Bool} {o c : Char} {inner cs : List Char} : Encloses o c →
      Closed true inner → Closed commas cs → Closed commas (o :: (inner ++ c :: cs))

theorem encloses_iff {o c : Char} :
    Encloses o c ↔ (o = '(' ∧ c = ')') ∨ (o = '[' ∧ c = ']') ∨ (o = '\x7b' ∧ c = '\x7d') := by
  unfold Encloses
  rw [closing?_eq_some]
  constructor
  · rintro ⟨h, ho⟩
    rcases h with h | h | h | ⟨rfl, -⟩
    · exact .inl h
    · exact .inr (.inl h)
    · exact .inr (.inr h)
    · exact absurd rfl ho
  · rintro (⟨rfl, rfl⟩ | ⟨rfl, rfl⟩ | ⟨rfl, rfl⟩) <;> decide

/-! ### One step backwards -/

section

variable {depth commas : Nat} {rest : List Char}

theorem activeCallBackwards_plain {c : Char} (h : isPlain c = true) :
    activeCallBackwards depth commas none (c :: rest) =
      activeCallBackwards depth commas none rest := by
  simp only [isPlain, isQuote, Bool.and_eq_true, Bool.not_eq_true', bne_iff_ne,
    Bool.or_eq_false_iff, beq_eq_false_iff_ne] at h
  obtain ⟨⟨⟨⟨⟨⟨⟨⟨⟨h1, h2⟩, h3⟩, h4⟩, h5⟩, h6⟩, h7⟩, h8⟩, h9⟩, h10⟩ := h
  simp [activeCallBackwards, h1, h2, h3, h4, h5, h6, h7, h8, h9, h10]

theorem activeCallBackwards_quote {q : Char} (h : isQuote q = true) :
    activeCallBackwards depth commas none (q :: rest) =
      activeCallBackwards depth commas (some q) rest := by
  rw [activeCallBackwards]
  exact if_pos h

/-- A string is left at its other quote. -/
theorem activeCallBackwards_string {q : Char} {content : List Char} (h : q ∉ content) :
    activeCallBackwards depth commas (some q) (content ++ q :: rest) =
      activeCallBackwards depth commas none rest := by
  induction content with
  | nil => simp only [List.nil_append, activeCallBackwards, if_true]
  | cons c content ih =>
    obtain ⟨hc, hcontent⟩ := not_or.mp (mt List.mem_cons.mpr h)
    rw [List.cons_append, activeCallBackwards, if_neg (Ne.symm hc)]
    exact ih hcontent

theorem activeCallBackwards_closing {o c : Char} (h : Encloses o c) :
    activeCallBackwards depth commas none (c :: rest) =
      activeCallBackwards (depth + 1) commas none rest := by
  rcases encloses_iff.mp h with ⟨-, rfl⟩ | ⟨-, rfl⟩ | ⟨-, rfl⟩ <;> rfl

theorem activeCallBackwards_opening {o c : Char} (h : Encloses o c) :
    activeCallBackwards (depth + 1) commas none (o :: rest) =
      activeCallBackwards depth commas none rest := by
  rcases encloses_iff.mp h with ⟨rfl, -⟩ | ⟨rfl, -⟩ | ⟨rfl, -⟩ <;> rfl

theorem activeCallBackwards_comma_inside (h : 0 < depth) :
    activeCallBackwards depth commas none (',' :: rest) =
      activeCallBackwards depth commas none rest := by
  obtain ⟨depth, rfl⟩ := Nat.exists_eq_add_one.mpr h
  rfl

/-! ### Arguments in a row -/

/-- What stands between two characters, backwards. -/
theorem reverse_between (o c : Char) (inner cs rest : List Char) :
    (o :: (inner ++ c :: cs)).reverse ++ rest =
      cs.reverse ++ c :: (inner.reverse ++ o :: rest) := by
  simp only [List.reverse_cons, List.reverse_append, List.append_assoc, List.cons_append,
    List.nil_append]

/-- A complete text is passed over, with its commas only if they are in a bracket. -/
theorem activeCallBackwards_closed {allowed : Bool} {cs : List Char} (h : Closed allowed cs)
    (hdepth : allowed = true → 0 < depth) :
    activeCallBackwards depth commas none (cs.reverse ++ rest) =
      activeCallBackwards depth commas none rest := by
  induction h generalizing depth rest with
  | nil => rfl
  | plain hc _ ih =>
    rw [List.reverse_cons, List.append_assoc, List.singleton_append, ih hdepth,
      activeCallBackwards_plain hc]
  | comma _ ih =>
    rw [List.reverse_cons, List.append_assoc, List.singleton_append, ih hdepth,
      activeCallBackwards_comma_inside (hdepth rfl)]
  | string hq hcontent _ ih =>
    rw [reverse_between, ih hdepth, activeCallBackwards_quote hq,
      activeCallBackwards_string (mt List.mem_reverse.mp hcontent)]
  | group hpair _ _ ihinner ih =>
    rw [reverse_between, ih hdepth, activeCallBackwards_closing hpair,
      ihinner fun _ => Nat.succ_pos _, activeCallBackwards_opening hpair]

/-- The commas between arguments count. -/
theorem activeCallBackwards_arguments {arguments : List (List Char)}
    (h : ∀ a ∈ arguments, Closed false a) (hne : arguments ≠ []) :
    activeCallBackwards 0 commas none ((",".toList.intercalate arguments).reverse ++ rest) =
      activeCallBackwards 0 (commas + (arguments.length - 1)) none rest := by
  induction arguments generalizing rest with
  | nil => exact absurd rfl hne
  | cons a arguments ih =>
    have ha : ∀ {commas rest}, activeCallBackwards 0 commas none (a.reverse ++ rest) =
        activeCallBackwards 0 commas none rest :=
      activeCallBackwards_closed (h a List.mem_cons_self) fun h => absurd h (by decide)
    cases arguments with
    | nil => rw [List.intercalate_singleton, ha]; rfl
    | cons b arguments =>
      have hreverse : (",".toList.intercalate (a :: b :: arguments)).reverse ++ rest =
          (",".toList.intercalate (b :: arguments)).reverse ++ ',' :: (a.reverse ++ rest) := by
        rw [List.intercalate_cons_cons, List.reverse_append, List.reverse_append]
        simp only [List.append_assoc]
        rfl
      have hcomma : ∀ {commas}, activeCallBackwards 0 commas none (',' :: (a.reverse ++ rest)) =
          activeCallBackwards 0 (commas + 1) none (a.reverse ++ rest) := rfl
      rw [hreverse, ih (fun d hd => h d (List.mem_cons_of_mem a hd)) (List.cons_ne_nil _ _), hcomma,
        ha]
      rfl

end

/-! ### The callee -/

/-- One or more characters that may stand in a name. -/
def IsNameRun (cs : List Char) : Prop :=
  cs ≠ [] ∧ ∀ c ∈ cs, isNamePart c = true

/-- A name, or two names with a dot between them. -/
inductive IsCallee : List Char → Prop
  | bare {name : List Char} : IsNameRun name → IsCallee name
  | qualified {receiver name : List Char} : IsNameRun receiver → IsNameRun name →
      IsCallee (receiver ++ '.' :: name)

/-- The text ends neither inside a name nor with a dot. -/
def EndsNames (before : List Char) : Prop :=
  before.getLast?.any isNamePart = false ∧ before.getLast? ≠ some '.'

instance (before : List Char) : Decidable (EndsNames before) :=
  inferInstanceAs (Decidable (_ ∧ _))

variable {before callee name : List Char}

theorem nameAtEnd?_bare (hname : IsNameRun name) (hbefore : EndsNames before) :
    nameAtEnd? (before ++ name) = some (none, String.ofList name) := by
  have hempty : ¬ name.isEmpty = true := mt List.isEmpty_iff.mp hname.1
  unfold nameAtEnd?
  rw [tailRun_append hname.2 hbefore.1, beforeTailRun_append hname.2 hbefore.1]
  simp only [if_neg hempty]
  split
  next rest hrest =>
    have hlast : before.getLast? = some '.' := by rw [← List.head?_reverse, hrest, List.head?_cons]
    exact absurd hlast hbefore.2
  next => rfl

theorem nameAtEnd?_qualified {receiver : List Char} (hreceiver : IsNameRun receiver)
    (hname : IsNameRun name) (hbefore : EndsNames before) :
    nameAtEnd? (before ++ (receiver ++ '.' :: name)) =
      some (some (String.ofList receiver), String.ofList name) := by
  have htext : before ++ (receiver ++ '.' :: name) = before ++ receiver ++ ['.'] ++ name := by
    simp only [List.append_assoc, List.singleton_append]
  have hdot : (before ++ receiver ++ ['.']).getLast?.any isNamePart = false := by
    rw [List.getLast?_concat]
    decide
  have hempty : ¬ name.isEmpty = true := mt List.isEmpty_iff.mp hname.1
  have hreverse : (before ++ receiver ++ ['.']).reverse = '.' :: (before ++ receiver).reverse :=
    List.reverse_concat
  have hrun : ((before ++ receiver).reverse.takeWhile isNamePart).reverse = receiver :=
    tailRun_append hreceiver.2 hbefore.1
  have hempty' : ¬ receiver.isEmpty = true := mt List.isEmpty_iff.mp hreceiver.1
  unfold nameAtEnd?
  rw [htext, tailRun_append hname.2 hdot, beforeTailRun_append hname.2 hdot, hreverse]
  simp only [hrun, if_neg hempty, if_neg hempty']

theorem IsCallee.exists_concat (h : IsCallee callee) :
    ∃ cs c, callee = cs ++ [c] ∧ isNamePart c = true := by
  have hrun : ∀ {name}, IsNameRun name → ∃ cs c, name = cs ++ [c] ∧ isNamePart c = true := by
    intro name hname
    refine ⟨_, _, (List.dropLast_append_getLast hname.1).symm, hname.2 _ (List.getLast_mem _)⟩
  cases h with
  | bare hname => exact hrun hname
  | @qualified receiver name _ hname =>
    obtain ⟨cs, c, rfl, hc⟩ := hrun hname
    exact ⟨receiver ++ '.' :: cs, c, by simp, hc⟩

/-- No blanks end a callee. -/
theorem trimEnd_append_callee (h : IsCallee callee) :
    trimEnd (before ++ callee) = before ++ callee := by
  obtain ⟨cs, c, rfl, hc⟩ := h.exists_concat
  rw [← List.append_assoc]
  exact trimEnd_append_cons (isBlank_of_isNamePart hc) _ []

/-- A callee is found whole, with its receiver, where no name stands right before it. -/
theorem calleeAtEnd?_callee (h : IsCallee callee) (hbefore : EndsNames before) :
    calleeAtEnd? (before ++ callee) = some (String.ofList callee) := by
  unfold calleeAtEnd?
  rw [trimEnd_append_callee h]
  cases h with
  | bare hname =>
    rw [nameAtEnd?_bare hname hbefore]
    rfl
  | qualified hreceiver hname =>
    rw [nameAtEnd?_qualified hreceiver hname hbefore]
    simp [qualified, ← String.toList_inj]

/-! ### The call -/

/-- A call by name that is still open behind its last argument. -/
def callText (name : List Char) (arguments : List (List Char)) : List Char :=
  name ++ '(' :: ",".toList.intercalate arguments

/-- Behind complete arguments the call is the one that is open before them, and as many of them are
complete as commas stand between them. -/
theorem activeCall_append_callText {arguments : List (List Char)}
    (harguments : ∀ a ∈ arguments, Closed false a) (hsome : arguments ≠ []) :
    activeCall (before ++ callText callee arguments) =
      (calleeAtEnd? (before ++ callee)).map fun callee => ⟨callee, arguments.length - 1⟩ := by
  have hreverse : (before ++ callText callee arguments).reverse =
      (",".toList.intercalate arguments).reverse ++ '(' :: (before ++ callee).reverse := by
    simp [callText]
  have hcall : ∀ commas, activeCallBackwards 0 commas none ('(' :: (before ++ callee).reverse) =
      (calleeAtEnd? (before ++ callee).reverse.reverse).map fun callee => ⟨callee, commas⟩ :=
    fun _ => rfl
  rw [activeCall, hreverse, activeCallBackwards_arguments harguments hsome, hcall,
    List.reverse_reverse, Nat.zero_add]

/-- Behind the arguments of a call by name, the call is around the cursor. -/
theorem activeCall_arguments (hne : name ≠ []) (hname : ∀ c ∈ name, isNamePart c = true)
    {arguments : List (List Char)} (harguments : ∀ a ∈ arguments, Closed false a)
    (hsome : arguments ≠ []) :
    activeCall (callText name arguments) = some ⟨String.ofList name, arguments.length - 1⟩ := by
  have hcall := @activeCall_append_callText [] name arguments harguments hsome
  have hcallee := @calleeAtEnd?_callee [] name (.bare ⟨hne, hname⟩) (by decide)
  simp only [List.nil_append] at hcall hcallee
  rw [hcall, hcallee, Option.map_some]

/-- Behind an argument and those that follow it, whatever stands before the call: the callee is found
with its receiver, and the current argument is the last one. -/
theorem activeCall_open (hbefore : EndsNames before) (hcallee : IsCallee callee)
    {first : List Char} {more : List (List Char)} (hfirst : Closed false first)
    (hmore : ∀ a ∈ more, Closed false a) :
    activeCall (before ++ callText callee (first :: more)) =
      some ⟨String.ofList callee, more.length⟩ := by
  have harguments : ∀ a ∈ first :: more, Closed false a := List.forall_mem_cons.mpr ⟨hfirst, hmore⟩
  rw [activeCall_append_callText harguments (List.cons_ne_nil _ _),
    calleeAtEnd?_callee hcallee hbefore, Option.map_some, List.length_cons, Nat.add_sub_cancel]

/-- A quote and brackets left open before the call, a string with brackets and other quotes, a group
with commas, and an argument that is not begun. -/
theorem activeCall_open_behindQuote :
    let before := "it's [f((".toList
    let callee := "$a.log2".toList
    let string := "\"a), 'b' (\"".toList
    let group := " [1, \x7bx: g(2, 3)\x7d]".toList
    let text := "it's [f(($a.log2(\"a), 'b' (\", [1, \x7bx: g(2, 3)\x7d],".toList
    EndsNames before ∧ IsCallee callee ∧ Closed false string ∧ (∀ a ∈ [group, []], Closed false a) ∧
      activeCall text = some ⟨"$a.log2", 2⟩ := by
  intro before callee string group text
  have hbefore : EndsNames before := by decide +kernel
  have hcallee : IsCallee callee :=
    @IsCallee.qualified "$a".toList "log2".toList ⟨by decide, List.all_eq_true.mp (by decide)⟩
      ⟨by decide, List.all_eq_true.mp (by decide)⟩
  have hstring : Closed false string :=
    @Closed.string false '"' "a), 'b' (".toList [] rfl (by decide) .nil
  have hgroup : Closed false group := by
    have hcall : Closed true "2, 3".toList :=
      .plain rfl (.comma (.plain rfl (.plain rfl .nil)))
    have hobject : Closed true "x: g(2, 3)".toList :=
      .plain rfl (.plain rfl (.plain rfl (.plain rfl
        (.group (encloses_iff.mpr (.inl ⟨rfl, rfl⟩)) hcall .nil))))
    have hlist : Closed true "1, \x7bx: g(2, 3)\x7d".toList :=
      .plain rfl (.comma (.plain rfl
        (.group (encloses_iff.mpr (.inr (.inr ⟨rfl, rfl⟩))) hobject .nil)))
    exact .plain rfl (.group (encloses_iff.mpr (.inr (.inl ⟨rfl, rfl⟩))) hlist .nil)
  have hmore : ∀ a ∈ [group, []], Closed false a :=
    List.forall_mem_cons.mpr ⟨hgroup, List.forall_mem_singleton.mpr .nil⟩
  have hcall := activeCall_open hbefore hcallee hstring hmore
  have htext : before ++ callText callee (string :: [group, []]) = text := by decide +kernel
  have hname : String.ofList callee = "$a.log2" := by decide +kernel
  rw [htext, hname] at hcall
  exact ⟨hbefore, hcallee, hstring, hmore, hcall⟩

end UtsInsight.Insight
