import UtsInsight.Proofs.Text.Brackets
import UtsInsight.Proofs.Typing.Agreement

/-!
# The return type of a written signature

A signature is written from its type parameters, its parameters and its return type, and its return
type is found again by counting brackets of one kind at a time. In a text with matching brackets the
count comes back to zero at the right bracket, whatever lies between.

Angle brackets are counted without regard to arrows. An arrow among the type parameters closes one
bracket too many, so the count ends too early, and the return type is then never found.
-/
namespace UtsInsight

open Text

/-! ### Counting one kind of bracket -/

section

variable {o c x : Char} {stack cs : List Char}

theorem afterClosing?_last (h : c ≠ o) : afterClosing? o c 1 (c :: cs) = some cs := by
  simp only [afterClosing?, if_neg h, if_true]

theorem afterClosing?_closing (h : c ≠ o) (n : Nat) :
    afterClosing? o c (n + 2) (c :: cs) = afterClosing? o c (n + 1) cs := by
  simp only [afterClosing?, if_neg h, if_true]

theorem afterClosing?_other (ho : x ≠ o) (hc : x ≠ c) (n : Nat) :
    afterClosing? o c n (x :: cs) = afterClosing? o c n cs := by
  rw [afterClosing?.eq_def]
  exact (if_neg ho).trans (if_neg hc)

variable (hoc : closing? o = some c)

include hoc

theorem isClosing_of_closing? : isClosing c = true :=
  isClosing_iff.mpr ⟨o, hoc⟩

theorem ne_opening_of_isClosing (hx : isClosing x = true) : x ≠ o := by
  rintro rfl
  rw [closing?_of_isClosing hx] at hoc
  cases hoc

/-- Every opening bracket adds what it adds to the stack, which is nothing for another kind. -/
theorem afterClosing?_opening {d : Char} (hx : closing? x = some d) (n : Nat) :
    afterClosing? o c n (x :: cs) = afterClosing? o c (n + if d == c then 1 else 0) cs := by
  by_cases hxo : x = o
  · subst hxo
    obtain rfl := Option.some.inj (hx.symm.trans hoc)
    rw [beq_self_eq_true, if_pos rfl, afterClosing?.eq_def]
    exact if_pos rfl
  · have hdc : ¬ (d == c) = true := fun h => hxo (closing?_inj hx (eq_of_beq h ▸ hoc))
    have hxc : x ≠ c := by
      rintro rfl
      rw [closing?_of_isClosing (isClosing_of_closing? hoc)] at hx
      cases hx
    rw [if_neg hdc, afterClosing?_other hxo hxc, Nat.add_zero]

theorem afterClosing?_plain (hopening : closing? x = none) (hclosing : isClosing x = false)
    (n : Nat) : afterClosing? o c n (x :: cs) = afterClosing? o c n cs := by
  refine afterClosing?_other ?_ ?_ n
  · rintro rfl
    rw [hoc] at hopening
    cases hopening
  · rintro rfl
    rw [isClosing_of_closing? hoc] at hclosing
    cases hclosing

theorem afterClosing?_equals (n : Nat) :
    afterClosing? o c n ('=' :: cs) = afterClosing? o c n cs :=
  afterClosing?_plain hoc (by decide) (by decide) n

/-! ### Texts with matching brackets -/

/-- A bracket that is open before a text in which its kind matches is open behind it. -/
theorem afterClosing?_append (rest : List Char) (h : Closes stack cs)
    (harrow : c = '>' → ¬ HasArrow cs) (n : Nat) :
    afterClosing? o c (n + 1 + stack.count c) (cs ++ rest) = afterClosing? o c (n + 1) rest := by
  induction h with
  | nil => rfl
  | @arrow stack cs _ ih =>
    have hc : '>' ≠ c := fun hc => harrow hc.symm (hasArrow_arrow cs)
    rw [List.cons_append, List.cons_append, afterClosing?_equals hoc,
      afterClosing?_other (ne_opening_of_isClosing hoc (by decide)) hc]
    exact ih fun h => absurd h.symm hc
  | @opening stack cs x d hx _ ih =>
    rw [List.cons_append, afterClosing?_opening hoc hx, Nat.add_assoc, ← List.count_cons]
    exact ih fun h hcs => harrow h ((hasArrow_cons (not_beginsArrow_of_closing? hx cs)).mpr hcs)
  | @closing stack cs x hx _ ih =>
    have ih' := ih fun h hcs =>
      harrow h ((hasArrow_cons (not_beginsArrow_of_isClosing hx cs)).mpr hcs)
    have hxo := ne_opening_of_isClosing hoc hx
    by_cases hxc : x = c
    · subst hxc
      rw [List.cons_append, List.count_cons_self, ← ih']
      have hn : n + 1 + (stack.count x + 1) = n + stack.count x + 2 := by omega
      rw [hn, afterClosing?_closing hxo, Nat.add_right_comm]
    · rw [List.cons_append, List.count_cons_of_ne hxc, afterClosing?_other hxo hxc, ih']
  | @plain stack cs x hopening hclosing hx _ ih =>
    rw [List.cons_append, afterClosing?_plain hoc hopening hclosing]
    exact ih fun h hcs => harrow h ((hasArrow_cons hx).mpr hcs)

/-- If fewer brackets are open than the stack has, or as many and an arrow takes one away, the last
of them is closed within the text. -/
theorem afterClosing?_within (rest : List Char) (h : Closes stack cs) :
    ∀ {n : Nat}, n + 1 ≤ stack.count c ∨ (c = '>' ∧ n = stack.count c ∧ HasArrow cs) →
      ∃ t s, Closes t s ∧ afterClosing? o c (n + 1) (cs ++ rest) = some (s ++ rest) := by
  induction h with
  | nil =>
    rintro n (hn | ⟨-, -, harrow⟩)
    · cases hn
    · exact absurd harrow (by decide)
  | @arrow stack cs hcs ih =>
    intro n hn
    rw [List.cons_append, List.cons_append, afterClosing?_equals hoc]
    have hopening := ne_opening_of_isClosing hoc (x := '>') (by decide)
    by_cases hc : '>' = c
    · subst hc
      cases n with
      | zero => exact ⟨stack, cs, hcs, afterClosing?_last hopening⟩
      | succ n =>
        rw [afterClosing?_closing hopening]
        exact ih (.inl (by omega))
    · rw [afterClosing?_other hopening hc]
      exact ih (.inl (hn.resolve_right fun h => hc h.1.symm))
  | @opening stack cs x d hx _ ih =>
    intro n hn
    rw [List.cons_append, afterClosing?_opening hoc hx, Nat.add_right_comm]
    refine ih (hn.imp (fun h => ?_) fun ⟨hc, h, harrow⟩ => ⟨hc, ?_, ?_⟩)
    · rw [List.count_cons]
      omega
    · rw [List.count_cons, h]
    · exact (hasArrow_cons (not_beginsArrow_of_closing? hx cs)).mp harrow
  | @closing stack cs x hx hcs ih =>
    intro n hn
    have harrow := hasArrow_cons (not_beginsArrow_of_isClosing hx cs)
    have hxo := ne_opening_of_isClosing hoc hx
    rw [List.cons_append]
    by_cases hxc : x = c
    · subst hxc
      rw [List.count_cons_self, harrow] at hn
      cases n with
      | zero => exact ⟨stack, cs, hcs, afterClosing?_last hxo⟩
      | succ n =>
        rw [afterClosing?_closing hxo]
        exact ih (hn.imp Nat.le_of_succ_le_succ fun ⟨hc, h, harrow⟩ => ⟨hc, Nat.succ.inj h, harrow⟩)
    · rw [List.count_cons_of_ne hxc, harrow] at hn
      rw [afterClosing?_other hxo hxc]
      exact ih hn
  | @plain stack cs x hopening hclosing hx _ ih =>
    intro n hn
    rw [hasArrow_cons hx] at hn
    rw [List.cons_append, afterClosing?_plain hoc hopening hclosing]
    exact ih hn

end

/-! ### Return types found and missed -/

/-- The return type behind the type parameters of a function type. -/
def returnTypeBehind (text : List Char) : Option (List Char) :=
  if text.head? = some '(' then
    (afterClosing? '(' ')' 0 text).bind fun rest =>
      (dropPrefix? "=>".toList (trimStart rest)).map trim
  else none

theorem returnTypeOf_eq (text : List Char) :
    returnTypeOf text =
      (if (trim text).head? = some '<' then
        (afterClosing? '<' '>' 0 (trim text)).map trimStart
      else some (trim text)).bind returnTypeBehind := by
  unfold returnTypeOf
  dsimp only
  split_ifs <;> rfl

/-- A signature as a text. -/
def written (typeParameters parameters returnType : List Char) : List Char :=
  typeParameters ++ '(' :: (parameters ++ ')' :: ' ' :: '=' :: '>' :: ' ' :: returnType)

/-- Type parameters are none, or a group in angle brackets whose own brackets match. -/
def IsGroup (typeParameters : List Char) : Prop :=
  typeParameters = [] ∨ ∃ inner, typeParameters = '<' :: (inner ++ ['>']) ∧ Balanced inner ∧
    inner.getLast? ≠ some '='

variable {typeParameters parameters returnType : List Char}

theorem trim_written (h : IsGroup typeParameters) :
    trim (written typeParameters parameters returnType) =
      typeParameters ++ '(' :: (parameters ++ ')' :: ' ' :: '=' :: '>' ::
        trimEnd (' ' :: returnType)) := by
  have hstart : trimStart (written typeParameters parameters returnType) =
      written typeParameters parameters returnType := by
    rcases h with rfl | ⟨inner, rfl, -, -⟩
    · exact trimStart_cons (by decide) _
    · exact trimStart_cons (by decide) _
  have hsplit : ∀ rest, typeParameters ++ '(' :: (parameters ++ ')' :: ' ' :: '=' :: '>' :: rest) =
      (typeParameters ++ '(' :: (parameters ++ [')', ' ', '='])) ++ '>' :: rest := by
    intro rest
    simp only [List.append_assoc, List.cons_append, List.nil_append]
  rw [trim, hstart, written, hsplit, trimEnd_append_cons (by decide), hsplit]

theorem returnTypeBehind_parameters (h : Balanced parameters) :
    returnTypeBehind ('(' :: (parameters ++ ')' :: ' ' :: '=' :: '>' ::
      trimEnd (' ' :: returnType))) = some (trim returnType) := by
  have hclosed : afterClosing? '(' ')' 0 ('(' :: (parameters ++ ')' :: ' ' :: '=' :: '>' ::
      trimEnd (' ' :: returnType))) = some (' ' :: '=' :: '>' :: trimEnd (' ' :: returnType)) := by
    rw [afterClosing?_opening rfl rfl]
    exact (afterClosing?_append rfl _ h (fun hc => absurd hc (by decide)) 0).trans
      (afterClosing?_last (by decide))
  have hprefix : ∀ cs, dropPrefix? "=>".toList ('=' :: '>' :: cs) = some cs := fun _ => rfl
  rw [returnTypeBehind, List.head?_cons, if_pos rfl, hclosed, Option.bind_some,
    trimStart_blank (by decide), trimStart_cons (by decide), hprefix, Option.map_some,
    trim_trimEnd, trim_blank (by decide)]

/-- Type parameters are passed over if no arrow is among them. -/
theorem returnTypeOf_of_not_hasArrow (hgroup : IsGroup typeParameters)
    (hparameters : Balanced parameters) (harrow : ¬ HasArrow typeParameters) :
    returnTypeOf (written typeParameters parameters returnType) = some (trim returnType) := by
  rw [returnTypeOf_eq, trim_written hgroup]
  rcases hgroup with rfl | ⟨inner, rfl, hinner, hlast⟩
  · exact returnTypeBehind_parameters hparameters
  · have hinner' : ¬ HasArrow inner := mt (hasArrow_group hlast).mpr harrow
    have hclosed := (afterClosing?_append (o := '<') rfl
      ('>' :: '(' :: (parameters ++ ')' :: ' ' :: '=' :: '>' :: trimEnd (' ' :: returnType)))
      hinner (fun _ => hinner') 0).trans (afterClosing?_last (by decide))
    rw [List.cons_append, List.head?_cons, if_pos rfl, List.append_assoc, List.singleton_append,
      afterClosing?_opening rfl rfl, beq_self_eq_true, if_pos rfl]
    rw [List.count_nil] at hclosed
    rw [hclosed, Option.map_some, trimStart_cons (by decide), Option.bind_some,
      returnTypeBehind_parameters hparameters]

/-! A count that ends among the type parameters leaves the bracket that closes them. -/

/-- A return type that is found from there holds all solid characters behind that bracket. -/
theorem solid_of_returnTypeBehind {stack cs rest type : List Char} (h : Closes stack cs)
    (htype : returnTypeBehind (trimStart (cs ++ '>' :: rest)) = some type) :
    solid rest ≤ solid type + 1 := by
  rw [trimStart_append_cons (by decide)] at htype
  have hcloses := h.trimStart
  generalize trimStart cs = cs at htype hcloses
  unfold returnTypeBehind at htype
  split_ifs at htype with hhead
  cases cs with
  | nil => cases hhead
  | cons x cs =>
    obtain rfl : x = '(' := Option.some.inj hhead
    have hinside : Closes (')' :: stack) cs := by
      cases hcloses with
      | opening hc h => rwa [← Option.some.inj hc] at h
      | closing hc _ => cases hc
      | plain hc _ _ _ => cases hc
    obtain ⟨_, left, _, hleft⟩ := afterClosing?_within (o := '(') rfl ('>' :: rest) hinside
      (n := 0) (.inl (by rw [List.count_cons_self]; omega))
    rw [List.cons_append, afterClosing?_opening rfl rfl, beq_self_eq_true, if_pos rfl, hleft,
      Option.bind_some] at htype
    obtain ⟨found, hfound, rfl⟩ := Option.map_eq_some_iff.mp htype
    have hsolid := congrArg solid (append_of_dropPrefix? hfound)
    rw [solid_trimStart, solid_append, solid_append, solid_cons (by decide)] at hsolid
    have harrow : solid "=>".toList = 2 := by decide
    rw [solid_trim]
    omega

theorem returnTypeOf_ne_of_hasArrow (hgroup : IsGroup typeParameters)
    (harrow : HasArrow typeParameters) :
    returnTypeOf (written typeParameters parameters returnType) ≠ some (trim returnType) := by
  intro htype
  rw [returnTypeOf_eq, trim_written hgroup] at htype
  rcases hgroup with rfl | ⟨inner, rfl, hinner, hlast⟩
  · exact absurd harrow (by decide)
  · have harrow' : HasArrow inner := (hasArrow_group hlast).mp harrow
    obtain ⟨_, left, hcloses, hleft⟩ := afterClosing?_within (o := '<') rfl
      ('>' :: '(' :: (parameters ++ ')' :: ' ' :: '=' :: '>' :: trimEnd (' ' :: returnType)))
      hinner (n := 0) (.inr ⟨rfl, rfl, harrow'⟩)
    rw [List.cons_append, List.head?_cons, if_pos rfl, List.append_assoc, List.singleton_append,
      afterClosing?_opening rfl rfl, beq_self_eq_true, if_pos rfl, hleft, Option.map_some,
      Option.bind_some] at htype
    have hsolid := solid_of_returnTypeBehind hcloses htype
    -- the parentheses and the arrow of the signature itself are found as well
    rw [solid_trim, solid_cons (by decide), solid_append, solid_cons (by decide),
      solid_blank (by decide), solid_cons (by decide), solid_cons (by decide), solid_trimEnd,
      solid_blank (by decide)] at hsolid
    omega

/-! ### Signatures of functions -/

/-- The parts that a function type is written from. -/
structure Signature where
  typeParameters : String
  parameters : List String
  returnType : String
  deriving DecidableEq, Repr

namespace Signature

def render (s : Signature) : String :=
  functionType s.typeParameters s.parameters s.returnType

/-- The brackets before the return type match, part by part. -/
structure Matched (s : Signature) : Prop where
  typeParameters : IsGroup s.typeParameters.toList
  parameters : ∀ p ∈ s.parameters, Balanced p.toList

theorem toList_render (s : Signature) :
    s.render.toList =
      written s.typeParameters.toList (", ".toList.intercalate (s.parameters.map String.toList))
        s.returnType.toList := by
  simp only [render, functionType, written, String.toList_append, String.toList_intercalate,
    String.reduceToList, List.append_assoc, List.cons_append, List.nil_append]

/-- The return type is found exactly if no arrow is among the type parameters. -/
theorem returnTypeOf_render {s : Signature} (h : s.Matched) :
    returnTypeOf s.render.toList = some (trim s.returnType.toList) ↔
      ¬ HasArrow s.typeParameters.toList := by
  have hparameters : Balanced (", ".toList.intercalate (s.parameters.map String.toList)) := by
    refine Balanced.intercalate (by decide) fun text htext => ?_
    obtain ⟨p, hp, rfl⟩ := List.mem_map.mp htext
    exact h.parameters p hp
  rw [toList_render]
  constructor
  · intro htype harrow
    exact returnTypeOf_ne_of_hasArrow h.typeParameters harrow htype
  · exact returnTypeOf_of_not_hasArrow h.typeParameters hparameters

end Signature

section

variable {m : Type → Type} [Monad m] (context : TypingContext) (lookup : DeclId → m String)

/-- The parts of the type of a function. -/
def signatureOf (depth : Nat) (node : Node) : m Signature := do
  let typeParameters := ((node.child? "type_parameters").map (·.plainText context.source)).getD ""
  let parameters ←
    if (node.child? "parameters").isSome then
      parametersOfCallable context lookup depth node.children
    else match node.child? "parameter" with
      | some parameter => pure [parameter.text context.source ++ ": any"]
      | none => pure []
  match node.child? "return_type" with
  | some stated => return ⟨typeParameters, parameters, stated.annotationText context.source⟩
  | none =>
    let type ← typeOfBody context lookup depth node.children
    let isAsync := node.children.any (·.kind == "async")
    return ⟨typeParameters, parameters, if isAsync then "Promise<" ++ type ++ ">" else type⟩

/-- The type of a function is written from its parts. -/
theorem typeOfCallable_eq_render [LawfulMonad m] (depth : Nat) (node : Node) :
    typeOfCallable context lookup depth node =
      do return (← signatureOf context lookup depth node).render := by
  unfold typeOfCallable signatureFrom signatureOf
  by_cases hparameters : (node.child? "parameters").isSome
  · simp only [if_pos hparameters, bind_assoc]
    refine bind_congr fun parameters => ?_
    cases node.child? "return_type" <;> simp only [bind_assoc, pure_bind, Signature.render]
  · simp only [if_neg hparameters]
    cases node.child? "parameter" <;> cases node.child? "return_type" <;>
      simp only [bind_assoc, pure_bind, Signature.render]

end

/-! ### Calls of functions -/

/-- The node calls the declaration by its name. -/
structure CallsDeclared (context : TypingContext) (node callee : Node) (id : DeclId) : Prop where
  isCall : node.kind = "call_expression"
  hasCallee : node.child? "function" = some callee
  isName : callee.kind = "identifier"
  refersTo : context.bindings.resolve (callee.text context.source) callee.start .value = some id

/-- A call by name has the return type that is found in the type of the declaration. -/
theorem typeOfExpression_callsDeclared {context : TypingContext} {node callee : Node} {id : DeclId}
    (h : CallsDeclared context node callee id) (lookup : DeclId → Id String) {depth : Nat}
    (hdepth : depth ≤ maxExpressionDepth) :
    Id.run (typeOfExpression context lookup depth node) =
      returnTypeOrUnknown (Id.run (lookup id)) := by
  obtain ⟨info, children⟩ := node
  obtain ⟨calleeInfo, calleeChildren⟩ := callee
  have hcall : info.kind = "call_expression" := h.isCall
  have hname : calleeInfo.kind = "identifier" := h.isName
  have hform : expressionForm "call_expression" = .call := by decide
  have hrefers : context.bindings.resolve
      (Node.text ⟨calleeInfo, calleeChildren⟩ context.source) calleeInfo.start .value = some id :=
    h.refersTo
  simp only [typeOfExpression, hcall, hform, if_neg (Nat.not_lt.mpr hdepth)]
  rw [typeOfCall_eq_typeOfCallee _ _ _ h.hasCallee]
  simp only [typeOfCallee, if_pos hname, hrefers]
  rfl

/-- The return type of a function is found again in its type, whatever its parameters are, if and
only if no arrow is among its type parameters, and then every call of the function has it. -/
theorem returnTypeOf_typeOfCallable (context : TypingContext) (lookup : DeclId → Id String)
    (depth : Nat) (node : Node)
    (hmatched : (Id.run (signatureOf context lookup depth node)).Matched) :
    let signature := Id.run (signatureOf context lookup depth node)
    let type := Id.run (typeOfCallable context lookup depth node)
    type = signature.render ∧
    (returnTypeOf type.toList = some (trim signature.returnType.toList) ↔
      ¬ HasArrow signature.typeParameters.toList) ∧
    (¬ HasArrow signature.typeParameters.toList →
      ∀ {call callee : Node} {id : DeclId} {callDepth : Nat}, callDepth ≤ maxExpressionDepth →
        CallsDeclared context call callee id → Id.run (lookup id) = type →
        Id.run (typeOfExpression context lookup callDepth call) =
          String.ofList (trim signature.returnType.toList)) := by
  intro signature type
  have htype : type = signature.render :=
    congrArg Id.run (typeOfCallable_eq_render context lookup depth node)
  have hfound := Signature.returnTypeOf_render hmatched
  rw [← htype] at hfound
  refine ⟨htype, hfound, fun harrow call callee id callDepth hdepth hcall hlookup => ?_⟩
  rw [typeOfExpression_callsDeclared hcall lookup hdepth, hlookup, returnTypeOrUnknown,
    hfound.mpr harrow]

/-- An arrow in a constraint ends the count of angle brackets. What follows it is no parameter list
here, and would be taken for the one of the function if it were. -/
example : returnTypeOf "<T extends () => void>(a: T) => string".toList = none ∧
    returnTypeOf "<T extends () => (x: T) => void>(a: T) => string".toList =
      some "void>(a: T) => string".toList := by
  decide

/-! ### A generic function that is called -/

section

open Node

/-- `function f<T extends A<B>>(g: (x: T) => void): (y: T) => T {} f(h);` -/
def genericText : List Char :=
  "function f<T extends A<B>>(g: (x: T) => void): (y: T) => T \x7b\x7d f(h);".toList

def genericFunction : Node :=
  construct "function_declaration" 0 61 none
    [token "function" 0 8 none, construct "identifier" 9 10 (some "name") [],
      construct "type_parameters" 10 26 (some "type_parameters") [],
      construct "formal_parameters" 26 45 (some "parameters")
        [token "(" 26 27 none,
          construct "required_parameter" 27 44 none
            [construct "identifier" 27 28 (some "pattern") [],
              construct "type_annotation" 28 44 (some "type")
                [token ":" 28 29 none, construct "function_type" 30 44 none []]],
          token ")" 44 45 none],
      construct "type_annotation" 45 58 (some "return_type")
        [token ":" 45 46 none, construct "function_type" 47 58 none []],
      construct "statement_block" 59 61 (some "body") []]

def genericCallee : Node :=
  construct "identifier" 62 63 (some "function") []

def genericCall : Node :=
  construct "call_expression" 62 66 none
    [genericCallee,
      construct "arguments" 63 66 (some "arguments") [construct "identifier" 64 65 none []]]

def genericContext : TypingContext :=
  ⟨genericText, Binder.bind (construct "program" 0 67 none
    [genericFunction, construct "expression_statement" 62 67 none [genericCall]]) genericText⟩

/-- The type of the function, whoever asks. -/
def genericLookup (_ : DeclId) : Id String :=
  pure "<T extends A<B>>(g: (x: T) => void) => (y: T) => T"

theorem returnTypeOf_typeOfCallable_generic :
    (Id.run (signatureOf genericContext genericLookup 0 genericFunction)).Matched ∧
      returnTypeOf (Id.run (typeOfCallable genericContext genericLookup 0 genericFunction)).toList =
        some "(y: T) => T".toList ∧
      Id.run (typeOfExpression genericContext genericLookup 0 genericCall) = "(y: T) => T" := by
  have hsignature : Id.run (signatureOf genericContext genericLookup 0 genericFunction) =
      ⟨"<T extends A<B>>", ["g: (x: T) => void"], "(y: T) => T"⟩ := by
    decide +kernel
  have hmatched :
      (Id.run (signatureOf genericContext genericLookup 0 genericFunction)).Matched := by
    rw [hsignature]
    exact ⟨.inr ⟨"T extends A<B>".toList, by decide, by decide, by decide⟩, by decide⟩
  have harrow : ¬ HasArrow (Id.run (signatureOf genericContext genericLookup 0
      genericFunction)).typeParameters.toList := by
    rw [hsignature]
    decide
  have hcall : CallsDeclared genericContext genericCall genericCallee 0 :=
    ⟨rfl, rfl, rfl, by decide +kernel⟩
  obtain ⟨_, hfound, hcalls⟩ :=
    returnTypeOf_typeOfCallable genericContext genericLookup 0 genericFunction hmatched
  have hreturned : String.ofList (trim (Id.run (signatureOf genericContext genericLookup 0
      genericFunction)).returnType.toList) = "(y: T) => T" := by
    rw [hsignature]
    decide
  refine ⟨hmatched, ?_, ?_⟩
  · rw [hfound.mpr harrow, hsignature]
    decide
  · rw [hcalls harrow (Nat.zero_le _) hcall (by decide +kernel), hreturned]

end

end UtsInsight
