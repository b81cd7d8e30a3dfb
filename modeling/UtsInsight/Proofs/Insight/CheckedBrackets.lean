import UtsInsight.Insight.Call
import UtsInsight.Proofs.Text.CheckedWords
import UtsInsight.Proofs.Typing.ReturnType

/-!
# Brackets counted by bytes

The call around a cursor, the parameter list of a signature and the return type of a function type
are found by a walk over characters with the bytes at which they start. The walk counts brackets,
and what is wanted is cut out at the bytes of the brackets it remembers. A count is never taken
below zero, and a bracket that was passed is a boundary, so no step fails and the answers are those
of the walks over lists of characters.

The count of angle brackets in a signature has a sign, and no bound is set for it here.
-/
namespace UtsInsight.Checked

open Text Insight

/-! ### Walks -/

/-- The context of a column of a line. -/
def classify (line : List Char) (column : Nat) : Checked Context := do
  let left ← before line column
  return contextAfter left

/-- Walks backwards over a text given with the bytes at which its characters start. -/
def activeCallFrom (text : List Char) (depth commas : Nat) (quote : Option Char) :
    List (Nat × Char) → Checked (Option ActiveCall)
  | [] => return none
  | (byte, c) :: rest =>
    match quote with
    | some q => activeCallFrom text depth commas (if c = q then none else some q) rest
    | none =>
      if c == '"' || c == '\'' || c == '\x60' then activeCallFrom text depth commas (some c) rest
      else if c == ')' || c == ']' || c == '\x7d' then
        activeCallFrom text (depth + 1) commas none rest
      else if c == '[' || c == '\x7b' then
        if 0 < depth then do
          let depth ← minus depth 1
          activeCallFrom text depth commas none rest
        else return none
      else if c == '(' then
        if 0 < depth then do
          let depth ← minus depth 1
          activeCallFrom text depth commas none rest
        else do
          let left ← cut text 0 byte
          return (calleeAtEnd? left).map fun callee => ⟨callee, commas⟩
      else if c == ',' && depth == 0 then do
        let commas ← plus commas 1
        activeCallFrom text depth commas none rest
      else activeCallFrom text depth commas none rest

/-- The innermost open call of the text before the cursor. -/
def activeCall (before : List Char) : Checked (Option ActiveCall) :=
  activeCallFrom before 0 0 none (indices 0 before).reverse

/-- Looks for a parameter list. `opened` is the byte of its opening parenthesis once that is found,
and `depth` the number of parentheses open since. -/
def parameterListFrom (label : List Char) (angle : Int) (opened : Option Nat) (depth : Nat)
    (previous : Char) : List (Nat × Char) → Checked (Option (List Char))
  | [] => return none
  | (byte, c) :: rest =>
    match opened with
    | none =>
      if c = '<' then parameterListFrom label (angle + 1) none depth c rest
      else if c = '>' ∧ previous ≠ '=' then parameterListFrom label (angle - 1) none depth c rest
      else if c = '(' ∧ angle ≤ 0 then parameterListFrom label angle (some byte) 1 c rest
      else parameterListFrom label angle none depth c rest
    | some start =>
      if c = '(' then parameterListFrom label angle opened (depth + 1) c rest
      else if c = ')' then do
        let depth ← minus depth 1
        if depth = 0 then
          let list ← cut label (start + 1) byte
          return some list
        else parameterListFrom label angle opened depth c rest
      else parameterListFrom label angle opened depth c rest

/-- The text between the parentheses of the parameter list of a signature. -/
def parameterList? (label : List Char) : Checked (Option (List Char)) :=
  parameterListFrom label 0 none 0 ' ' (indices 0 label)

/-- The byte of the bracket that closes the first one. -/
def closingByte? (opening closing : Char) : Nat → List (Nat × Char) → Option Nat
  | _, [] => none
  | depth, (byte, c) :: rest =>
    if c = opening then closingByte? opening closing (depth + 1) rest
    else if c = closing then
      match depth with
      | 0 => none
      | 1 => some byte
      | d + 2 => closingByte? opening closing (d + 1) rest
    else closingByte? opening closing depth rest

/-- The text behind the bracket that closes the first one. -/
def behindClosing? (opening closing : Char) (text : List Char) : Checked (Option (List Char)) :=
  match closingByte? opening closing 0 (indices 0 text) with
  | none => return none
  | some stop => do
    let rest ← cut text (stop + 1) (byteLength text)
    return some rest

/-- The parameters of a function type, behind its type parameters. -/
def behindTypeParameters? (text : List Char) : Checked (Option (List Char)) :=
  if text.head? = some '<' then do
    let rest ← behindClosing? '<' '>' text
    return rest.map trimStart
  else return some text

/-- The return type behind the type parameters of a function type. -/
def returnTypeBehind (text : List Char) : Checked (Option (List Char)) :=
  if text.head? = some '(' then do
    let rest ← behindClosing? '(' ')' text
    return rest.bind fun rest => (dropPrefix? "=>".toList (trimStart rest)).map trim
  else return none

/-- The return type of a function type. -/
def returnTypeOf (functionType : List Char) : Checked (Option (List Char)) := do
  match ← behindTypeParameters? (trim functionType) with
  | none => return none
  | some parameters => returnTypeBehind parameters

/-! ### No step fails -/

theorem classify_ok {line : List Char} (h : byteLength line < countLimit) (column : Nat) :
    classify line column = .ok (Insight.classify line column) := by
  rw [classify, before_ok h]
  rfl

/-- A text walked over backwards begins with its last character. -/
theorem reverse_indices_concat (a : List Char) (c : Char) :
    (indices 0 (a ++ [c])).reverse = (byteLength a, c) :: (indices 0 a).reverse := by
  rw [indices_append, List.reverse_append, Nat.zero_add]
  rfl

theorem activeCallFrom_ok {text cs : List Char} {depth commas : Nat} {quote : Option Char}
    (htext : cs.reverse <+: text) (hcommas : commas + byteLength cs.reverse < countLimit) :
    activeCallFrom text depth commas quote (indices 0 cs.reverse).reverse =
      .ok (activeCallBackwards depth commas quote cs) := by
  induction cs generalizing depth commas quote with
  | nil => rfl
  | cons c cs ih =>
    rw [List.reverse_cons] at htext hcommas ⊢
    have hleft := (List.prefix_append cs.reverse [c]).trans htext
    have hlength : byteLength (cs.reverse ++ [c]) = byteLength cs.reverse + c.utf8Size :=
      byteLength_append _ _
    have hpos := c.utf8Size_pos
    have ih := fun {depth commas quote} (hcommas : commas + byteLength cs.reverse < countLimit) =>
      @ih depth commas quote hleft hcommas
    rw [reverse_indices_concat, activeCallFrom.eq_def, activeCallBackwards.eq_def]
    cases quote with
    | some q => exact ih (by omega)
    | none =>
      dsimp only
      split_ifs with hquote hclosing hopening hdepth hparenthesis hdepth hcomma
      · exact ih (by omega)
      · exact ih (by omega)
      · obtain ⟨d, rfl⟩ := Nat.exists_eq_add_one.mpr hdepth
        rw [minus_one_ok.mpr rfl]
        exact ih (by omega)
      · rfl
      · obtain ⟨d, rfl⟩ := Nat.exists_eq_add_one.mpr hdepth
        rw [minus_one_ok.mpr rfl]
        exact ih (by omega)
      · rw [cut_start hleft]
        rfl
      · rw [plus_ok (by omega)]
        exact ih (by omega)
      · exact ih (by omega)

theorem activeCall_ok {text : List Char} (h : byteLength text < countLimit) :
    activeCall text = .ok (Insight.activeCall text) := by
  have hwalk := @activeCallFrom_ok text text.reverse 0 0 none
  rw [List.reverse_reverse, Nat.zero_add] at hwalk
  exact hwalk (List.prefix_refl text) h

/-- The walk behind the opening parenthesis, which starts where `passed` ends. -/
theorem parameterListFrom_opened {label passed inner cs : List Char} (angle : Int) {depth : Nat}
    {previous : Char} (hlabel : label = passed ++ '(' :: (inner ++ cs)) :
    parameterListFrom label angle (some (byteLength passed)) (depth + 1) previous
        (indices (byteLength passed + 1 + byteLength inner) cs) =
      .ok ((listEnd? depth cs).map (inner ++ ·)) := by
  induction cs generalizing inner depth previous with
  | nil => rfl
  | cons c cs ih =>
    have hnext : label = passed ++ '(' :: ((inner ++ [c]) ++ cs) := by
      rw [hlabel, List.append_assoc inner, List.singleton_append]
    have hbyte : byteLength passed + 1 + byteLength inner + c.utf8Size =
        byteLength passed + 1 + byteLength (inner ++ [c]) := by
      rw [byteLength_append, Nat.add_assoc]
      rfl
    have hinner : (inner ++ ·) ∘ (c :: ·) = fun list => (inner ++ [c]) ++ list :=
      funext fun list => by rw [Function.comp_apply, List.append_assoc, List.singleton_append]
    rw [indices, parameterListFrom, listEnd?.eq_def, hbyte]
    dsimp only
    split_ifs with hopening hclosing
    · rw [ih hnext, Option.map_map, hinner]
    · rw [minus_one_ok.mpr rfl, ok_bind]
      cases depth with
      | zero =>
        have hcut : cut label (byteLength passed + 1) (byteLength passed + 1 + byteLength inner) =
            .ok inner := by
          refine cut_eq_ok_iff.mpr ⟨passed ++ ['('], c :: cs, ?_, ?_, ?_⟩
          · rw [hlabel, List.append_assoc, List.singleton_append]
          · rw [byteLength_append]
            rfl
          · rw [byteLength_append]
            rfl
        rw [if_pos rfl, hcut]
        simp only [ok_bind, Option.map_some, List.append_nil]
        rfl
      | succ depth =>
        rw [if_neg (Nat.succ_ne_zero depth), ih hnext, Option.map_map, hinner]
    · rw [ih hnext, Option.map_map, hinner]

theorem parameterListFrom_ok {label passed cs : List Char} {angle : Int} {previous : Char}
    (hlabel : label = passed ++ cs) :
    parameterListFrom label angle none 0 previous (indices (byteLength passed) cs) =
      .ok (listStart? angle previous cs) := by
  induction cs generalizing passed angle previous with
  | nil => rfl
  | cons c cs ih =>
    have hnext : label = (passed ++ [c]) ++ cs := by
      rw [hlabel, List.append_assoc, List.singleton_append]
    have hbyte : byteLength passed + c.utf8Size = byteLength (passed ++ [c]) :=
      (byteLength_append passed [c]).symm
    rw [indices, parameterListFrom, listStart?, hbyte]
    split_ifs with hopening hclosing hparenthesis
    · exact ih hnext
    · exact ih hnext
    · obtain ⟨rfl, -⟩ := hparenthesis
      have hopened := @parameterListFrom_opened label passed [] cs angle 0 '(' hlabel
      rw [byteLength_append]
      exact hopened.trans (congrArg Except.ok Option.map_id')
    · exact ih hnext

theorem parameterList?_ok (label : List Char) :
    parameterList? label = .ok (Insight.parameterList? label) :=
  @parameterListFrom_ok label [] label 0 ' ' rfl

/-- Both walks find the closing bracket in the same place, or none. -/
theorem closingByte?_spec (opening closing : Char) (depth byte : Nat) (cs : List Char) :
    (closingByte? opening closing depth (indices byte cs) = none ∧
      afterClosing? opening closing depth cs = none) ∨
    ∃ inner rest, cs = inner ++ closing :: rest ∧
      closingByte? opening closing depth (indices byte cs) = some (byte + byteLength inner) ∧
      afterClosing? opening closing depth cs = some rest := by
  induction cs generalizing depth byte with
  | nil => exact .inl ⟨rfl, rfl⟩
  | cons c cs ih =>
    have hlater : ∀ depth, (closingByte? opening closing depth (indices (byte + c.utf8Size) cs) =
          none ∧ afterClosing? opening closing depth cs = none) ∨
        ∃ inner rest, c :: cs = inner ++ closing :: rest ∧
          closingByte? opening closing depth (indices (byte + c.utf8Size) cs) =
            some (byte + byteLength inner) ∧
          afterClosing? opening closing depth cs = some rest := by
      intro depth
      rcases ih depth (byte + c.utf8Size) with hnone | ⟨inner, rest, rfl, hbyte, hafter⟩
      · exact .inl hnone
      · rw [Nat.add_assoc] at hbyte
        exact .inr ⟨c :: inner, rest, rfl, hbyte, hafter⟩
    rw [indices, closingByte?.eq_def, afterClosing?.eq_def]
    dsimp only
    split_ifs with hopening hclosing
    · exact hlater (depth + 1)
    · rcases depth with _ | _ | depth
      · exact .inl ⟨rfl, rfl⟩
      · exact .inr ⟨[], cs, congrArg (· :: cs) hclosing, rfl, rfl⟩
      · exact hlater (depth + 1)
    · exact hlater depth

theorem behindClosing?_ok {opening closing : Char} (hsize : closing.utf8Size = 1)
    (text : List Char) :
    behindClosing? opening closing text = .ok (afterClosing? opening closing 0 text) := by
  unfold behindClosing?
  rcases closingByte?_spec opening closing 0 0 text with
    ⟨hbyte, hafter⟩ | ⟨inner, rest, htext, hbyte, hafter⟩
  · rw [hbyte, hafter]
    rfl
  · have hcut : cut text (byteLength inner + 1) (byteLength text) = .ok rest := by
      have hend : byteLength (inner ++ [closing]) = byteLength inner + 1 := by
        rw [byteLength_append, ← hsize]
        rfl
      rw [← hend, htext, ← List.singleton_append, ← List.append_assoc]
      exact cut_rest _ rest
    rw [hbyte, hafter, Nat.zero_add]
    dsimp only
    rw [hcut]
    rfl

theorem behindTypeParameters?_ok (text : List Char) :
    behindTypeParameters? text =
      .ok (if text.head? = some '<' then (afterClosing? '<' '>' 0 text).map trimStart
        else some text) := by
  unfold behindTypeParameters?
  split_ifs
  · rw [behindClosing?_ok (by decide)]
    rfl
  · rfl

theorem returnTypeBehind_ok (text : List Char) :
    returnTypeBehind text = .ok (UtsInsight.returnTypeBehind text) := by
  unfold returnTypeBehind UtsInsight.returnTypeBehind
  split_ifs
  · rw [behindClosing?_ok (by decide)]
    rfl
  · rfl

theorem returnTypeOf_ok (functionType : List Char) :
    returnTypeOf functionType = .ok (UtsInsight.returnTypeOf functionType) := by
  rw [returnTypeOf_eq, returnTypeOf, behindTypeParameters?_ok, ok_bind]
  generalize (if (trim functionType).head? = some '<' then _ else _) = parameters
  cases parameters with
  | none => rfl
  | some parameters => exact returnTypeBehind_ok parameters

end UtsInsight.Checked
