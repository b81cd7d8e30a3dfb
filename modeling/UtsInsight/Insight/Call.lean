import UtsInsight.Insight.Context
import UtsInsight.Insight.Protocol
import UtsInsight.Vocabulary.Signatures

/-!
# Help with the call around the cursor

Only the current line is inspected, backwards from the cursor. The innermost parenthesis that is
still open names the callee, and the commas behind it that are in no bracket count the arguments
already written. A bracket of another kind that is still open means that the cursor is not in an
argument list. Quotes are paired from the cursor backwards, so a quote left open before the cursor
hides what stands before it.
-/

namespace UtsInsight.Insight

open UtsInsight.Text

/-- The call around the cursor: its callee, qualified by the receiver if there is one, and the
number of arguments before the current one. -/
structure ActiveCall where
  callee : String
  activeParameter : Nat
  deriving DecidableEq, Repr

/-- The callee at the end of a text, behind which blanks may stand. -/
def calleeAtEnd? (cs : List Char) : Option String :=
  (nameAtEnd? (trimEnd cs)).map fun (receiver, callee) => qualified receiver callee

/-- Walks over a text given backwards. `depth` counts the brackets closed behind the current place,
`commas` the top-level commas passed, and `quote` is the quote of the string walked through. -/
def activeCallBackwards (depth commas : Nat) (quote : Option Char) :
    List Char → Option ActiveCall
  | [] => none
  | c :: cs =>
    match quote with
    | some q => activeCallBackwards depth commas (if c = q then none else some q) cs
    | none =>
      if c == '"' || c == '\'' || c == '\x60' then activeCallBackwards depth commas (some c) cs
      else if c == ')' || c == ']' || c == '}' then
        activeCallBackwards (depth + 1) commas none cs
      else if c == '[' || c == '{' then
        if 0 < depth then activeCallBackwards (depth - 1) commas none cs else none
      else if c == '(' then
        if 0 < depth then activeCallBackwards (depth - 1) commas none cs
        else (calleeAtEnd? cs.reverse).map fun callee => ⟨callee, commas⟩
      else if c == ',' && depth == 0 then activeCallBackwards depth (commas + 1) none cs
      else activeCallBackwards depth commas none cs

/-- The innermost open call of the text before the cursor. -/
def activeCall (before : List Char) : Option ActiveCall :=
  activeCallBackwards 0 0 none before.reverse

/-! ## Parameter lists -/

/-- Splits a parameter list at the commas outside all brackets. `depth` is the nesting so far, which
stray closing brackets make negative, and `current` the parameter so far, backwards. The bracket of
an arrow closes nothing. -/
def splitParametersFrom (depth : Int) (current : List Char) : List Char → List (List Char)
  | [] =>
    let parameter := trim current.reverse
    if parameter.isEmpty then [] else [parameter]
  | c :: cs =>
    if c == '(' || c == '[' || c == '{' || c == '<' then
      splitParametersFrom (depth + 1) (c :: current) cs
    else if c == '>' && current.head? == some '=' then
      splitParametersFrom depth (c :: current) cs
    else if c == ')' || c == ']' || c == '}' || c == '>' then
      splitParametersFrom (depth - 1) (c :: current) cs
    else if c == ',' && depth == 0 then
      trim current.reverse :: splitParametersFrom depth [] cs
    else splitParametersFrom depth (c :: current) cs

/-- The parameters of a list, without the blanks around them. A blank last one is dropped. -/
def splitParameters (list : List Char) : List (List Char) :=
  splitParametersFrom 0 [] list

/-- The text up to the parenthesis that closes the list, with `depth` further parentheses open. -/
def listEnd? (depth : Nat) : List Char → Option (List Char)
  | [] => none
  | c :: cs =>
    if c = '(' then (listEnd? (depth + 1) cs).map (c :: ·)
    else if c = ')' then
      match depth with
      | 0 => some []
      | d + 1 => (listEnd? d cs).map (c :: ·)
    else (listEnd? depth cs).map (c :: ·)

/-- Looks for the opening parenthesis outside the type parameters. `angle` counts the angle brackets
open so far, and the bracket of an arrow closes none. -/
def listStart? (angle : Int) (previous : Char) : List Char → Option (List Char)
  | [] => none
  | c :: cs =>
    if c = '<' then listStart? (angle + 1) c cs
    else if c = '>' ∧ previous ≠ '=' then listStart? (angle - 1) c cs
    else if c = '(' ∧ angle ≤ 0 then listEnd? 0 cs
    else listStart? angle c cs

/-- The text between the parentheses of the parameter list of a signature. -/
def parameterList? (label : List Char) : Option (List Char) :=
  listStart? 0 ' ' label

/-! ## Signatures -/

/-- The last name of a callee. -/
def lastName (callee : String) : String :=
  String.ofList (tailRun (· != '.') callee.toList)

/-- The signature of a function as the document declares it: label and parameters. -/
def documentSignature? (text : List Char) (callee : String) : Option (String × List String) := do
  let entry ← Outline.find? text (lastName callee) [.genericFunction, .function]
  let signature := entry.signature.toList
  let label := trim ((dropPrefix? "function".toList signature).getD signature)
  let parameters ← parameterList? label
  return (String.ofList label, (splitParameters parameters).map String.ofList)

/-- Help with the call around a position: the built-in signature of the callee, or else the one that
the document declares. -/
def signatureHelp (text : List Char) (position : Position) : Option SignatureHelp := do
  let call ← activeCall (takeUnits position.column (lineAt text position.line))
  match Vocabulary.signature? call.callee with
  | some s => return ⟨s.label, s.parameters, some s.description, call.activeParameter⟩
  | none =>
    let (label, parameters) ← documentSignature? text call.callee
    return ⟨label, parameters, none, call.activeParameter⟩

end UtsInsight.Insight
