import UtsInsight.Text.Basic

/-!
# Pieces of a declaration header

A header is read from left to right in pieces: blanks, a name, a bracketed list, a type. Each reader
answers the piece it consumed together with the rest, so that the pieces of a header put in a row
are the header's text. A piece always takes as much as it can, and for these pieces a shorter one
would never let the next piece succeed.
-/

namespace UtsInsight.Outline

open UtsInsight.Text

/-- A consumed piece and the text after it. -/
abbrev Piece := List Char × List Char

/-- A run of blanks, possibly empty. -/
def blanks (cs : List Char) : Piece :=
  (cs.takeWhile isBlank, cs.dropWhile isBlank)

/-- A run of at least one blank. -/
def gap? (cs : List Char) : Option Piece :=
  match cs with
  | c :: _ => if isBlank c then some (blanks cs) else none
  | [] => none

/-- A declared name. -/
def name? : List Char → Option Piece
  | c :: cs =>
    if isNameStart c then some (c :: cs.takeWhile isNamePart, cs.dropWhile isNamePart) else none
  | [] => none

theorem name?_eq_append {cs name rest : List Char} (h : name? cs = some (name, rest)) :
    cs = name ++ rest := by
  cases cs with
  | nil => simp [name?] at h
  | cons c cs =>
    simp only [name?] at h
    split at h
    · cases h
      simp [List.takeWhile_append_dropWhile]
    · simp at h

theorem name?_length {cs name rest : List Char} (h : name? cs = some (name, rest)) :
    rest.length ≤ cs.length := by
  simp [name?_eq_append h]

/-- One given character. -/
def char? (expected : Char) : List Char → Option Piece
  | c :: cs => if c = expected then some ([c], cs) else none
  | [] => none

/-- A given word. -/
def keyword? (word : String) (cs : List Char) : Option Piece :=
  (dropPrefix? word.toList cs).map fun rest => (word.toList, rest)

/-- Text up to and with the first closing angle bracket. -/
def angleList? (cs : List Char) : Option Piece :=
  match cs with
  | '<' :: rest =>
    match rest.dropWhile (· != '>') with
    | '>' :: after => some ('<' :: rest.takeWhile (· != '>') ++ ['>'], after)
    | _ => none
  | _ => none

/-- The rest of a parameter list up to its closing parenthesis. Parentheses may be nested once; the
flag tells whether the reader is inside a nested pair. -/
def parametersEnd? : Bool → List Char → Option Piece
  | _, [] => none
  | nested, c :: cs =>
    if c = '(' then
      if nested then none else (parametersEnd? true cs).map fun p => (c :: p.1, p.2)
    else if c = ')' then
      if nested then (parametersEnd? false cs).map fun p => (c :: p.1, p.2) else some ([c], cs)
    else
      (parametersEnd? nested cs).map fun p => (c :: p.1, p.2)

/-- A parameter list in parentheses. -/
def parameters? : List Char → Option Piece
  | '(' :: cs => (parametersEnd? false cs).map fun p => ('(' :: p.1, p.2)
  | _ => none

/-- The type at the beginning of a text: it stops before a character of `stop`, passes over arrows,
and ends with a character that is not blank and not part of an arrow. Empty if there is none. -/
def typeRun (stop : Char → Bool) : List Char → List Char
  | '=' :: '>' :: cs =>
    match typeRun stop cs with
    | [] => []
    | t => '=' :: '>' :: t
  | c :: cs =>
    if stop c then []
    else match typeRun stop cs with
      | [] => if isBlank c then [] else [c]
      | t => c :: t
  | [] => []

/-- Text that stops before a character of `stop`, without blanks at its end. -/
def plainRun (stop : Char → Bool) (cs : List Char) : List Char :=
  trimEnd (cs.takeWhile fun c => !stop c)

/-- A colon, blanks and a type read by `run`: the piece up to the end of the type, and the type. -/
def annotation? (run : List Char → List Char) (cs : List Char) : Option (Piece × List Char) :=
  match cs with
  | ':' :: rest =>
    let space := blanks rest
    match run space.2 with
    | [] => none
    | t => some ((':' :: space.1 ++ t, space.2.drop t.length), t)
  | _ => none

end UtsInsight.Outline
