import UtsInsight.Outline.Piece

/-!
# Declaration headers

A header is the part of a line that declares one name: the introducing keyword, the name, and what
the kind of declaration puts after it. There is one reader per kind. A header begins at a word
boundary, and the leftmost header of a line wins.

The readers look at one line and know nothing of comments, strings or brackets around the header.
-/

namespace UtsInsight.Outline

open UtsInsight.Text

/-- A header cut into consecutive pieces. `tail` is what follows the name up to the end of the
signature, which for a variable is the end of its type. -/
structure Header where
  keyword : List Char
  gap : List Char
  name : List Char
  tail : List Char
  declaredType : Option (List Char)
  initializer : Option (List Char)
  deriving DecidableEq, Repr

/-- Header text from the keyword to the end of the signature. -/
def Header.text (h : Header) : List Char :=
  h.keyword ++ h.gap ++ h.name ++ h.tail

/-- A keyword, a gap and a name: the pieces and the text after the name. -/
def introduced? (keyword : String) (cs : List Char) : Option (Header × List Char) := do
  let (kw, cs) ← keyword? keyword cs
  let (gap, cs) ← gap? cs
  let (name, cs) ← name? cs
  return (⟨kw, gap, name, [], none, none⟩, cs)

/-- The optional return type behind a parameter list. -/
def withReturnType (header : Header) (tail cs : List Char) : Header :=
  match annotation? (typeRun fun c => c == '{' || c == ';' || c == '=') cs with
  | some ((piece, _), type) => { header with tail := tail ++ piece, declaredType := some type }
  | none => { header with tail }

/-- The keyword `function`, an optional star and a name, which may all stand close together. -/
def functionName? (cs : List Char) : Option (Header × List Char) := do
  let (kw, cs) ← keyword? "function" cs
  let (before, cs) := blanks cs
  let (star, cs) := (char? '*' cs).getD ([], cs)
  let (after, cs) := blanks cs
  let (name, cs) ← name? cs
  return (⟨kw, before ++ star ++ after, name, [], none, none⟩, cs)

/-- A function without type parameters. -/
def functionHeader? (cs : List Char) : Option Header := do
  let (header, cs) ← functionName? cs
  let (space, cs) := blanks cs
  let (params, cs) ← parameters? cs
  let (after, cs) := blanks cs
  return withReturnType header (space ++ params ++ after) cs

/-- A function with type parameters. -/
def genericFunctionHeader? (cs : List Char) : Option Header := do
  let (header, cs) ← functionName? cs
  let (space, cs) := blanks cs
  let (types, cs) ← angleList? cs
  let (between, cs) := blanks cs
  let (params, cs) ← parameters? cs
  let (after, cs) := blanks cs
  return withReturnType header (space ++ types ++ between ++ params ++ after) cs

/-- A class or interface with optional type parameters. -/
def typeHeader? (keyword : String) (cs : List Char) : Option Header := do
  let (header, cs) ← introduced? keyword cs
  let (space, cs) := blanks cs
  match angleList? cs with
  | some (types, _) => return { header with tail := space ++ types }
  | none => return header

/-- A type alias up to the end of the aliased type. -/
def aliasHeader? (cs : List Char) : Option Header := do
  let (header, cs) ← introduced? "type" cs
  let (space, cs) := blanks cs
  let (types, cs) := (angleList? cs).getD ([], cs)
  let (between, cs) := blanks cs
  let (equals, cs) ← char? '=' cs
  let (after, cs) := blanks cs
  let type := plainRun (· == ';') cs
  return { header with
    tail := space ++ types ++ between ++ equals ++ after ++ type
    declaredType := if type.isEmpty then none else some type }

/-- A keyword and a name alone. -/
def plainHeader? (keyword : String) (cs : List Char) : Option Header :=
  (introduced? keyword cs).map (·.1)

/-- The continuation of a dotted name. -/
def dottedTail (cs : List Char) : List Char :=
  match cs with
  | '.' :: rest =>
    match _read : name? rest with
    | some (name, after) => '.' :: name ++ dottedTail after
    | none => []
  | _ => []
termination_by cs.length
decreasing_by
  have := name?_length (by assumption)
  simp only [List.length_cons]
  omega

/-- A namespace, whose name may be dotted. -/
def namespaceHeader? (cs : List Char) : Option Header :=
  (introduced? "namespace" cs).map fun (header, rest) =>
    { header with name := header.name ++ dottedTail rest }

/-- A variable with its optional type and initializer. -/
def variableHeader? (cs : List Char) : Option Header := do
  let (header, cs) ←
    introduced? "let" cs <|> introduced? "const" cs <|> introduced? "var" cs
  let (space, cs) := blanks cs
  let (header, cs) :=
    match annotation? (typeRun fun c => c == '=' || c == ';') cs with
    | some ((piece, cs), type) =>
      ({ header with tail := space ++ piece, declaredType := some type }, cs)
    | none => (header, cs)
  match (blanks cs).2 with
  | '=' :: cs =>
    let value := plainRun (· == ';') (blanks cs).2
    return { header with initializer := if value.isEmpty then none else some value }
  | _ => return header

/-- Tries `read` at every place of a text from left to right. The reader sees the text from the
place on, and a place counts only at a word boundary: where a word character meets another one, or
none. The answer carries the text before the place. -/
def searchFrom {α : Type} (read : List Char → Option α) (passed : List Char) :
    List Char → Option (List Char × α)
  | [] => none
  | c :: cs =>
    let found := if passed.head?.any isWord == isWord c then none else read (c :: cs)
    match found with
    | some a => some (passed.reverse, a)
    | none => searchFrom read (c :: passed) cs

/-- The leftmost word boundary of a text at which `read` accepts what follows. -/
def search {α : Type} (read : List Char → Option α) (text : List Char) : Option (List Char × α) :=
  searchFrom read [] text

end UtsInsight.Outline
