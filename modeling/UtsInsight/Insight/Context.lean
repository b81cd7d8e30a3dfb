import UtsInsight.Text.Word

/-!
# What the cursor is about to complete

Only the text of the line before the cursor is looked at. Behind a name and a dot a member is
completed, behind a colon a type, behind a name and an opening parenthesis a call; anything else is
the default. Names are runs of name characters, so a cursor behind a dot that follows something else
falls through to the default.
-/

namespace UtsInsight.Insight

open UtsInsight.Text

/-- What stands before the cursor. -/
inductive Context where
  /-- Behind the dot of a receiver. -/
  | member (receiver : String)
  /-- Behind the colon of an annotation. -/
  | type
  /-- Right behind the opening parenthesis of a call. -/
  | call (callee : String) (receiver : Option String)
  | default
  deriving DecidableEq, Repr

/-- A callee with the receiver it is called on, if any. -/
def qualified (receiver : Option String) (callee : String) : String :=
  match receiver with
  | some r => r ++ "." ++ callee
  | none => callee

/-- Receiver and callee of a call, and the callee alone otherwise. -/
def Context.qualifiedCallee : Context → Option String
  | .call callee receiver => some (qualified receiver callee)
  | _ => none

/-- The name at the end of a text, with the name before it if a dot joins them. -/
def nameAtEnd? (cs : List Char) : Option (Option String × String) :=
  let callee := tailRun isNamePart cs
  if callee.isEmpty then none
  else
    let receiver :=
      match (beforeTailRun isNamePart cs).reverse with
      | '.' :: rest =>
        let name := (rest.takeWhile isNamePart).reverse
        if name.isEmpty then none else some (String.ofList name)
      | _ => none
    some (receiver, String.ofList callee)

/-- The context at the end of a text. -/
def contextAfter (before : List Char) : Context :=
  let member :=
    match before.reverse with
    | '.' :: rest =>
      let name := (rest.takeWhile isNamePart).reverse
      if name.isEmpty then none else some (Context.member (String.ofList name))
    | _ => none
  match member with
  | some context => context
  | none =>
    if (trimEnd before).getLast? = some ':' then .type
    else if before.getLast? = some '(' then
      match nameAtEnd? before.dropLast with
      | some (receiver, callee) => .call callee receiver
      | none => .default
    else .default

/-- The context of a column of a line. -/
def classify (line : List Char) (column : Nat) : Context :=
  contextAfter (takeUnits column line)

end UtsInsight.Insight
