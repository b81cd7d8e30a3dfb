import UtsInsight.Finding.Basic
import UtsInsight.Scope.Bindings

/-!
# Conflicting declarations

Declarations of one name in one scope may conflict, as values and as types. Overloads, functions
without a second body, `var` and parameters tolerate each other; a block-scoped variable tolerates
nothing; an alias tolerates no other type. Every member of a conflict is reported.
-/

namespace UtsInsight

/-- Whether a declaration takes part in conflicts between values. -/
def Declaration.claimsValue (d : Declaration) : Bool :=
  d.kind.inValueSpace && d.kind != .namespace && d.kind != .module && d.kind != .functionSignature

/-- Whether a declaration takes part in conflicts between types. -/
def Declaration.claimsType (d : Declaration) : Bool :=
  d.kind == .typeAlias || d.kind == .interface || d.kind == .classType

/-- The declarations of a group that conflict as values, with the problem they share. -/
def valueConflicts (name : String) (group : List Declaration) : List (Declaration × Problem) :=
  let values := group.filter (·.claimsValue)
  if values.length < 2 then []
  else if values.any (·.kind.isBlockScoped) then
    values.map fun d => (d, .redeclaredVariable name)
  else if values.all (·.kind == .function) then
    let implementations := values.filter (·.hasBody)
    if implementations.length < 2 then []
    else implementations.map fun d => (d, .duplicateImplementation)
  else if values.all fun d => d.kind == .var || d.kind == .parameter then []
  else values.map fun d => (d, .duplicateIdentifier name)

/-- The declarations of a group that conflict as types. -/
def typeConflicts (name : String) (group : List Declaration) : List (Declaration × Problem) :=
  let types := group.filter (·.claimsType)
  if types.any (·.kind == .typeAlias) && 2 ≤ types.length then
    types.map fun d => (d, .duplicateIdentifier name)
  else []

/-- Adds a declaration to the group of its name, or starts a group. -/
def addToGroup (d : Declaration) : List (String × List Declaration) →
    List (String × List Declaration)
  | [] => [(d.name, [d])]
  | (name, group) :: rest =>
    if name = d.name then (name, group ++ [d]) :: rest else (name, group) :: addToGroup d rest

/-- Declarations grouped by name, in the order in which the names first occur. -/
def groupByName (declarations : List Declaration) : List (String × List Declaration) :=
  declarations.foldl (fun groups d => addToGroup d groups) []

/-- The conflicts among the declarations of one scope. -/
def conflictsAmong (declarations : List Declaration) : List (Declaration × Problem) :=
  (groupByName declarations).flatMap fun (name, group) =>
    valueConflicts name group ++ typeConflicts name group

/-- The conflicts of all scopes. -/
def Bindings.conflicts (b : Bindings) : List Finding :=
  b.scopes.flatMap fun scope =>
    (conflictsAmong (scope.declarations.filterMap b.declaration?)).map fun (d, problem) =>
      ⟨d.nameRange, problem⟩

end UtsInsight
