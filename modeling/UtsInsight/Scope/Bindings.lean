import UtsInsight.Scope.Declaration

/-!
# Scopes and look-up

The bindings of a document are its scopes and its declarations, both in the order in which they were
met. A scope knows the scope around it, the bytes it covers, its declarations in source order, and
an index from names to declarations. A name is looked up from an offset: the innermost scope that
contains the offset comes first, then the scopes around it outwards.
-/

namespace UtsInsight

inductive ScopeKind where
  | program
  | function
  | block
  deriving DecidableEq, Repr

/-- Declarations grouped by name, in the order in which the names and the declarations were added.
-/
abbrev NameIndex := List (String × List DeclId)

namespace NameIndex

/-- The declarations of a name. -/
def ids (index : NameIndex) (name : String) : List DeclId :=
  (index.lookup name).getD []

def add (name : String) (id : DeclId) : NameIndex → NameIndex
  | [] => [(name, [id])]
  | (n, known) :: rest =>
    if n = name then (n, known ++ [id]) :: rest else (n, known) :: add name id rest

end NameIndex

structure Scope where
  kind : ScopeKind
  parent : Option ScopeId
  range : ByteSpan
  declarations : List DeclId
  names : NameIndex
  deriving DecidableEq, Repr

/-- What a name is looked up as. -/
inductive Space where
  | value
  | type
  deriving DecidableEq, Repr

def Space.admits : Space → DeclarationKind → Bool
  | .value, kind => kind.inValueSpace
  | .type, kind => kind.inTypeSpace

/-- The scopes and declarations of a document. -/
structure Bindings where
  scopes : List Scope
  declarations : List Declaration
  deriving DecidableEq, Repr

namespace Bindings

def empty : Bindings :=
  ⟨[], []⟩

def scope? (b : Bindings) (id : ScopeId) : Option Scope :=
  b.scopes[id]?

def declaration? (b : Bindings) (id : DeclId) : Option Declaration :=
  b.declarations[id]?

/-- The innermost scope around an offset among the scopes from the given id on: the last of the
shortest ranges that contain the offset, both ends included, if it is no longer than the best range
so far. -/
def innermostFrom (offset : Nat) (best : ScopeId) (bestLength : Nat) :
    ScopeId → List Scope → ScopeId
  | _, [] => best
  | id, s :: rest =>
    if s.range.start ≤ offset ∧ offset ≤ s.range.stop ∧ s.range.length ≤ bestLength then
      innermostFrom offset id s.range.length (id + 1) rest
    else innermostFrom offset best bestLength (id + 1) rest

/-- The innermost scope around an offset, or the first scope if none contains it. -/
def scopeAt (b : Bindings) (offset : Nat) : ScopeId :=
  match b.scopes with
  | [] => 0
  | s :: _ => innermostFrom offset 0 s.range.length 0 b.scopes

/-- A scope and the scopes around it, from the inside out. A scope is always opened after the scope
around it, so only a smaller id is followed. -/
def outwards (b : Bindings) (id : ScopeId) : List ScopeId :=
  match (b.scope? id).bind (·.parent) with
  | some around => if around < id then id :: b.outwards around else [id]
  | none => [id]

/-- The scopes around an offset, from the inside out. -/
def scopeChain (b : Bindings) (offset : Nat) : List ScopeId :=
  if b.scopes.isEmpty then [] else b.outwards (b.scopeAt offset)

/-- The first declaration of a name in one scope that the space admits. -/
def resolveIn (b : Bindings) (name : String) (space : Space) (id : ScopeId) : Option DeclId :=
  match b.scope? id with
  | some scope =>
    (scope.names.ids name).find? fun d => (b.declaration? d).any fun decl => space.admits decl.kind
  | none => none

/-- The declaration that a name refers to at an offset. -/
def resolve (b : Bindings) (name : String) (offset : Nat) (space : Space) : Option DeclId :=
  (b.scopeChain offset).findSome? (b.resolveIn name space)

/-- The first declaration whose name covers exactly a range. -/
def declarationNamedAt (b : Bindings) (range : ByteSpan) : Option DeclId :=
  b.declarations.findIdx? (·.nameRange == range)

/-- The nearest scope, from a scope outwards, that `var` declarations belong to. -/
def functionScope (b : Bindings) (id : ScopeId) : ScopeId :=
  let chain := b.outwards id
  match chain.find? fun s => (b.scope? s).any (·.kind != .block) with
  | some s => s
  | none => chain.getLast?.getD id

/-- Opens a scope; its id is the number of scopes before. -/
def openScope (b : Bindings) (kind : ScopeKind) (parent : Option ScopeId) (range : ByteSpan) :
    Bindings :=
  { b with scopes := b.scopes ++ [⟨kind, parent, range, [], []⟩] }

/-- Adds a declaration to the scope it names; its id is the number of declarations before. -/
def declare (b : Bindings) (d : Declaration) : Bindings :=
  let id := b.declarations.length
  { scopes := b.scopes.modify d.scope fun s =>
      { s with declarations := s.declarations ++ [id], names := s.names.add d.name id }
    declarations := b.declarations ++ [d] }

end Bindings

end UtsInsight
