import UtsInsight.Finding.Basic
import UtsInsight.Scope.Bindings
import UtsInsight.Scope.Pattern
import UtsInsight.Syntax.Kinds
import UtsInsight.Vocabulary.Signatures

/-!
# Names that refer to nothing, and names that nothing refers to

An identifier of an expression refers to the declaration that its name resolves to where it stands.
Identifiers that declare, that are bound by a parameter, or that stand where a name means something
else are no references. A reference that resolves neither in the document nor among the global names
is a finding, and so is a local variable that no reference resolves to.
-/

namespace UtsInsight

mutual

/-- The constructs at or below a node that are checked, from the top down and from left to right.
What is inside text that fits nowhere is left out. -/
def Node.checkedPlaces (steps : List Step) : Node → List Place
  | ⟨info, children⟩ =>
    if info.kind = "ERROR" then []
    else ⟨⟨info, children⟩, steps⟩ :: checkedBelow steps ⟨info, children⟩ 0 children

def checkedBelow (steps : List Step) (parent : Node) (index : Nat) : List Node → List Place
  | [] => []
  | c :: cs =>
    (if c.isNamed then c.checkedPlaces (⟨parent, index⟩ :: steps) else [])
      ++ checkedBelow steps parent (index + 1) cs

end

/-- Constructs in which identifiers do not refer to values. -/
def nonReferenceKinds : List String :=
  ["ERROR", "decorator", "import_statement", "index_signature", "enum_body"]

/-- Whether the construct around an identifier leaves it a reference. The new name of an export
and the name of a namespace are none, and neither is a name that is exported from elsewhere. -/
def Place.isReferencePosition (p : Place) : Bool :=
  match p.parent? with
  | none => true
  | some parent =>
    if parent.node.kind = "export_specifier" then !p.isChild "alias"
    else if parent.node.kind = "nested_identifier" then
      !parent.ancestors.head?.any fun n => n.kind == "internal_module" || n.kind == "module"
    else
      !(p.ancestorOfKind? ["export_statement"]).any fun e => (e.child? "source").isSome

/-- Whether a place is an identifier that refers to a value. -/
def Place.isReference (p : Place) (b : Bindings) : Bool :=
  (p.node.kind == "identifier" || p.node.kind == "shorthand_property_identifier")
    && (b.declarationNamedAt p.node.range).isNone
    && !p.inParameterPattern
    && (p.ancestorOfKind? nonReferenceKinds).isNone
    && p.isReferencePosition

/-- The declaration that an identifier refers to by its text and its start. -/
def Place.target? (p : Place) (b : Bindings) (source : List Char) : Option DeclId :=
  b.resolve (p.node.text source) p.node.start .value

/-- The finding for a reference to nothing. -/
def Place.unknownName? (p : Place) (b : Bindings) (source : List Char) : Option Finding :=
  if p.isReference b && (p.target? b source).isNone
      && !Vocabulary.isGlobal (p.node.text source) then
    some ⟨p.node.range, .unknownName (p.node.text source)⟩
  else none

/-- The declarations that the references among places resolve to, one per reference. -/
def referenceTargets (b : Bindings) (source : List Char) (places : List Place) : List DeclId :=
  places.filterMap fun p => if p.isReference b then p.target? b source else none

/-- Whether a declaration is a variable inside a function or block that is expected to be read. A
name that begins with an underscore is not expected to be. -/
def Bindings.expectsReading (b : Bindings) (d : Declaration) : Bool :=
  ((b.scope? d.scope).any (·.kind != .program))
    && (d.kind == .let || d.kind == .const || d.kind == .var)
    && d.name.toList.head? != some '_'

/-- The variables of consecutive declarations, the first of which has the given id, that are not
among the targets of references. -/
def unusedFrom (b : Bindings) (targets : List DeclId) : DeclId → List Declaration → List Finding
  | _, [] => []
  | id, d :: rest =>
    (if b.expectsReading d && !targets.contains id then [⟨d.nameRange, .unused d.name⟩] else [])
      ++ unusedFrom b targets (id + 1) rest

/-- The local variables that no reference resolves to. -/
def Bindings.unusedLocals (b : Bindings) (targets : List DeclId) : List Finding :=
  unusedFrom b targets 0 b.declarations

end UtsInsight
