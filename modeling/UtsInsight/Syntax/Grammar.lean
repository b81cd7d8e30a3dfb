import UtsInsight.Syntax.Everywhere
import UtsInsight.Syntax.Kinds
import UtsInsight.Syntax.Place

/-!
# Trees of the grammar

The trees that the parser makes are those of one grammar, also for a document with errors: what fits
nowhere is kept in nodes of a kind of its own, and the constructs around it are complete. Of what
the grammar says, the part about constructs that hold names and patterns is stated here, by the
kinds of nodes and their roles. A syntax tree is a tree all of whose nodes keep to it. Nothing is
said about the ranges of nodes.

The analyses themselves take any node. What is true of them only because the grammar is as it is, is
stated about syntax trees, or about nodes with the consequence of the grammar that it needs.
-/
namespace UtsInsight

mutual

/-- Whether a node is a name with dots: an identifier, or a construct made for such names that
begins with one. -/
def Node.isDottedName : Node → Bool
  | ⟨info, children⟩ =>
    info.kind == "identifier" ||
      ((info.kind == "nested_identifier" || info.kind == "member_expression") &&
        isDottedNameBelow children)

/-- Whether the first construct of a list is a name with dots. -/
def isDottedNameBelow : List Node → Bool
  | [] => true
  | c :: cs => if c.isNamed then c.isDottedName else isDottedNameBelow cs

end

/-- What the grammar says about a node and its children where they hold names or patterns. -/
structure Node.Grammatical (n : Node) : Prop where
  /-- Patterns are constructs and not tokens. -/
  pattern : isPatternKind n.kind = true → n.isNamed = true
  typeParameters : ∀ t ∈ n.child? "type_parameters", t.kind = "type_parameters"
  /-- Between type parameters there may be text that fits nowhere. -/
  typeParameter : n.kind = "type_parameters" → ∀ c ∈ n.namedChildren,
    (c.child? "name").isSome → c.kind = "type_parameter" ∨ c.kind = "ERROR"
  parameters : ∀ t ∈ n.child? "parameters", t.kind = "formal_parameters"
  dottedName : n.kind = "nested_identifier" → n.isDottedName = true
  /-- A name that is a property and a variable at once is a part of an object pattern. It is no part
  of a pair, and if it has a default value, it is the left side of one for such names. -/
  shorthand : n.kind = "pair_pattern" ∨ n.kind = "assignment_pattern" →
    ∀ c ∈ n.children, c.kind ≠ "shorthand_property_identifier_pattern"
  shorthandLeft : n.kind = "object_assignment_pattern" →
    ∀ (i : Nat) (hi : i < n.children.length),
      n.children[i].kind = "shorthand_property_identifier_pattern" →
        (⟨n, i⟩ : Step).isChild "left" = true

instance (n : Node) : Decidable n.Grammatical :=
  decidable_of_iff (_ ∧ _ ∧ _ ∧ _ ∧ _ ∧ _ ∧ _)
    ⟨fun ⟨h₁, h₂, h₃, h₄, h₅, h₆, h₇⟩ => ⟨h₁, h₂, h₃, h₄, h₅, h₆, h₇⟩,
      fun ⟨h₁, h₂, h₃, h₄, h₅, h₆, h₇⟩ => ⟨h₁, h₂, h₃, h₄, h₅, h₆, h₇⟩⟩

/-- A tree of the grammar. -/
structure SyntaxTree where
  root : Node
  grammatical : root.Everywhere Node.Grammatical

/-- The tree with the given root, if it is one of the grammar. -/
def SyntaxTree.ofRoot? (root : Node) : Option SyntaxTree :=
  if h : root.Everywhere Node.Grammatical then some ⟨root, h⟩ else none

theorem SyntaxTree.ofRoot?_root (tree : SyntaxTree) : ofRoot? tree.root = some tree :=
  dif_pos tree.grammatical

end UtsInsight
