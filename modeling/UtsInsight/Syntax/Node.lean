import UtsInsight.Text.Position

/-!
# Syntax trees

A tree is what a parser of the language makes of a document: every node has a kind, the bytes it
covers, the name of its role in its parent, and its children in order. Punctuation and keywords are
nodes without a name whose kind is their text. The parser recovers from errors, and what it could
not fit or had to make up is marked.

The parser itself is not part of this library. A tree comes from outside, and nothing here assumes
that ranges are nested or ordered.
-/

namespace UtsInsight

/-- What a node says about itself. -/
structure NodeInfo where
  kind : String
  /-- Whether the node is a construct of the language and not a mere token. -/
  isNamed : Bool
  /-- Whether error recovery made the node up. -/
  isMissing : Bool
  /-- Whether the node holds text that fits nowhere. -/
  isError : Bool
  /-- Whether the parser recorded an error at or below the node. -/
  hasError : Bool
  start : Nat
  stop : Nat
  /-- The role of the node in its parent. -/
  field : Option String
  deriving DecidableEq, Repr, Inhabited

/-- A node with its children in order. -/
structure Node extends NodeInfo where
  children : List Node
  deriving Inhabited

namespace Node

/-- The bytes that a node covers. -/
def range (n : Node) : ByteSpan :=
  ⟨n.start, n.stop⟩

/-- The children that are constructs of the language. -/
def namedChildren (n : Node) : List Node :=
  n.children.filter (·.isNamed)

/-- The first child in the given role. -/
def child? (n : Node) (role : String) : Option Node :=
  n.children.find? (·.field == some role)

/-- The source text of a node. A range that the source cannot be cut at has an empty text. -/
def chars (n : Node) (source : List Char) : List Char :=
  (Text.slice? source n.start n.stop).getD []

def text (n : Node) (source : List Char) : String :=
  String.ofList (n.chars source)

/-- The source text of a node with every run of blanks written as one blank, and none at its ends.
-/
def plainText (n : Node) (source : List Char) : String :=
  String.ofList (Text.collapse (n.chars source))

/-- The type that an annotation states: the text of its first construct, or the whole text of a node
that is no annotation, in both cases without the colon. -/
def annotationText (n : Node) (source : List Char) : String :=
  if ["type_annotation", "opting_type_annotation", "omitting_type_annotation"].contains n.kind then
    match n.namedChildren with
    | inner :: _ => inner.plainText source
    | [] => "any"
  else
    String.ofList (Text.trim ((Text.collapse (n.chars source)).dropWhile (· == ':')))

end Node

mutual

/-- Number of edges on the longest way down from a node. -/
def Node.depth : Node → Nat
  | ⟨_, children⟩ => depthBelow children

/-- The depth of a node with the given children. -/
def depthBelow : List Node → Nat
  | [] => 0
  | c :: cs => max (c.depth + 1) (depthBelow cs)

end

/-- A tree that is nested deeper than it may be. -/
structure TooDeep where
  limit : Nat
  deriving DecidableEq, Repr

def TooDeep.message (e : TooDeep) : String :=
  "syntax tree nested deeper than " ++ toString e.limit ++ " levels"

/-- Refuses a tree that is nested deeper than the limit. -/
def Node.ensureDepth (root : Node) (limit : Nat) : Except TooDeep Node :=
  if limit < root.depth then .error ⟨limit⟩ else .ok root

end UtsInsight
