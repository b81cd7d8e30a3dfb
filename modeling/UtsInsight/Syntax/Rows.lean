import UtsInsight.Syntax.Grammar

/-!
# Trees as rows

A tree can be written as one row per node, parents before their children and children in order, each
with its depth below the root. The parent of a row is the closest row above it whose depth is one
less. Rows that do not make a tree of the grammar are refused.
-/

namespace UtsInsight

/-- A node without its children, at its depth. -/
structure TreeRow where
  depth : Nat
  info : NodeInfo
  deriving DecidableEq, Repr

/-- The trees that start in a list of rows, each with the depth of its root. -/
def treesOfRows : List TreeRow → List (Nat × Node)
  | [] => []
  | row :: rows =>
    let trees := treesOfRows rows
    let below := trees.takeWhile fun t => row.depth < t.1
    let behind := trees.dropWhile fun t => row.depth < t.1
    (row.depth, ⟨row.info, below.map (·.2)⟩) :: behind

/-- The tree whose root is the first row. -/
def SyntaxTree.ofRows? (rows : List TreeRow) : Option SyntaxTree :=
  (treesOfRows rows).head?.bind fun t => ofRoot? t.2

def Node.ofRows? (rows : List TreeRow) : Option Node :=
  (SyntaxTree.ofRows? rows).map (·.root)

mutual

/-- The rows of a tree whose root has the given depth. -/
def Node.rows (depth : Nat) : Node → List TreeRow
  | ⟨info, children⟩ => ⟨depth, info⟩ :: rowsOf (depth + 1) children

/-- The rows of sibling trees. -/
def rowsOf (depth : Nat) : List Node → List TreeRow
  | [] => []
  | c :: cs => c.rows depth ++ rowsOf depth cs

end

end UtsInsight
