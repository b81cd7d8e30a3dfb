import UtsInsight.Syntax.Rows

/-!
# Reading the rows of a tree

The rows of a tree of the grammar are read as that tree. Rows behind them add nothing to it as long
as the first tree there begins no deeper than the root.
-/
namespace UtsInsight

/-- The first of the trees does not begin below the given depth. -/
def BeginsWithin (depth : Nat) (trees : List (Nat × Node)) : Prop :=
  ∀ t ∈ trees.head?, t.1 ≤ depth

variable {depth : Nat} {behind : List (Nat × Node)}

theorem BeginsWithin.stops (h : BeginsWithin depth behind) :
    behind.takeWhile (fun t => depth < t.1) = [] ∧
      behind.dropWhile (fun t => depth < t.1) = behind := by
  cases behind with
  | nil => exact ⟨rfl, rfl⟩
  | cons t behind =>
    have hstop : ¬ decide (depth < t.1) = true := by
      rw [decide_eq_true_eq]
      exact Nat.not_lt.mpr (h t rfl)
    exact ⟨List.takeWhile_cons_of_neg hstop, List.dropWhile_cons_of_neg hstop⟩

theorem BeginsWithin.append_siblings (h : BeginsWithin depth behind) (cs : List Node) :
    BeginsWithin depth (cs.map ((depth, ·)) ++ behind) := by
  cases cs with
  | nil => exact h
  | cons c cs =>
    intro t ht
    obtain rfl : (depth, c) = t := Option.mem_some.mp ht
    exact Nat.le_refl depth

mutual

/-- The rows of a tree are read as the tree and what stands behind them. -/
theorem treesOfRows_rows : ∀ (n : Node) (depth : Nat) (rest : List TreeRow),
    BeginsWithin depth (treesOfRows rest) →
      treesOfRows (n.rows depth ++ rest) = (depth, n) :: treesOfRows rest
  | ⟨info, children⟩, depth, rest, hrest => by
    have hdeeper : BeginsWithin (depth + 1) (treesOfRows rest) :=
      fun t ht => Nat.le_succ_of_le (hrest t ht)
    have hbelow : ∀ t ∈ children.map ((depth + 1, ·)), decide (depth < t.1) = true := by
      intro t ht
      obtain ⟨c, -, rfl⟩ := List.mem_map.mp ht
      exact decide_eq_true (Nat.lt_succ_self depth)
    rw [Node.rows, List.cons_append, treesOfRows]
    simp only [treesOfRows_rowsOf children (depth + 1) rest hdeeper,
      List.takeWhile_append_of_pos hbelow, List.dropWhile_append_of_pos hbelow, hrest.stops,
      List.append_nil, List.map_map]
    congr
    exact List.map_id _

theorem treesOfRows_rowsOf : ∀ (cs : List Node) (depth : Nat) (rest : List TreeRow),
    BeginsWithin depth (treesOfRows rest) →
      treesOfRows (rowsOf depth cs ++ rest) = cs.map ((depth, ·)) ++ treesOfRows rest
  | [], _, _, _ => rfl
  | c :: cs, depth, rest, hrest => by
    have hsiblings := treesOfRows_rowsOf cs depth rest hrest
    have hbegins : BeginsWithin depth (treesOfRows (rowsOf depth cs ++ rest)) := by
      rw [hsiblings]
      exact hrest.append_siblings cs
    rw [rowsOf, List.append_assoc, treesOfRows_rows c depth _ hbegins, hsiblings, List.map_cons,
      List.cons_append]

end

/-- Every tree of the grammar is read from its rows. -/
theorem SyntaxTree.ofRows?_rows (tree : SyntaxTree) (depth : Nat) :
    ofRows? (tree.root.rows depth) = some tree := by
  have hread := treesOfRows_rows tree.root depth [] (fun _ => nofun)
  rw [List.append_nil] at hread
  rw [ofRows?, hread, List.head?_cons, Option.bind_some, ofRoot?_root]

/-- A pattern that is a mere token is not of the grammar. -/
example : (SyntaxTree.ofRows?
    [⟨0, ⟨"array_pattern", false, false, false, false, 0, 0, none⟩⟩]).isNone = true := by
  decide +kernel

end UtsInsight
