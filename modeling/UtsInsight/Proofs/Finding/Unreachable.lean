import Mathlib.Data.List.TakeWhile
import UtsInsight.Finding.Check
import UtsInsight.Proofs.Syntax.Children
import UtsInsight.Scope.Binder

/-!
# Statements that are not reached

A block is left at the first of its statements that returns, throws or jumps. What stands behind it
is lost, except for comments, empty statements and functions, which are declared before the block
runs. One range is reported, from the first to the last of what is lost. It begins behind the
statement that leaves the block and holds all that is lost. It also holds a function that stands
between two lost statements, although the function can be reached, and no other function.
-/
namespace UtsInsight

/-- Constructs whose statements run one after another. -/
def blockKinds : List String :=
  ["statement_block", "program", "switch_case", "switch_default"]

/-- What does something in a block. -/
def Node.isStatement (n : Node) : Bool :=
  n.isNamed && (n.kind != "comment" && n.kind != "empty_statement")

/-- What is missed if control does not get to it. -/
def Node.isLost (n : Node) : Bool :=
  n.isStatement && n.kind != "function_declaration"

/-- The first statement that leaves a block, with the children before and behind it. -/
structure Node.LeftAt (block : Node) (before : List Node) (leaving : Node) (behind : List Node) :
    Prop where
  whole : block.children = before ++ leaving :: behind
  named : leaving.isNamed = true
  leaves : leavesBlock leaving.kind = true
  first : ∀ n ∈ before, n.isNamed = true → leavesBlock n.kind = false

/-- A child has something on both sides that is lost. -/
def AmidLost (behind : List Node) (c : Node) : Prop :=
  ∃ left right, behind = left ++ c :: right ∧ left.any Node.isLost ∧ right.any Node.isLost

/-- What the range that is reported for a block holds and what is apart from it. -/
structure Node.MarksLost (block leaving : Node) (behind : List Node) (f : Finding) : Prop where
  message : f.message = "Unreachable code detected."
  starts : leaving.stop ≤ f.range.start
  covers : ∀ c ∈ behind, c.isLost = true → f.range.start ≤ c.start ∧ c.stop ≤ f.range.stop
  amid : ∀ c, AmidLost behind c → f.range.start ≤ c.start ∧ c.stop ≤ f.range.stop
  apart : ∀ c ∈ block.children, c.kind = "function_declaration" → ¬ AmidLost behind c →
    c.stop ≤ f.range.start ∨ f.range.stop ≤ c.start

variable {block leaving first last c : Node} {before behind lost : List Node} {f : Finding}

/-! ### What is lost -/

theorem unreachableStatements_eq (block : Node) :
    unreachableStatements block =
      (((block.children.filter Node.isStatement).dropWhile
        fun n => !leavesBlock n.kind).drop 1).filter fun n => n.kind != "function_declaration" := by
  unfold unreachableStatements Node.namedChildren
  dsimp only
  rw [List.filter_filter]
  congr 4
  funext n
  exact Bool.and_comm _ _

namespace Node

theorem isStatement_of_leaves {n : Node} (hnamed : n.isNamed = true)
    (hleaves : leavesBlock n.kind = true) : n.isStatement = true := by
  have hne : ∀ kind ∈ ["comment", "empty_statement"], n.kind ≠ kind := by
    have hstays : ∀ kind ∈ ["comment", "empty_statement"], leavesBlock kind = false := by decide
    intro kind hkind heq
    rw [heq, hstays kind hkind] at hleaves
    cases hleaves
  simp only [isStatement, hnamed, Bool.true_and, Bool.and_eq_true, bne_iff_ne]
  exact ⟨hne _ (by decide), hne _ (by decide)⟩

theorem isNamed_of_isStatement {n : Node} (h : n.isStatement = true) : n.isNamed = true :=
  (Bool.and_eq_true_iff.mp h).1

theorem not_isLost_of_function (hc : c.kind = "function_declaration") : c.isLost = false := by
  rw [isLost, hc, bne_self_eq_false, Bool.and_false]

namespace LeftAt

theorem unreachableStatements_eq (h : block.LeftAt before leaving behind) :
    unreachableStatements block = behind.filter isLost := by
  have hstays : ∀ n ∈ before.filter isStatement, (!leavesBlock n.kind) = true := by
    intro n hn
    obtain ⟨hmem, hstatement⟩ := List.mem_filter.mp hn
    rw [h.first n hmem (isNamed_of_isStatement hstatement), Bool.not_false]
  have hleaves : ¬ (!leavesBlock leaving.kind) = true := by
    rw [h.leaves]
    decide
  rw [UtsInsight.unreachableStatements_eq, h.whole, List.filter_append,
    List.filter_cons_of_pos (isStatement_of_leaves h.named h.leaves),
    List.dropWhile_append_of_pos hstays,
    List.dropWhile_cons_of_neg (p := fun n : Node => !leavesBlock n.kind) hleaves, List.drop_one,
    List.tail_cons, List.filter_filter]
  exact List.filter_congr fun n _ => Bool.and_comm _ _

end LeftAt

/-- Nothing is lost in a block that is never left. -/
theorem unreachableStatements_eq_nil (h : ∀ n ∈ block.namedChildren, leavesBlock n.kind = false) :
    unreachableStatements block = [] := by
  have hstays : ∀ n ∈ block.children.filter isStatement, (!leavesBlock n.kind) = true := by
    intro n hn
    obtain ⟨hmem, hstatement⟩ := List.mem_filter.mp hn
    rw [h n (List.mem_filter.mpr ⟨hmem, isNamed_of_isStatement hstatement⟩), Bool.not_false]
  rw [unreachableStatements_eq, List.dropWhile_eq_nil_iff.mpr hstays, List.drop_nil]
  rfl

theorem exists_leftAt (h : unreachableStatements block ≠ []) :
    ∃ before leaving behind, block.LeftAt before leaving behind := by
  let isLeaving : Node → Bool := fun n => n.isNamed && leavesBlock n.kind
  cases hfound : block.children.find? isLeaving with
  | none =>
    refine absurd (unreachableStatements_eq_nil fun n hn => ?_) h
    obtain ⟨hmem, hnamed⟩ := List.mem_filter.mp hn
    have hstays := List.find?_eq_none.mp hfound n hmem
    simpa only [isLeaving, hnamed, Bool.true_and, Bool.not_eq_true] using hstays
  | some leaving =>
    obtain ⟨hleaving, before, behind, hwhole, hfirst⟩ := List.find?_eq_some_iff_append.mp hfound
    obtain ⟨hnamed, hleaves⟩ := Bool.and_eq_true_iff.mp hleaving
    refine ⟨before, leaving, behind, hwhole, hnamed, hleaves, fun n hn hnnamed => ?_⟩
    have hstays := hfirst n hn
    simpa only [isLeaving, hnnamed, Bool.true_and, Bool.not_eq_true'] using hstays

end Node

/-! ### The reported range -/

theorem unreachable?_eq_none_iff :
    unreachable? block = none ↔ unreachableStatements block = [] := by
  unfold unreachable?
  generalize unreachableStatements block = lost
  cases lost with
  | nil => exact iff_of_true rfl rfl
  | cons n lost =>
    rw [List.head?_cons, List.getLast?_eq_some_getLast (List.cons_ne_nil n lost)]
    exact iff_of_false nofun (List.cons_ne_nil n lost)

theorem exists_ends_of_unreachable? (h : unreachable? block = some f) :
    ∃ first last, (unreachableStatements block).head? = some first ∧
      (unreachableStatements block).getLast? = some last ∧
      f = ⟨⟨first.start, last.stop⟩, .unreachable⟩ := by
  unfold unreachable? at h
  split at h
  next first last hfirst hlast => exact ⟨first, last, hfirst, hlast, (Option.some.inj h).symm⟩
  next => cases h

/-- Nodes that stand one behind the other lie between the first and the last of them. -/
theorem between_ends (hordered : lost.Pairwise fun n m => n.stop ≤ m.start)
    (hforward : ∀ n ∈ lost, n.start ≤ n.stop) (hfirst : lost.head? = some first)
    (hlast : lost.getLast? = some last) (hc : c ∈ lost) :
    first.start ≤ c.start ∧ c.stop ≤ last.stop := by
  constructor
  · obtain ⟨rest, rfl⟩ := List.head?_eq_some_iff.mp hfirst
    rcases List.mem_cons.mp hc with rfl | hmem
    · exact Nat.le_refl _
    · exact Nat.le_trans (hforward first List.mem_cons_self)
        ((List.pairwise_cons.mp hordered).1 c hmem)
  · obtain ⟨rest, rfl⟩ := List.getLast?_eq_some_iff.mp hlast
    rcases List.mem_append.mp hc with hmem | hmem
    · have hbefore := (List.pairwise_append.mp hordered).2.2
      exact Nat.le_trans (hbefore c hmem last (List.mem_singleton_self _))
        (hforward last (List.mem_append_right _ (List.mem_singleton_self _)))
    · rw [List.mem_singleton.mp hmem]

namespace Node.LeftAt

variable (h : block.LeftAt before leaving behind)

include h

theorem behind_sublist : (leaving :: behind).Sublist block.children :=
  h.whole ▸ List.sublist_append_right before _

theorem mem_unreachableStatements_iff {n : Node} :
    n ∈ unreachableStatements block ↔ n ∈ behind ∧ n.isLost = true := by
  rw [h.unreachableStatements_eq, List.mem_filter]

theorem unreachable?_eq_none_iff :
    unreachable? block = none ↔ ∀ n ∈ behind, n.isLost = false := by
  rw [UtsInsight.unreachable?_eq_none_iff, h.unreachableStatements_eq, List.filter_eq_nil_iff]
  simp only [Bool.not_eq_true]

variable (hblock : block.WellFormed) (hf : unreachable? block = some f)

include hblock hf

/-- The range begins behind the statement that leaves the block. -/
theorem stop_le_range : leaving.stop ≤ f.range.start := by
  obtain ⟨first, last, hfirst, -, rfl⟩ := exists_ends_of_unreachable? hf
  have hordered := hblock.self.2.2.sublist h.behind_sublist
  exact (List.pairwise_cons.mp hordered).1 first
    (h.mem_unreachableStatements_iff.mp (List.mem_of_head? hfirst)).1

theorem range_covers (hc : c ∈ behind) (hlost : c.isLost = true) :
    f.range.start ≤ c.start ∧ c.stop ≤ f.range.stop := by
  obtain ⟨first, last, hfirst, hlast, rfl⟩ := exists_ends_of_unreachable? hf
  rw [h.unreachableStatements_eq] at hfirst hlast
  have hsublist : (behind.filter isLost).Sublist block.children :=
    List.filter_sublist.trans ((List.sublist_cons_self _ _).trans h.behind_sublist)
  refine between_ends (hblock.self.2.2.sublist hsublist) (fun n hn => ?_) hfirst hlast
    (List.mem_filter.mpr ⟨hc, hlost⟩)
  exact (hblock.below.of_mem (hsublist.subset hn)).self.1

/-- What stands between two lost statements is covered with them. -/
theorem range_covers_amid (hc : AmidLost behind c) :
    f.range.start ≤ c.start ∧ c.stop ≤ f.range.stop := by
  obtain ⟨left, right, rfl, hleft, hright⟩ := hc
  obtain ⟨x, hx, hxlost⟩ := List.any_eq_true.mp hleft
  obtain ⟨y, hy, hylost⟩ := List.any_eq_true.mp hright
  have hxmem : x ∈ left ++ c :: right := List.mem_append_left _ hx
  have hymem : y ∈ left ++ c :: right :=
    List.mem_append_right _ (List.mem_cons_of_mem c hy)
  have hsublist := (List.sublist_cons_self _ _).trans h.behind_sublist
  have hordered := List.pairwise_append.mp (hblock.self.2.2.sublist hsublist)
  have hxc := hordered.2.2 x hx c List.mem_cons_self
  have hcy := (List.pairwise_cons.mp hordered.2.1).1 y hy
  have hxforward := (hblock.below.of_mem (hsublist.subset hxmem)).self.1
  have hyforward := (hblock.below.of_mem (hsublist.subset hymem)).self.1
  have hxrange := h.range_covers hblock hf hxmem hxlost
  have hyrange := h.range_covers hblock hf hymem hylost
  omega

/-- A function that does not stand between two lost statements is apart from the range. -/
theorem range_apart (hc : c ∈ block.children) (hkind : c.kind = "function_declaration")
    (hamid : ¬ AmidLost behind c) : c.stop ≤ f.range.start ∨ f.range.stop ≤ c.start := by
  have hstart := h.stop_le_range hblock hf
  have hforward := (hblock.below.of_mem (h.behind_sublist.subset List.mem_cons_self)).self.1
  have hordered := hblock.self.2.2
  rw [h.whole] at hc hordered
  obtain ⟨-, hbehind, hbefore⟩ := List.pairwise_append.mp hordered
  rcases List.mem_append.mp hc with hmem | hmem
  · have hle := hbefore c hmem leaving List.mem_cons_self
    omega
  rcases List.mem_cons.mp hmem with rfl | hmem
  · exact .inl hstart
  · obtain ⟨first, last, hfirst, hlast, rfl⟩ := exists_ends_of_unreachable? hf
    obtain ⟨hfirst, hfirstLost⟩ :=
      h.mem_unreachableStatements_iff.mp (List.mem_of_head? hfirst)
    obtain ⟨hlast, hlastLost⟩ :=
      h.mem_unreachableStatements_iff.mp (List.mem_of_getLast? hlast)
    have hne : ∀ {n : Node}, n.isLost = true → n ≠ c := by
      rintro n hn rfl
      rw [not_isLost_of_function hkind] at hn
      cases hn
    obtain ⟨left, right, rfl⟩ := List.append_of_mem hmem
    obtain ⟨-, hright, hleft⟩ := List.pairwise_append.mp (List.pairwise_cons.mp hbehind).2
    -- the function is between the first and the last statement unless it is before or behind both
    rcases List.mem_append.mp hfirst with hfirst | hfirst
    · rcases List.mem_append.mp hlast with hlast | hlast
      · exact .inr (hleft last hlast c List.mem_cons_self)
      · have hlast := (List.mem_cons.mp hlast).resolve_left (hne hlastLost)
        exact absurd ⟨left, right, rfl, List.any_eq_true.mpr ⟨first, hfirst, hfirstLost⟩,
          List.any_eq_true.mpr ⟨last, hlast, hlastLost⟩⟩ hamid
    · have hfirst := (List.mem_cons.mp hfirst).resolve_left (hne hfirstLost)
      exact .inl ((List.pairwise_cons.mp hright).1 first hfirst)

theorem marksLost : block.MarksLost leaving behind f where
  message := by
    obtain ⟨first, last, -, -, rfl⟩ := exists_ends_of_unreachable? hf
    rfl
  starts := h.stop_le_range hblock hf
  covers := fun _ => h.range_covers hblock hf
  amid := fun _ => h.range_covers_amid hblock hf
  apart := fun _ => h.range_apart hblock hf

end Node.LeftAt

/-! ### Findings at a block -/

theorem findings_of_blockKinds {p : Place} (h : p.node.kind ∈ blockKinds) (b : Bindings)
    (source : List Char) : p.findings b source = (unreachable? p.node).toList := by
  have hothers : ∀ kind ∈ blockKinds,
      ¬ (kind = "identifier" ∨ kind = "shorthand_property_identifier") ∧
        kind ≠ "variable_declarator" ∧ kind ≠ "return_statement" := by decide
  obtain ⟨hname, hdeclarator, hreturn⟩ := hothers _ h
  unfold Place.findings
  rw [if_neg hname, if_neg hdeclarator, if_neg hreturn]
  exact if_pos (List.contains_iff_mem.mpr h)

/-- At a block there is one range at most, and only if some statement leaves the block. There is one
exactly if something is lost behind the first such statement. It begins behind that statement and
holds all that is lost. Functions are apart from it, except for those between two lost statements.
-/
theorem unreachable_extent {root : Node} (hroot : root.WellFormed) {p : Place}
    (hp : Place.Below (Place.ofRoot root) p) (hkind : p.node.kind ∈ blockKinds) (b : Bindings)
    (source : List Char) :
    (p.findings b source).length ≤ 1 ∧
    (p.findings b source ≠ [] → ∃ before leaving behind, p.node.LeftAt before leaving behind) ∧
    ∀ before leaving behind, p.node.LeftAt before leaving behind →
      (p.findings b source = [] ↔ ∀ n ∈ behind, n.isLost = false) ∧
      ∀ f ∈ p.findings b source, p.node.MarksLost leaving behind f := by
  have hblock : p.node.WellFormed := Node.Everywhere.at? hroot (hp.at? rfl)
  rw [findings_of_blockKinds hkind, Ne, Option.toList_eq_nil_iff]
  refine ⟨Option.length_toList_le, fun hfound => ?_, fun before leaving behind h => ?_⟩
  · exact Node.exists_leftAt fun hnil => hfound (unreachable?_eq_none_iff.mpr hnil)
  · refine ⟨h.unreachable?_eq_none_iff, fun f hf => ?_⟩
    exact h.marksLost hblock (Option.mem_toList.mp hf)

section

open Node

/-- `throw f(); 1; function f() {} 2;` -/
def hoistedText : List Char :=
  "throw f(); 1; function f() \x7b\x7d 2;".toList

/-- The first statement of the text, which calls the function. -/
def hoistedCall : Node :=
  construct "throw_statement" 0 10 none
    [token "throw" 0 5 none,
      construct "call_expression" 6 9 none
        [construct "identifier" 6 7 (some "function") [],
          construct "arguments" 7 9 (some "arguments") [token "(" 7 8 none, token ")" 8 9 none]],
      token ";" 9 10 none]

def hoistedFunction : Node :=
  construct "function_declaration" 14 29 none
    [token "function" 14 22 none,
      construct "identifier" 23 24 (some "name") [],
      construct "formal_parameters" 24 26 (some "parameters")
        [token "(" 24 25 none, token ")" 25 26 none],
      construct "statement_block" 27 29 (some "body")
        [token "\x7b" 27 28 none, token "\x7d" 28 29 none]]

/-- The statement that is a number. -/
def hoistedNumber (start : Nat) : Node :=
  construct "expression_statement" start (start + 2) none
    [construct "number" start (start + 1) none [], token ";" (start + 1) (start + 2) none]

def hoistedTree : Node :=
  construct "program" 0 32 none [hoistedCall, hoistedNumber 11, hoistedFunction, hoistedNumber 30]

/-- The function is called before the block is left, and yet it is in the range of what is not
reached. -/
theorem unreachable_extent_hoisted :
    let b := Binder.bind hoistedTree hoistedText
    let f : Finding := ⟨⟨11, 32⟩, .unreachable⟩
    hoistedTree.WellFormed ∧ check hoistedTree hoistedText b = [f] ∧
      f.message = "Unreachable code detected." ∧ hoistedFunction ∈ hoistedTree.children ∧
      f.range.start ≤ hoistedFunction.start ∧ hoistedFunction.stop ≤ f.range.stop := by
  intro b f
  let behind := [hoistedNumber 11, hoistedFunction, hoistedNumber 30]
  have hroot : hoistedTree.WellFormed := by decide +kernel
  have hcheck : check hoistedTree hoistedText b = [f] := by decide +kernel
  have hf : f ∈ (Place.ofRoot hoistedTree).findings b hoistedText := by decide +kernel
  have hleft : hoistedTree.LeftAt [] hoistedCall behind := ⟨rfl, rfl, rfl, nofun⟩
  have hamid : AmidLost behind hoistedFunction :=
    ⟨[hoistedNumber 11], [hoistedNumber 30], rfl, by decide, by decide⟩
  obtain ⟨-, -, hextent⟩ := unreachable_extent hroot .refl (by decide) b hoistedText
  have hmarks := (hextent [] hoistedCall behind hleft).2 f hf
  exact ⟨hroot, hcheck, hmarks.message, by simp [hoistedTree, construct],
    hmarks.amid hoistedFunction hamid⟩

end

end UtsInsight
