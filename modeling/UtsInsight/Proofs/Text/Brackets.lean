import Mathlib.Data.List.Basic
import UtsInsight.Proofs.Text.Blanks

/-!
# Texts with matching brackets

Types and parameters are texts in which round, square, curly and angle brackets match. The second
character of an arrow looks like an angle bracket and is none, so a text is read from the left, with
a stack of the brackets that are still to be closed.
-/
namespace UtsInsight.Text

/-- The bracket that closes an opening one. -/
def closing? (c : Char) : Option Char :=
  if c = '(' then some ')'
  else if c = '[' then some ']'
  else if c = '{' then some '}'
  else if c = '<' then some '>'
  else none

def isClosing (c : Char) : Bool :=
  c == ')' || c == ']' || c == '}' || c == '>'

/-- The character and the beginning of the text make an arrow. -/
def BeginsArrow (c : Char) (cs : List Char) : Prop :=
  c = '=' ∧ cs.head? = some '>'

/-- The text closes the brackets of the stack in order, and all that it opens itself. -/
inductive Closes : List Char → List Char → Prop
  | nil : Closes [] []
  | arrow {stack cs : List Char} : Closes stack cs → Closes stack ('=' :: '>' :: cs)
  | opening {stack cs : List Char} {o c : Char} : closing? o = some c →
      Closes (c :: stack) cs → Closes stack (o :: cs)
  | closing {stack cs : List Char} {c : Char} : isClosing c = true →
      Closes stack cs → Closes (c :: stack) (c :: cs)
  | plain {stack cs : List Char} {c : Char} : closing? c = none → isClosing c = false →
      ¬ BeginsArrow c cs → Closes stack cs → Closes stack (c :: cs)

/-- Every bracket of the text has its partner in it. -/
def Balanced (cs : List Char) : Prop :=
  Closes [] cs

/-- An arrow stands somewhere in the text. -/
def HasArrow (cs : List Char) : Prop :=
  contains "=>".toList cs = true

instance (cs : List Char) : Decidable (HasArrow cs) :=
  inferInstanceAs (Decidable (_ = _))

/-! ### Brackets -/

theorem closing?_eq_some {o c : Char} :
    closing? o = some c ↔
      (o = '(' ∧ c = ')') ∨ (o = '[' ∧ c = ']') ∨ (o = '{' ∧ c = '}') ∨ (o = '<' ∧ c = '>') := by
  unfold closing?
  grind

theorem isClosing_iff {c : Char} : isClosing c = true ↔ ∃ o, closing? o = some c := by
  simp only [closing?_eq_some, isClosing, Bool.or_eq_true, beq_iff_eq]
  grind

/-- No bracket opens and closes. -/
theorem closing?_of_isClosing {c : Char} (h : isClosing c = true) : closing? c = none := by
  simp only [isClosing, Bool.or_eq_true, beq_iff_eq] at h
  rcases h with ((rfl | rfl) | rfl) | rfl <;> decide

/-- Different brackets are closed by different ones. -/
theorem closing?_inj {o o' c : Char} (h : closing? o = some c) (h' : closing? o' = some c) :
    o = o' := by
  rw [closing?_eq_some] at h h'
  grind

theorem not_beginsArrow_of_closing? {o c : Char} (h : closing? o = some c) (cs : List Char) :
    ¬ BeginsArrow o cs := by
  rintro ⟨rfl, -⟩
  cases h

theorem not_beginsArrow_of_isClosing {c : Char} (h : isClosing c = true) (cs : List Char) :
    ¬ BeginsArrow c cs := by
  rintro ⟨rfl, -⟩
  cases h

/-! ### Deciding -/

/-- Reads a text with a stack of brackets to be closed. -/
def closes : List Char → List Char → Bool
  | stack, [] => stack.isEmpty
  | stack, '=' :: '>' :: cs => closes stack cs
  | stack, c :: cs =>
    match closing? c, isClosing c, stack with
    | some d, _, stack => closes (d :: stack) cs
    | none, false, stack => closes stack cs
    | none, true, [] => false
    | none, true, d :: stack => c == d && closes stack cs

theorem closes_of_not_beginsArrow {c : Char} {cs : List Char} (h : ¬ BeginsArrow c cs)
    (stack : List Char) :
    closes stack (c :: cs) =
      match closing? c, isClosing c, stack with
      | some d, _, stack => closes (d :: stack) cs
      | none, false, stack => closes stack cs
      | none, true, [] => false
      | none, true, d :: stack => c == d && closes stack cs := by
  have hother : ∀ rest, c = '=' → cs = '>' :: rest → False := by
    rintro rest hc rfl
    exact h ⟨hc, rfl⟩
  rw [closes.eq_def]
  split
  next heq => cases heq
  next heq =>
    obtain ⟨hc, hcs⟩ := List.cons.inj heq
    exact (hother _ hc hcs).elim
  next heq =>
    obtain ⟨rfl, rfl⟩ := List.cons.inj heq
    rfl

theorem closes_sound {stack cs : List Char} (h : closes stack cs = true) : Closes stack cs := by
  fun_induction closes stack cs with
  | case1 stack =>
    obtain rfl := List.isEmpty_iff.mp h
    exact .nil
  | case2 stack cs ih => exact .arrow (ih h)
  | case3 stack c cs hother d hd ih => exact .opening hd (ih h)
  | case4 c cs hother stack hclosing hopening ih =>
    refine .plain hopening hclosing ?_ (ih h)
    rintro ⟨rfl, hhead⟩
    obtain ⟨rest, rfl⟩ := List.head?_eq_some_iff.mp hhead
    exact hother rest rfl rfl
  | case5 => cases h
  | case6 c cs hother d stack hclosing hopening ih =>
    obtain ⟨hcd, hrest⟩ := Bool.and_eq_true_iff.mp h
    obtain rfl := eq_of_beq hcd
    exact .closing hclosing (ih hrest)

theorem closes_complete {stack cs : List Char} (h : Closes stack cs) : closes stack cs = true := by
  induction h with
  | nil => rfl
  | arrow _ ih => rw [closes, ih]
  | opening hc _ ih =>
    rw [closes_of_not_beginsArrow (not_beginsArrow_of_closing? hc _), hc]
    exact ih
  | closing hc _ ih =>
    rw [closes_of_not_beginsArrow (not_beginsArrow_of_isClosing hc _), closing?_of_isClosing hc, hc]
    exact Bool.and_eq_true_iff.mpr ⟨beq_self_eq_true _, ih⟩
  | plain hopening hclosing harrow _ ih =>
    rw [closes_of_not_beginsArrow harrow, hopening, hclosing]
    exact ih

instance (cs : List Char) : Decidable (Balanced cs) :=
  decidable_of_iff _ ⟨closes_sound, closes_complete⟩

/-! ### Reading on -/

/-- Texts in a row close their stacks in a row, unless an arrow stands across. -/
theorem Closes.append {stack more a b : List Char} (ha : Closes stack a) (hb : Closes more b)
    (hhead : b.head? ≠ some '>') : Closes (stack ++ more) (a ++ b) := by
  induction ha with
  | nil => exact hb
  | arrow _ ih => exact .arrow ih
  | opening hc _ ih => exact .opening hc ih
  | closing hc _ ih => exact .closing hc ih
  | @plain _ cs _ hopening hclosing harrow _ ih =>
    refine .plain hopening hclosing (fun h => ?_) ih
    cases cs with
    | nil => exact hhead h.2
    | cons => exact harrow h

/-- A blank neither opens nor closes anything. -/
theorem Closes.of_blank {stack cs : List Char} {c : Char} (hc : isBlank c = true)
    (h : Closes stack (c :: cs)) : Closes stack cs := by
  cases h with
  | arrow _ => cases hc
  | opening hopening _ =>
    rcases closing?_eq_some.mp hopening with ⟨rfl, _⟩ | ⟨rfl, _⟩ | ⟨rfl, _⟩ | ⟨rfl, _⟩ <;> cases hc
  | closing hclosing _ =>
    obtain ⟨o, ho⟩ := isClosing_iff.mp hclosing
    rcases closing?_eq_some.mp ho with ⟨_, rfl⟩ | ⟨_, rfl⟩ | ⟨_, rfl⟩ | ⟨_, rfl⟩ <;> cases hc
  | plain _ _ _ h => exact h

theorem Closes.trimStart {stack cs : List Char} (h : Closes stack cs) :
    Closes stack (trimStart cs) := by
  induction cs with
  | nil => exact h
  | cons c cs ih =>
    cases hc : isBlank c with
    | true =>
      rw [trimStart_blank hc]
      exact ih (h.of_blank hc)
    | false => rwa [trimStart_cons hc]

namespace Balanced

theorem head_ne {cs : List Char} (h : Balanced cs) : cs.head? ≠ some '>' := by
  intro hhead
  obtain ⟨rest, rfl⟩ := List.head?_eq_some_iff.mp hhead
  cases h with
  | opening hc _ => cases hc
  | plain _ hclosing _ _ => cases hclosing

theorem append {a b : List Char} (ha : Balanced a) (hb : Balanced b) : Balanced (a ++ b) :=
  Closes.append ha hb hb.head_ne

/-- A list of texts with a text between them. -/
theorem intercalate {separator : List Char} (hseparator : Balanced separator)
    {texts : List (List Char)} (h : ∀ text ∈ texts, Balanced text) :
    Balanced (separator.intercalate texts) := by
  induction texts with
  | nil => exact .nil
  | cons text texts ih =>
    have htext := h text List.mem_cons_self
    have htexts := ih fun t ht => h t (List.mem_cons_of_mem text ht)
    cases texts with
    | nil => simpa only [List.intercalate_singleton] using htext
    | cons next texts =>
      rw [List.intercalate_cons_cons]
      exact (htext.append hseparator).append htexts

end Balanced

/-! ### Arrows -/

theorem hasArrow_arrow (cs : List Char) : HasArrow ('=' :: '>' :: cs) :=
  rfl

theorem hasArrow_cons {x : Char} {cs : List Char} (h : ¬ BeginsArrow x cs) :
    HasArrow (x :: cs) ↔ HasArrow cs := by
  have hprefix : ['=', '>'].isPrefixOf (x :: cs) = false := by
    rw [Bool.eq_false_iff]
    intro hprefix
    obtain ⟨rest, hrest⟩ := List.isPrefixOf_iff_prefix.mp hprefix
    obtain ⟨rfl, rfl⟩ := List.cons.inj hrest
    exact h ⟨rfl, rfl⟩
  unfold HasArrow
  rw [contains, show "=>".toList = ['=', '>'] from rfl, hprefix, Bool.false_or]

theorem hasArrow_group {inner : List Char} (h : inner.getLast? ≠ some '=') :
    HasArrow ('<' :: (inner ++ ['>'])) ↔ HasArrow inner := by
  rw [hasArrow_cons fun h => absurd h.1 (by decide)]
  induction inner with
  | nil => decide
  | cons x inner ih =>
    by_cases hx : BeginsArrow x inner
    · obtain ⟨rfl, hhead⟩ := hx
      obtain ⟨rest, rfl⟩ := List.head?_eq_some_iff.mp hhead
      exact iff_of_true (hasArrow_arrow _) (hasArrow_arrow _)
    · have hx' : ¬ BeginsArrow x (inner ++ ['>']) := by
        cases inner with
        | nil => exact fun hx' => h (congrArg some hx'.1)
        | cons => exact hx
      have hlast : inner.getLast? ≠ some '=' := by
        cases inner with
        | nil => exact nofun
        | cons => rwa [List.getLast?_cons_cons] at h
      rw [List.cons_append, hasArrow_cons hx', hasArrow_cons hx, ih hlast]

end UtsInsight.Text
