import Mathlib.Data.List.Induction
import UtsInsight.Proofs.Text.Brackets

/-!
# Cutting texts with matching brackets

A text that closes an open bracket splits at the bracket that does it: what comes before matches in
itself, and what comes behind closes the rest of the stack. A text with a bracket more than it opens
matches no longer, whatever follows. Blanks at the ends make no difference to either.
-/
namespace UtsInsight.Text

variable {stack more cs a : List Char} {o c x : Char}

/-! ### Reading one character -/

theorem Closes.of_arrow (h : Closes stack ('=' :: '>' :: cs)) : Closes stack cs := by
  cases h with
  | arrow h => exact h
  | opening ho _ => cases ho
  | closing hc _ => cases hc
  | plain _ _ harrow _ => exact absurd ⟨rfl, rfl⟩ harrow

theorem Closes.of_opening (h : Closes stack (o :: cs)) (ho : closing? o = some c) :
    Closes (c :: stack) cs := by
  cases h with
  | arrow _ => cases ho
  | opening ho' h =>
    rw [Option.some.inj (ho.symm.trans ho')]
    exact h
  | closing hc _ =>
    rw [closing?_of_isClosing hc] at ho
    cases ho
  | plain ho' _ _ _ =>
    rw [ho] at ho'
    cases ho'

theorem Closes.of_closing (h : Closes stack (c :: cs)) (hc : isClosing c = true) :
    ∃ rest, stack = c :: rest ∧ Closes rest cs := by
  cases h with
  | arrow _ => cases hc
  | opening ho _ =>
    rw [closing?_of_isClosing hc] at ho
    cases ho
  | closing _ h => exact ⟨_, rfl, h⟩
  | plain _ hc' _ _ =>
    rw [hc] at hc'
    cases hc'

theorem Closes.of_plain (h : Closes stack (x :: cs)) (hopening : closing? x = none)
    (hclosing : isClosing x = false) (harrow : ¬ BeginsArrow x cs) : Closes stack cs := by
  cases h with
  | arrow _ => exact absurd ⟨rfl, rfl⟩ harrow
  | opening ho _ =>
    rw [hopening] at ho
    cases ho
  | closing hc _ =>
    rw [hclosing] at hc
    cases hc
  | plain _ _ _ h => exact h

/-! ### The bracket that closes -/

/-- The text does not end in the first half of an arrow that the character would complete. -/
def EndsBefore (c : Char) (cs : List Char) : Prop :=
  c = '>' → cs.getLast? ≠ some '='

theorem EndsBefore.nil : EndsBefore c [] :=
  fun _ => nofun

theorem EndsBefore.cons (h : EndsBefore c cs) (hx : x ≠ '=') : EndsBefore c (x :: cs) := by
  intro hc
  cases cs with
  | nil => exact fun hlast => hx (Option.some.inj hlast)
  | cons d cs =>
    rw [List.getLast?_cons_cons]
    exact h hc

theorem EndsBefore.of_cons (h : EndsBefore c (x :: cs)) : EndsBefore c cs := by
  intro hc
  cases cs with
  | nil => exact nofun
  | cons d cs =>
    have hlast := h hc
    rwa [List.getLast?_cons_cons] at hlast

theorem EndsBefore.of_suffix (h : EndsBefore c cs) (hsuffix : a <:+ cs) : EndsBefore c a := by
  obtain ⟨t, rfl⟩ := hsuffix
  induction t with
  | nil => exact h
  | cons x t ih => exact ih h.of_cons

theorem EndsBefore.trimStart (h : EndsBefore c cs) : EndsBefore c (trimStart cs) :=
  h.of_suffix (List.dropWhile_suffix _)

theorem ne_equals_of_isClosing (h : isClosing x = true) : x ≠ '=' := by
  rintro rfl
  cases h

theorem ne_equals_of_closing? (h : closing? x = some c) : x ≠ '=' := by
  rintro rfl
  cases h

/-- What stands behind a text makes an arrow of its last character only. -/
theorem not_beginsArrow_append {rest : List Char} (h : ¬ BeginsArrow x cs)
    (hends : EndsBefore c (x :: cs)) : ¬ BeginsArrow x (cs ++ c :: rest) := by
  cases cs with
  | nil =>
    rintro ⟨rfl, hhead⟩
    exact hends (Option.some.inj hhead) rfl
  | cons d cs => exact h

/-- A text that closes a bracket inside the stack splits there. -/
theorem Closes.split (h : Closes (more ++ c :: stack) cs) :
    ∃ a b, cs = a ++ c :: b ∧ Closes more a ∧ EndsBefore c a ∧ Closes stack b := by
  generalize hwhole : more ++ c :: stack = whole at h
  induction h generalizing more with
  | nil => exact absurd hwhole (List.append_ne_nil_of_right_ne_nil _ (List.cons_ne_nil _ _))
  | arrow _ ih =>
    obtain ⟨a, b, rfl, ha, hends, hb⟩ := ih hwhole
    refine ⟨'=' :: '>' :: a, b, rfl, .arrow ha, ?_, hb⟩
    intro hc
    rw [List.getLast?_cons_cons]
    exact hends.cons (by decide) hc
  | @opening whole cs o d ho _ ih =>
    obtain ⟨a, b, rfl, ha, hends, hb⟩ := @ih (d :: more) (congrArg (d :: ·) hwhole)
    exact ⟨o :: a, b, rfl, .opening ho ha, hends.cons (ne_equals_of_closing? ho), hb⟩
  | @closing whole cs x hx hrest ih =>
    cases more with
    | nil =>
      obtain ⟨rfl, rfl⟩ := List.cons.inj hwhole
      exact ⟨[], cs, rfl, .nil, .nil, hrest⟩
    | cons y more =>
      obtain ⟨rfl, hmore⟩ := List.cons.inj hwhole
      obtain ⟨a, b, rfl, ha, hends, hb⟩ := ih hmore
      exact ⟨y :: a, b, rfl, .closing hx ha, hends.cons (ne_equals_of_isClosing hx), hb⟩
  | @plain whole cs x hopening hclosing harrow _ ih =>
    obtain ⟨a, b, rfl, ha, hends, hb⟩ := ih hwhole
    cases a with
    | nil =>
      refine ⟨[x], b, rfl, .plain hopening hclosing nofun ha, ?_, hb⟩
      rintro rfl hlast
      exact harrow ⟨Option.some.inj hlast, rfl⟩
    | cons y a =>
      refine ⟨x :: y :: a, b, rfl, .plain hopening hclosing harrow ha, ?_, hb⟩
      intro hc
      rw [List.getLast?_cons_cons]
      exact hends hc

/-- A text that closes more than its stack does not match if a closing bracket follows. -/
theorem not_closes_overclosed (h : Closes (more ++ stack) cs) (hc : isClosing c = true)
    (hends : EndsBefore c cs) (rest : List Char) : ¬ Closes more (cs ++ c :: rest) := by
  generalize hwhole : more ++ stack = whole at h
  induction h generalizing more with
  | nil =>
    obtain ⟨rfl, -⟩ := List.append_eq_nil_iff.mp hwhole
    intro hrest
    obtain ⟨_, hnil, -⟩ := Closes.of_closing hrest hc
    cases hnil
  | arrow _ ih => exact fun hrest => ih hends.of_cons.of_cons hwhole hrest.of_arrow
  | @opening whole cs o d ho _ ih =>
    exact fun hrest => ih hends.of_cons (congrArg (d :: ·) hwhole) (hrest.of_opening ho)
  | closing hx _ ih =>
    intro hrest
    obtain ⟨less, rfl, hless⟩ := hrest.of_closing hx
    exact ih hends.of_cons (List.cons.inj hwhole).2 hless
  | plain hopening hclosing harrow _ ih =>
    intro hrest
    exact ih hends.of_cons hwhole
      (hrest.of_plain hopening hclosing (not_beginsArrow_append harrow hends))

/-- A text with matching brackets and a closing bracket behind it does not match any longer. -/
theorem Balanced.not_overclosed (h : Balanced cs) (hc : isClosing c = true)
    (hends : EndsBefore c cs) (rest : List Char) : ¬ Balanced (cs ++ c :: rest) :=
  @not_closes_overclosed [] [] cs c h hc hends rest

/-- At most one bracket of a kind in a text closes one that stands before the text. -/
theorem closed_unique {b s t : List Char} (hc : isClosing c = true) (ha : Balanced a)
    (hends : EndsBefore c a) (hb : Balanced b) (hends' : EndsBefore c b)
    (h : a ++ c :: s = b ++ c :: t) : a = b ∧ s = t := by
  have hshorter : ∀ {a b s t : List Char}, Balanced a → EndsBefore c a → Balanced b →
      a ++ c :: s = b ++ c :: t → a.length ≤ b.length → a = b ∧ s = t := by
    intro a b s t ha hends hb h hlength
    obtain ⟨between, rfl⟩ : a <+: b :=
      List.prefix_of_prefix_length_le ⟨_, h⟩ (List.prefix_append b _) hlength
    rw [List.append_assoc, List.append_cancel_left_eq] at h
    cases between with
    | nil => exact ⟨(List.append_nil a).symm, (List.cons.inj h).2⟩
    | cons d between =>
      obtain rfl := (List.cons.inj h).1
      exact absurd hb (ha.not_overclosed hc hends between)
  rcases Nat.le_total a.length b.length with hlength | hlength
  · exact hshorter ha hends hb h hlength
  · obtain ⟨hab, hst⟩ := hshorter hb hends' ha h.symm hlength
    exact ⟨hab.symm, hst.symm⟩

/-- The bracket that closes the first one of a text with matching brackets. -/
theorem Balanced.split (h : Balanced (o :: cs)) (ho : closing? o = some c) :
    ∃ a b, cs = a ++ c :: b ∧ Balanced a ∧ EndsBefore c a ∧ Balanced b :=
  @Closes.split [] [] cs c (h.of_opening ho)

/-! ### Blanks at the ends -/

theorem plain_of_isBlank (h : isBlank x = true) :
    closing? x = none ∧ isClosing x = false ∧ x ≠ '=' := by
  refine ⟨?_, ?_, ?_⟩
  · rw [← Option.not_isSome_iff_eq_none]
    intro hsome
    obtain ⟨c, hc⟩ := Option.isSome_iff_exists.mp hsome
    rcases closing?_eq_some.mp hc with ⟨rfl, _⟩ | ⟨rfl, _⟩ | ⟨rfl, _⟩ | ⟨rfl, _⟩ <;> cases h
  · rw [Bool.eq_false_iff]
    intro hclosing
    obtain ⟨o, ho⟩ := isClosing_iff.mp hclosing
    rcases closing?_eq_some.mp ho with ⟨_, rfl⟩ | ⟨_, rfl⟩ | ⟨_, rfl⟩ | ⟨_, rfl⟩ <;> cases h
  · rintro rfl
    cases h

theorem closes_blank_iff (h : isBlank x = true) : Closes stack (x :: cs) ↔ Closes stack cs := by
  obtain ⟨hopening, hclosing, hne⟩ := plain_of_isBlank h
  exact ⟨fun hcs => hcs.of_blank h,
    fun hcs => .plain hopening hclosing (fun harrow => hne harrow.1) hcs⟩

theorem closes_trimStart_iff : Closes stack (trimStart cs) ↔ Closes stack cs := by
  induction cs with
  | nil => exact Iff.rfl
  | cons c cs ih =>
    cases hc : isBlank c with
    | true => rw [trimStart_blank hc, ih, closes_blank_iff hc]
    | false => rw [trimStart_cons hc]

theorem closes_append_blank_iff (h : isBlank x = true) :
    Closes stack (cs ++ [x]) ↔ Closes stack cs := by
  obtain ⟨hopening, hclosing, hne⟩ := plain_of_isBlank h
  constructor
  · intro hwhole
    generalize heq : cs ++ [x] = whole at hwhole
    induction hwhole generalizing cs with
    | nil => exact absurd heq (List.append_ne_nil_of_right_ne_nil _ (List.cons_ne_nil _ _))
    | arrow _ ih =>
      rcases cs with _ | ⟨y, _ | ⟨z, cs⟩⟩
      · cases heq
      · obtain ⟨rfl, -⟩ := List.cons.inj (List.cons.inj heq).2
        cases h
      · obtain ⟨rfl, htail⟩ := List.cons.inj (List.cons.inj heq).2
        rw [(List.cons.inj heq).1]
        exact .arrow (ih htail)
    | opening ho _ ih =>
      cases cs with
      | nil =>
        rw [← (List.cons.inj heq).1, hopening] at ho
        cases ho
      | cons y cs =>
        obtain ⟨rfl, htail⟩ := List.cons.inj heq
        exact .opening ho (ih htail)
    | closing hc _ ih =>
      cases cs with
      | nil =>
        rw [← (List.cons.inj heq).1, hclosing] at hc
        cases hc
      | cons y cs =>
        obtain ⟨rfl, htail⟩ := List.cons.inj heq
        exact .closing hc (ih htail)
    | plain ho hc harrow hrest ih =>
      cases cs with
      | nil =>
        obtain ⟨-, rfl⟩ := List.cons.inj heq
        exact hrest
      | cons y cs =>
        obtain ⟨rfl, rfl⟩ := List.cons.inj heq
        refine .plain ho hc ?_ (ih rfl)
        cases cs with
        | nil => exact nofun
        | cons => exact harrow
  · intro hcs
    have hblank : Closes [] [x] := (closes_blank_iff h).mpr .nil
    have hhead : [x].head? ≠ some '>' := by
      rintro heq
      obtain rfl := Option.some.inj heq
      cases h
    have happend := hcs.append hblank hhead
    rwa [List.append_nil] at happend

theorem closes_trimEnd_iff : Closes stack (trimEnd cs) ↔ Closes stack cs := by
  induction cs using List.reverseRecOn with
  | nil => exact Iff.rfl
  | append_singleton cs c ih =>
    cases hc : isBlank c with
    | true =>
      rw [closes_append_blank_iff hc, ← ih, trimEnd, List.reverse_append, List.reverse_singleton,
        List.singleton_append, List.dropWhile_cons, if_pos hc]
      rfl
    | false =>
      rw [trimEnd, List.reverse_append, List.reverse_singleton, List.singleton_append,
        List.dropWhile_cons, if_neg (by rw [hc]; exact Bool.false_ne_true), List.reverse_cons,
        List.reverse_reverse]

theorem balanced_trim_iff : Balanced (trim cs) ↔ Balanced cs :=
  closes_trimEnd_iff.trans closes_trimStart_iff

/-! ### Groups -/

/-- Texts in a row close their stacks in a row, unless the character between them ends an arrow. -/
theorem Closes.append_cons {b : List Char} (ha : Closes stack a) (hends : EndsBefore c a)
    (hb : Closes more (c :: b)) : Closes (stack ++ more) (a ++ c :: b) := by
  induction ha with
  | nil => exact hb
  | arrow _ ih => exact .arrow (ih hends.of_cons.of_cons)
  | opening ho _ ih => exact .opening ho (ih hends.of_cons)
  | closing hc _ ih => exact .closing hc (ih hends.of_cons)
  | plain hopening hclosing harrow _ ih =>
    exact .plain hopening hclosing (not_beginsArrow_append harrow hends) (ih hends.of_cons)

/-- A text with matching brackets in a pair of brackets. -/
theorem Balanced.group (ho : closing? o = some c) (h : Balanced cs) (hends : EndsBefore c cs) :
    Balanced (o :: (cs ++ [c])) :=
  .opening ho (h.append_cons hends (.closing (isClosing_iff.mpr ⟨o, ho⟩) .nil))

end UtsInsight.Text
