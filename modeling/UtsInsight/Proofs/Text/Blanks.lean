import Mathlib.Data.List.Basic
import UtsInsight.Text.Basic

/-!
# Blanks at the ends of a text

Trimming takes blanks from both ends and nothing else, so a text that is trimmed keeps all its solid
characters, and trimming a text that ends in a solid character concerns only what is joined to it.
-/
namespace UtsInsight.Text

/-- Number of characters that are not blank. -/
def solid (cs : List Char) : Nat :=
  cs.countP fun c => !isBlank c

theorem trimStart_cons {c : Char} (h : isBlank c = false) (cs : List Char) :
    trimStart (c :: cs) = c :: cs := by
  rw [trimStart, List.dropWhile_cons, h]
  rfl

theorem trimStart_blank {c : Char} (h : isBlank c = true) (cs : List Char) :
    trimStart (c :: cs) = trimStart cs := by
  rw [trimStart, List.dropWhile_cons, if_pos h, trimStart]

theorem trimStart_append_cons {c : Char} (h : isBlank c = false) (a b : List Char) :
    trimStart (a ++ c :: b) = trimStart a ++ c :: b := by
  induction a with
  | nil => exact trimStart_cons h b
  | cons d a ih =>
    cases hd : isBlank d with
    | true => rw [List.cons_append, trimStart_blank hd, trimStart_blank hd, ih]
    | false => rw [List.cons_append, trimStart_cons hd, trimStart_cons hd, List.cons_append]

theorem trimEnd_cons (c : Char) (cs : List Char) :
    trimEnd (c :: cs) = if trimEnd cs = [] ∧ isBlank c = true then [] else c :: trimEnd cs := by
  unfold trimEnd
  rw [List.reverse_cons, List.dropWhile_append]
  by_cases hcs : cs.reverse.dropWhile isBlank = []
  · cases hc : isBlank c <;>
      simp [hcs, hc]
  · simp [hcs]

/-- Only what stands behind the last solid character is trimmed. -/
theorem trimEnd_append_cons {c : Char} (h : isBlank c = false) (a b : List Char) :
    trimEnd (a ++ c :: b) = a ++ c :: trimEnd b := by
  induction a with
  | nil => rw [List.nil_append, trimEnd_cons, h, if_neg fun h => absurd h.2 Bool.false_ne_true,
      List.nil_append]
  | cons d a ih =>
    have hne : a ++ c :: trimEnd b ≠ [] :=
      List.append_ne_nil_of_right_ne_nil a (List.cons_ne_nil _ _)
    rw [List.cons_append, trimEnd_cons, ih, if_neg fun h => hne h.1, List.cons_append]

theorem trimEnd_trimEnd (cs : List Char) : trimEnd (trimEnd cs) = trimEnd cs := by
  induction cs with
  | nil => rfl
  | cons c cs ih =>
    rw [trimEnd_cons]
    split_ifs with h
    · rfl
    · rw [trimEnd_cons, ih, if_neg h]

theorem trimStart_trimEnd (cs : List Char) : trimStart (trimEnd cs) = trimEnd (trimStart cs) := by
  induction cs with
  | nil => rfl
  | cons c cs ih =>
    cases hc : isBlank c with
    | true =>
      rw [trimStart_blank hc, ← ih, trimEnd_cons]
      split_ifs with h
      · rw [h.1]
      · rw [trimStart_blank hc]
    | false =>
      rw [trimStart_cons hc, trimEnd_cons, hc, if_neg fun h => absurd h.2 Bool.false_ne_true,
        trimStart_cons hc]

theorem trim_trimEnd (cs : List Char) : trim (trimEnd cs) = trim cs := by
  rw [trim, trimStart_trimEnd, trimEnd_trimEnd, trim]

theorem trim_blank {c : Char} (h : isBlank c = true) (cs : List Char) :
    trim (c :: cs) = trim cs := by
  rw [trim, trimStart_blank h, trim]

/-! ### Trimmed texts -/

theorem trimStart_eq_self_iff {cs : List Char} :
    trimStart cs = cs ↔ cs.head?.any isBlank = false := by
  cases cs with
  | nil => exact iff_of_true rfl rfl
  | cons c cs =>
    rw [List.head?_cons, Option.any_some]
    cases hc : isBlank c with
    | true =>
      refine iff_of_false (fun h => ?_) (by decide)
      have hlength := (List.dropWhile_suffix isBlank (l := cs)).length_le
      rw [← trimStart, ← trimStart_blank hc, h] at hlength
      exact Nat.not_succ_le_self _ hlength
    | false => exact iff_of_true (trimStart_cons hc cs) rfl

theorem trimEnd_eq_self_iff {cs : List Char} :
    trimEnd cs = cs ↔ cs.getLast?.any isBlank = false := by
  rw [← List.head?_reverse, ← trimStart_eq_self_iff, trimEnd, ← trimStart, List.reverse_eq_iff]

/-- A text is trimmed if no blank is at either end of it. -/
theorem trim_eq_self_iff {cs : List Char} :
    trim cs = cs ↔ cs.head?.any isBlank = false ∧ cs.getLast?.any isBlank = false := by
  rw [← trimStart_eq_self_iff, ← trimEnd_eq_self_iff]
  constructor
  · intro h
    have hstart : trimStart cs = cs := by
      refine (List.dropWhile_suffix isBlank).eq_of_length_le ?_
      have hlength := (List.dropWhile_suffix isBlank (l := (trimStart cs).reverse)).length_le
      rw [← List.length_reverse, ← trimEnd, ← trim, h, List.length_reverse] at hlength
      exact hlength
    rw [trim, hstart] at h
    exact ⟨hstart, h⟩
  · rintro ⟨hstart, hend⟩
    rw [trim, hstart, hend]

/-! ### Solid characters -/

theorem solid_cons {c : Char} (h : isBlank c = false) (cs : List Char) :
    solid (c :: cs) = solid cs + 1 :=
  List.countP_cons_of_pos (by rw [h]; rfl)

theorem solid_blank {c : Char} (h : isBlank c = true) (cs : List Char) :
    solid (c :: cs) = solid cs :=
  List.countP_cons_of_neg (by rw [h]; decide)

theorem solid_append (a b : List Char) : solid (a ++ b) = solid a + solid b :=
  List.countP_append

theorem solid_trimStart (cs : List Char) : solid (trimStart cs) = solid cs := by
  induction cs with
  | nil => rfl
  | cons c cs ih =>
    cases hc : isBlank c with
    | true =>
      rw [trimStart_blank hc, ih, solid_blank hc]
    | false => rw [trimStart_cons hc]

theorem solid_trimEnd (cs : List Char) : solid (trimEnd cs) = solid cs := by
  have h := solid_trimStart cs.reverse
  unfold solid trimStart at h
  unfold solid trimEnd
  rw [List.countP_reverse, h, List.countP_reverse]

theorem solid_trim (cs : List Char) : solid (trim cs) = solid cs := by
  rw [trim, solid_trimEnd, solid_trimStart]

/-! ### Blanks and words -/

/-- Whether no range of the first table meets one of the second. -/
def rangesApart (rs ss : List (Nat × Nat)) : Bool :=
  rs.all fun r => ss.all fun s => r.2 < s.1 || s.2 < r.1

theorem inRanges_of_rangesApart {rs ss : List (Nat × Nat)} {code : Nat}
    (hapart : rangesApart rs ss = true) (h : inRanges rs code = true) :
    inRanges ss code = false := by
  obtain ⟨r, hr, hcode⟩ := List.any_eq_true.mp h
  refine List.any_eq_false.mpr fun s hs hcode' => ?_
  have hrs := List.all_eq_true.mp (List.all_eq_true.mp hapart r hr) s hs
  simp only [Bool.and_eq_true, Bool.or_eq_true, decide_eq_true_eq] at hcode hcode' hrs
  omega

/-- No character of a word is a blank. -/
theorem isBlank_of_isWord {c : Char} (h : isWord c = true) : isBlank c = false := by
  by_cases hc : c.toNat < 128
  · have hascii : ∀ n : Fin 128, isWord (Char.ofNat n) = true → isBlank (Char.ofNat n) = false := by
      decide +kernel
    rw [← c.ofNat_toNat] at h ⊢
    exact hascii ⟨c.toNat, hc⟩ h
  · rw [isWord, if_neg hc] at h
    exact inRanges_of_rangesApart (by decide +kernel) h

/-- No character of an identifier is a blank. -/
theorem isBlank_of_isIdentifier {c : Char} (h : isIdentifier c = true) : isBlank c = false := by
  by_cases hc : c.toNat < 128
  · have hascii : ∀ n : Fin 128, isIdentifier (Char.ofNat n) = true →
        isBlank (Char.ofNat n) = false := by
      decide +kernel
    rw [← c.ofNat_toNat] at h ⊢
    exact hascii ⟨c.toNat, hc⟩ h
  · have hsign : c ≠ '_' ∧ c ≠ '$' := by
      constructor <;>
      · rintro rfl
        exact hc (by decide)
    simp only [isIdentifier, isAlphanumeric, if_neg hc, hsign, beq_iff_eq, Bool.or_eq_true,
      or_false] at h
    exact inRanges_of_rangesApart (by decide +kernel) h

/-- No character of a declared name is a blank. -/
theorem isBlank_of_isNamePart {c : Char} (h : isNamePart c = true) : isBlank c = false := by
  rcases Bool.or_eq_true_iff.mp h with h | h
  · exact isBlank_of_isWord h
  · rw [eq_of_beq h]
    decide

end UtsInsight.Text
