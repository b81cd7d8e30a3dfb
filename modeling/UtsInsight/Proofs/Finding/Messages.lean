import UtsInsight.Finding.Basic

/-!
# Messages tell problems apart

A message is fixed text around the names and types of the document. The first letter tells most of the
wordings apart and one letter further on the others, so whatever the names are, problems of different
causes have different messages. Two findings that a reader cannot tell apart are then of one cause.
-/
namespace UtsInsight

namespace Problem

/-- The number of the constructor of the problem that a message is about. The letters that are looked
at stand before the first name in the message, or behind the last one. -/
def causeOf (message : List Char) : Nat :=
  if message[0]? = some 'U' then if message[2]? = some 'e' then 0 else 8
  else if message[0]? = some 'I' then 1
  else if message[0]? = some 'C' then if message[7]? = some 'r' then 3 else 7
  else if message[0]? = some 'D' then if message[10]? = some 'f' then 4 else 5
  else if message[0]? = some 'T' then 6
  else if message.reverse[2]? = some 'e' then 2 else 9

theorem causeOf_message (p : Problem) : causeOf p.message.toList = p.ctorIdx := by
  cases p with
  | unexpectedToken word =>
    cases word with
    | none => decide
    | some word =>
      change causeOf ("Unexpected token '" ++ word ++ "'.").toList = 0
      simp [causeOf]
  | identifierExpected => decide
  | tokenExpected token =>
    change causeOf ("'" ++ token ++ "' expected.").toList = 2
    simp [causeOf]
  | redeclaredVariable name =>
    change causeOf ("Cannot redeclare block-scoped variable '" ++ name ++ "'.").toList = 3
    simp [causeOf]
  | duplicateImplementation => decide
  | duplicateIdentifier name =>
    change causeOf ("Duplicate identifier '" ++ name ++ "'.").toList = 5
    simp [causeOf]
  | notAssignable actual expected =>
    change causeOf
      ("Type '" ++ actual ++ "' is not assignable to type '" ++ expected ++ "'.").toList = 6
    simp [causeOf]
  | unknownName name =>
    change causeOf ("Cannot find name '" ++ name ++ "'.").toList = 7
    simp [causeOf]
  | unreachable => decide
  | unused name =>
    change causeOf ("'" ++ name ++ "' is declared but its value is never read.").toList = 9
    simp [causeOf]

theorem message_ne_of_ctorIdx_ne {p q : Problem} (h : p.ctorIdx ≠ q.ctorIdx) :
    p.message ≠ q.message := by
  intro hmessage
  rw [← causeOf_message p, ← causeOf_message q, hmessage] at h
  exact h rfl

end Problem

/-! ### Findings that can be told apart -/

namespace Finding

variable {f g : Finding} {fs : List Finding} {range : ByteSpan} {message : String}

/-- Two findings differ in range or message, unless they are about no characters at all. -/
def Differs (f g : Finding) : Prop :=
  f.range.start < f.range.stop → f.range = g.range → f.message ≠ g.message

theorem differs_of_ordered (h : f.range.stop ≤ g.range.start ∨ g.range.stop ≤ f.range.start) :
    f.Differs g := by
  intro hlength hrange
  rw [← hrange] at h
  omega

theorem differs_of_ctorIdx_ne (h : f.problem.ctorIdx ≠ g.problem.ctorIdx) : f.Differs g :=
  fun _ _ => Problem.message_ne_of_ctorIdx_ne h

/-- The finding has the range and the message. -/
def isAs (range : ByteSpan) (message : String) (f : Finding) : Bool :=
  f.range == range && f.message == message

theorem isAs_iff : f.isAs range message = true ↔ f.range = range ∧ f.message = message := by
  rw [isAs, Bool.and_eq_true, beq_iff_eq, beq_iff_eq]

/-- Among findings that differ from each other, a range with characters and a message occur together
once at most. -/
theorem countP_isAs_le_one (hfs : fs.Pairwise Differs) (hlength : range.start < range.stop)
    (message : String) : fs.countP (isAs range message) ≤ 1 := by
  induction fs with
  | nil => exact Nat.zero_le 1
  | cons f fs ih =>
    obtain ⟨hdiffers, hfs⟩ := List.pairwise_cons.mp hfs
    by_cases hf : f.isAs range message = true
    · have hnone : fs.countP (isAs range message) = 0 := by
        refine List.countP_eq_zero.mpr fun g hg hsame => ?_
        obtain ⟨rfl, rfl⟩ := isAs_iff.mp hf
        obtain ⟨hrange, hmessage⟩ := isAs_iff.mp hsame
        exact hdiffers g hg hlength hrange.symm hmessage.symm
      rw [List.countP_cons_of_pos hf]
      omega
    · rw [List.countP_cons_of_neg hf]
      exact ih hfs

end Finding

end UtsInsight
