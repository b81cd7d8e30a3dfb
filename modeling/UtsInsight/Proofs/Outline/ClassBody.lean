import Mathlib.Data.List.TakeWhile
import UtsInsight.Outline.Methods

/-!
# The lines of a class body

Where the body of a class ends is decided by the shape of a line and not by its braces: the first
line behind the header that holds a closing brace alone ends it, and without such a line the body
goes on to the end of the text. So the methods are those of the class if its closing brace stands
alone on its line or right above such a line. A class that is closed on the line of its header is
given the methods of the next class.
-/
namespace UtsInsight.Outline

open Text

/-- A closing brace stands alone on the line. -/
def IsLoneBrace (line : List Char) : Prop :=
  trim line = ['}']

instance (line : List Char) : Decidable (IsLoneBrace line) :=
  inferInstanceAs (Decidable (_ = _))

/-- The first line that declares the class. -/
def headerLine? (text : List Char) (className : String) : Option Nat :=
  (contentLines text).findIdx? (declares ["class"] className.toList)

/-- The number of open braces behind a text, unless the one that was opened first is closed in it. -/
def openBraces? : Nat → List Char → Option Nat
  | depth, [] => some depth
  | depth, c :: cs =>
    if c = '{' then openBraces? (depth + 1) cs
    else if c = '}' then
      if depth = 1 then none else openBraces? (depth - 1) cs
    else openBraces? depth cs

/-- The line of the brace that closes the first one opened on consecutive lines. -/
def closingLineFrom? : Nat → Nat → List (List Char) → Option Nat
  | _, _, [] => none
  | depth, n, line :: rest =>
    match openBraces? depth line with
    | some depth => closingLineFrom? depth (n + 1) rest
    | none => some n

/-- The line on which the braces that are opened from the keyword of the class on are balanced
again. -/
def closingLine? (text : List Char) (className : String) : Option Nat := do
  let header ← headerLine? text className
  let line := lineAt text header
  let (before, _) ← search (introduction? ["class"] className.toList) line
  closingLineFrom? 0 header (line.drop before.length :: (contentLines text).drop (header + 1))

/-- Every method of the class stands behind its header and not behind the line on which its braces
are balanced again. -/
def MethodsInside (text : List Char) (className : String) : Prop :=
  ∀ header close, headerLine? text className = some header →
    closingLine? text className = some close →
    ∀ m ∈ classMethods text className,
      ∃ n, header < n ∧ n ≤ close ∧ methodOfLine? (lineAt text n) = some m

variable {text : List Char} {className : String} {header : Nat}

theorem lineAt_eq_getElem {n : Nat} (h : n < (contentLines text).length) :
    lineAt text n = (contentLines text)[n] := by
  simp [lineAt, h]

theorem take_drop_contentLines {start count : Nat}
    (h : start + count ≤ (contentLines text).length) :
    ((contentLines text).drop start).take count = (List.range' start count).map (lineAt text) := by
  apply List.ext_getElem
  · simp
    omega
  · intro i hi hi'
    have hlt : start + i < (contentLines text).length := by
      simp at hi'
      omega
    simp [lineAt_eq_getElem hlt]

/-- The body of a class reaches from its header to the first closing brace alone, or to the end. -/
theorem classBody_eq (hheader : headerLine? text className = some header) :
    ∃ stop, header < stop ∧ stop ≤ (contentLines text).length ∧
      classBody text className =
        (List.range' (header + 1) (stop - (header + 1))).map (lineAt text) ∧
      (∀ n, header < n → n < stop → ¬ IsLoneBrace (lineAt text n)) ∧
      (stop < (contentLines text).length → IsLoneBrace (lineAt text stop)) := by
  obtain ⟨hlt, hfirst⟩ := List.findIdx?_eq_some_iff_findIdx_eq.mp hheader
  let rest := (contentLines text).drop (header + 1)
  let count := rest.findIdx fun line => !(trim line != ['}'])
  have hcount : count ≤ rest.length := List.findIdx_le_length
  have hlength : rest.length = (contentLines text).length - (header + 1) := List.length_drop
  have hbody : classBody text className = rest.take count := by
    simp only [classBody, List.dropWhile_eq_drop_findIdx_not, List.takeWhile_eq_take_findIdx_not,
      Bool.not_not, hfirst, List.drop_drop]
    rfl
  have hlone : ∀ i (hi : i < rest.length),
      (!(trim rest[i] != ['}'])) = true ↔ IsLoneBrace (lineAt text (header + 1 + i)) := by
    intro i hi
    have hi' : header + 1 + i < (contentLines text).length := by omega
    simp [IsLoneBrace, rest, lineAt_eq_getElem hi']
  refine ⟨header + 1 + count, by omega, by omega, ?_, ?_, ?_⟩
  · rw [hbody, take_drop_contentLines (by omega), Nat.add_sub_cancel_left]
  · intro n hn hstop
    obtain ⟨i, rfl⟩ := Nat.exists_eq_add_of_le hn
    have hi : i < count := by omega
    rw [← hlone i (by omega)]
    exact Bool.eq_false_iff.mp (List.not_of_lt_findIdx hi)
  · intro hstop
    rw [← hlone count (by omega)]
    exact @List.findIdx_getElem _ (fun line => !(trim line != ['}'])) rest (by omega)

theorem classMethods_eq_nil (h : headerLine? text className = none) :
    classMethods text className = [] := by
  have hnone : (contentLines text).dropWhile (fun line => !declares ["class"] className.toList line) =
      [] := by
    rw [List.dropWhile_eq_nil_iff]
    intro line hline
    simp [List.findIdx?_eq_none_iff.mp h line hline]
  simp [classMethods, classBody, hnone]

/-- The methods of a class are those of the lines behind its header and before the first closing brace
alone. They stay inside the braces of the class if such a brace stands on the line on which these are
balanced again, or on an earlier line behind the header, or on the line behind it. -/
theorem classMethods_lines (text : List Char) (className : String) :
    (headerLine? text className = none → classMethods text className = []) ∧
      ∀ header, headerLine? text className = some header →
        ∃ stop, header < stop ∧
          classMethods text className = (List.range' (header + 1) (stop - (header + 1))).filterMap
            (fun n => methodOfLine? (lineAt text n)) ∧
          (∀ n, header < n → n < stop → ¬ IsLoneBrace (lineAt text n)) ∧
          (stop < (contentLines text).length → IsLoneBrace (lineAt text stop)) ∧
          ∀ close, closingLine? text className = some close →
            (∃ n, header < n ∧ n ≤ close + 1 ∧ IsLoneBrace (lineAt text n)) →
            MethodsInside text className := by
  refine ⟨classMethods_eq_nil, fun header hheader => ?_⟩
  obtain ⟨stop, hstop, -, hbody, hbefore, hend⟩ := classBody_eq hheader
  have hmethods : classMethods text className =
      (List.range' (header + 1) (stop - (header + 1))).filterMap
        (fun n => methodOfLine? (lineAt text n)) := by
    rw [classMethods, hbody, List.filterMap_map]
    rfl
  refine ⟨stop, hstop, hmethods, hbefore, hend, fun close hclose ⟨n, hn, hle, hlone⟩ => ?_⟩
  have hstop : stop ≤ n := by
    by_contra hlt
    exact hbefore n hn (by omega) hlone
  intro header' close' hheader' hclose' m hm
  obtain rfl : header = header' := Option.some.inj (hheader.symm.trans hheader')
  obtain rfl : close = close' := Option.some.inj (hclose.symm.trans hclose')
  rw [hmethods, List.mem_filterMap] at hm
  obtain ⟨k, hk, hmethod⟩ := hm
  rw [List.mem_range'_1] at hk
  exact ⟨k, by omega, by omega, hmethod⟩

/-- The closing brace of the class stands alone, and another class follows. -/
theorem methodsInside_of_lone_brace :
    headerLine? "class A \x7b\n  m(): void \x7b\x7d\n\x7d\nclass B \x7b\x7d".toList "A" = some 0 ∧
      closingLine? "class A \x7b\n  m(): void \x7b\x7d\n\x7d\nclass B \x7b\x7d".toList "A" = some 2 ∧
      MethodsInside "class A \x7b\n  m(): void \x7b\x7d\n\x7d\nclass B \x7b\x7d".toList "A" := by
  let text := "class A \x7b\n  m(): void \x7b\x7d\n\x7d\nclass B \x7b\x7d".toList
  have hheader : headerLine? text "A" = some 0 := by decide
  have hclose : closingLine? text "A" = some 2 := by decide
  have hlone : IsLoneBrace (lineAt text 2) := by decide
  obtain ⟨-, -, -, -, -, hinside⟩ := (classMethods_lines text "A").2 0 hheader
  exact ⟨hheader, hclose, hinside 2 hclose ⟨2, by omega, by omega, hlone⟩⟩

/-- A class that is closed on the line of its header is given the method of the next class. -/
theorem not_methodsInside_of_one_line :
    ¬ MethodsInside "class A \x7b\x7d\nclass B \x7b\n  m(): void \x7b\x7d\n\x7d".toList "A" := by
  intro hinside
  let text := "class A \x7b\x7d\nclass B \x7b\n  m(): void \x7b\x7d\n\x7d".toList
  have hheader : headerLine? text "A" = some 0 := by decide
  have hclose : closingLine? text "A" = some 0 := by decide
  have hmethod : ⟨"m", "", "void"⟩ ∈ classMethods text "A" := by decide +kernel
  obtain ⟨n, hlt, hle, -⟩ := hinside 0 0 hheader hclose _ hmethod
  omega

end UtsInsight.Outline
