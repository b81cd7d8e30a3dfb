import Mathlib.Data.Option.Basic
import UtsInsight.Outline.Entry
import UtsInsight.Proofs.Insight.Stretches

/-!
# Headers are cut out of their lines

Every reader of a header answers pieces that stand in a row at the beginning of the text it is
given: what a piece consumes and what it leaves make up the text before it. So the text of a header
is a beginning of the text it was read from, whichever kind of declaration it belongs to.
-/
namespace UtsInsight.Outline

open Text

/-! ### Pieces -/

/-- The piece and what it leaves are the text. -/
def Piece.Of (cs : List Char) (p : Piece) : Prop :=
  cs = p.1 ++ p.2

variable {cs rest : List Char} {p : Piece}

theorem blanks_of (cs : List Char) : (blanks cs).Of cs :=
  List.takeWhile_append_dropWhile.symm

theorem gap?_of (h : gap? cs = some p) : p.Of cs := by
  unfold gap? at h
  split at h
  · split at h
    · obtain rfl := Option.some.inj h
      exact blanks_of _
    · cases h
  · cases h

theorem char?_of {expected : Char} (h : char? expected cs = some p) : p.Of cs := by
  unfold char? at h
  split at h
  · split at h
    · obtain rfl := Option.some.inj h
      rfl
    · cases h
  · cases h

theorem keyword?_of {word : String} (h : keyword? word cs = some p) : p.Of cs := by
  obtain ⟨rest, hrest, rfl⟩ := Option.map_eq_some_iff.mp h
  exact append_of_dropPrefix? hrest

theorem angleList?_of (h : angleList? cs = some p) : p.Of cs := by
  unfold angleList? at h
  split at h
  next rest =>
    split at h
    next after hafter =>
      obtain rfl := Option.some.inj h
      have hsplit := List.takeWhile_append_dropWhile (p := fun c => c != '>') (l := rest)
      rw [hafter] at hsplit
      unfold Piece.Of
      rw [List.append_assoc, List.singleton_append]
      exact congrArg ('<' :: ·) hsplit.symm
    next => cases h
  next => cases h

theorem parametersEnd?_of {nested : Bool} (h : parametersEnd? nested cs = some p) : p.Of cs := by
  induction cs generalizing nested p with
  | nil => cases h
  | cons c cs ih =>
    have hmap : ∀ {nested : Bool} {p : Piece},
        ((parametersEnd? nested cs).map fun p => (c :: p.1, p.2)) = some p → p.Of (c :: cs) := by
      intro nested p h
      obtain ⟨q, hq, rfl⟩ := Option.map_eq_some_iff.mp h
      exact congrArg (c :: ·) (ih hq)
    rw [parametersEnd?] at h
    split_ifs at h
    · exact hmap h
    · exact hmap h
    · obtain rfl := Option.some.inj h
      rfl
    · exact hmap h

theorem parameters?_of (h : parameters? cs = some p) : p.Of cs := by
  unfold parameters? at h
  split at h
  next cs =>
    obtain ⟨q, hq, rfl⟩ := Option.map_eq_some_iff.mp h
    exact congrArg ('(' :: ·) (parametersEnd?_of hq)
  next => cases h

theorem typeRun_isPrefix (stop : Char → Bool) (cs : List Char) : typeRun stop cs <+: cs := by
  fun_induction typeRun stop cs with
  | case1 | case3 | case4 | case7 => exact List.nil_prefix
  | case2 cs _ ih => exact List.cons_prefix_cons.mpr ⟨rfl, List.cons_prefix_cons.mpr ⟨rfl, ih⟩⟩
  | case5 c cs => exact List.cons_prefix_cons.mpr ⟨rfl, List.nil_prefix⟩
  | case6 c cs _ _ _ ih => exact List.cons_prefix_cons.mpr ⟨rfl, ih⟩

theorem plainRun_isPrefix (stop : Char → Bool) (cs : List Char) : plainRun stop cs <+: cs :=
  (trimEnd_isPrefix _).trans (List.takeWhile_prefix _)

theorem annotation?_of {run : List Char → List Char} (hrun : ∀ cs, run cs <+: cs) {t : List Char}
    (h : annotation? run cs = some (p, t)) : p.Of cs := by
  unfold annotation? at h
  split at h
  next rest =>
    have hrest := List.prefix_iff_eq_append.mp (hrun (blanks rest).2)
    dsimp only at h
    split at h
    next => cases h
    next t _ heq =>
      obtain ⟨rfl, rfl⟩ := Prod.mk.inj (Option.some.inj h)
      unfold Piece.Of
      rw [List.append_assoc, hrest]
      exact congrArg (':' :: ·) (blanks_of rest)
  next => cases h

theorem dottedTail_isPrefix (cs : List Char) : dottedTail cs <+: cs := by
  fun_induction dottedTail cs with
  | case1 rest name after hname ih =>
    rw [name?_eq_append hname]
    exact List.cons_prefix_cons.mpr ⟨rfl, (List.prefix_append_right_inj name).mpr ih⟩
  | case2 | case3 => exact List.nil_prefix

theorem getD_of {read : Option Piece} (h : ∀ {p}, read = some p → p.Of cs) :
    (read.getD ([], cs)).Of cs := by
  cases read with
  | none => rfl
  | some p => exact h rfl

theorem Piece.Of.append (h : p.Of cs) {t : List Char} (ht : p.2 = t) : cs = p.1 ++ t := by
  rw [← ht]
  exact h

/-- A piece and a beginning of what it leaves make up a beginning of the text. -/
theorem Piece.Of.append_isPrefix (h : p.Of cs) {t : List Char} (ht : t <+: p.2) :
    p.1 ++ t <+: cs := by
  unfold Piece.Of at h
  rw [h]
  exact (List.prefix_append_right_inj p.1).mpr ht

/-! ### Headers -/

/-- A header that ends with its name, in front of the rest of a text. -/
def Header.Introduces (header : Header) (cs rest : List Char) : Prop :=
  header.tail = [] ∧ cs = header.text ++ rest

section

variable {header found : Header}

/-- A header that is continued by a beginning of the rest is a beginning of the text. -/
theorem Header.Introduces.isPrefix (h : header.Introduces cs rest) {tail : List Char}
    (htail : tail <+: rest) (declaredType initializer : Option (List Char)) :
    Header.text { header with tail, declaredType, initializer } <+: cs := by
  obtain ⟨hend, rfl⟩ := h
  unfold Header.text
  rw [hend, List.append_nil]
  exact (List.prefix_append_right_inj _).mpr htail

theorem introduced?_introduces {keyword : String}
    (h : introduced? keyword cs = some (header, rest)) : header.Introduces cs rest := by
  obtain ⟨⟨kw, afterKeyword⟩, hkw, h⟩ := Option.bind_eq_some_iff.mp h
  obtain ⟨⟨gap, afterGap⟩, hgap, h⟩ := Option.bind_eq_some_iff.mp h
  obtain ⟨⟨name, afterName⟩, hname, h⟩ := Option.bind_eq_some_iff.mp h
  obtain ⟨rfl, rfl⟩ := Prod.mk.inj (Option.some.inj h)
  refine ⟨rfl, ?_⟩
  rw [(keyword?_of hkw).append ((gap?_of hgap).append (name?_eq_append hname))]
  simp only [Header.text, List.append_assoc, List.append_nil]

theorem functionName?_introduces (h : functionName? cs = some (header, rest)) :
    header.Introduces cs rest := by
  obtain ⟨⟨kw, afterKeyword⟩, hkw, h⟩ := Option.bind_eq_some_iff.mp h
  obtain ⟨⟨name, afterName⟩, hname, h⟩ := Option.bind_eq_some_iff.mp h
  obtain ⟨rfl, rfl⟩ := Prod.mk.inj (Option.some.inj h)
  refine ⟨rfl, ?_⟩
  rw [(keyword?_of hkw).append ((blanks_of afterKeyword).append ((getD_of char?_of).append
    ((blanks_of _).append (name?_eq_append hname))))]
  simp only [Header.text, List.append_assoc, List.append_nil]
  rfl

theorem withReturnType_isPrefix (h : header.Introduces cs rest) {tail after : List Char}
    (htail : ∀ t, t <+: after → tail ++ t <+: rest) :
    (withReturnType header tail after).text <+: cs := by
  unfold withReturnType
  split
  next piece _ type hpiece =>
    exact h.isPrefix (htail _ ⟨_, (annotation?_of (typeRun_isPrefix _) hpiece).symm⟩) _ _
  next =>
    have htail := htail [] List.nil_prefix
    rw [List.append_nil] at htail
    exact h.isPrefix htail _ _

theorem functionHeader?_isPrefix (h : functionHeader? cs = some found) : found.text <+: cs := by
  obtain ⟨⟨header, rest⟩, hname, h⟩ := Option.bind_eq_some_iff.mp h
  obtain ⟨⟨params, after⟩, hparams, h⟩ := Option.bind_eq_some_iff.mp h
  obtain rfl := Option.some.inj h
  refine withReturnType_isPrefix (functionName?_introduces hname) fun t ht => ?_
  rw [List.append_assoc, List.append_assoc]
  exact (blanks_of rest).append_isPrefix
    ((parameters?_of hparams).append_isPrefix ((blanks_of after).append_isPrefix ht))

theorem genericFunctionHeader?_isPrefix (h : genericFunctionHeader? cs = some found) :
    found.text <+: cs := by
  obtain ⟨⟨header, rest⟩, hname, h⟩ := Option.bind_eq_some_iff.mp h
  obtain ⟨⟨types, between⟩, htypes, h⟩ := Option.bind_eq_some_iff.mp h
  obtain ⟨⟨params, after⟩, hparams, h⟩ := Option.bind_eq_some_iff.mp h
  obtain rfl := Option.some.inj h
  refine withReturnType_isPrefix (functionName?_introduces hname) fun t ht => ?_
  simp only [List.append_assoc]
  exact (blanks_of rest).append_isPrefix ((angleList?_of htypes).append_isPrefix
    ((blanks_of between).append_isPrefix ((parameters?_of hparams).append_isPrefix
      ((blanks_of after).append_isPrefix ht))))

theorem typeHeader?_isPrefix {keyword : String} (h : typeHeader? keyword cs = some found) :
    found.text <+: cs := by
  obtain ⟨⟨header, rest⟩, hname, h⟩ := Option.bind_eq_some_iff.mp h
  have hopen := introduced?_introduces hname
  dsimp only at h
  split at h
  next types _ htypes =>
    obtain rfl := Option.some.inj h
    have htail := (angleList?_of htypes).append_isPrefix List.nil_prefix
    rw [List.append_nil] at htail
    exact hopen.isPrefix ((blanks_of rest).append_isPrefix htail) _ _
  next =>
    obtain rfl := Option.some.inj h
    exact ⟨rest, hopen.2.symm⟩

theorem aliasHeader?_isPrefix (h : aliasHeader? cs = some found) : found.text <+: cs := by
  obtain ⟨⟨header, rest⟩, hname, h⟩ := Option.bind_eq_some_iff.mp h
  obtain ⟨⟨equals, after⟩, hequals, h⟩ := Option.bind_eq_some_iff.mp h
  obtain rfl := Option.some.inj h
  refine (introduced?_introduces hname).isPrefix ?_ _ _
  simp only [List.append_assoc]
  exact (blanks_of rest).append_isPrefix ((getD_of angleList?_of).append_isPrefix
    ((blanks_of _).append_isPrefix ((char?_of hequals).append_isPrefix
      ((blanks_of after).append_isPrefix (plainRun_isPrefix _ _)))))

theorem plainHeader?_isPrefix {keyword : String} (h : plainHeader? keyword cs = some found) :
    found.text <+: cs := by
  obtain ⟨⟨header, rest⟩, hname, rfl⟩ := Option.map_eq_some_iff.mp h
  exact ⟨rest, (introduced?_introduces hname).2.symm⟩

theorem namespaceHeader?_isPrefix (h : namespaceHeader? cs = some found) : found.text <+: cs := by
  obtain ⟨⟨header, rest⟩, hname, rfl⟩ := Option.map_eq_some_iff.mp h
  obtain ⟨hend, rfl⟩ := introduced?_introduces hname
  unfold Header.text
  simp only [hend, List.append_nil, ← List.append_assoc]
  exact (List.prefix_append_right_inj _).mpr (dottedTail_isPrefix rest)

theorem variableHeader?_isPrefix (h : variableHeader? cs = some found) : found.text <+: cs := by
  obtain ⟨⟨header, rest⟩, hname, h⟩ := Option.bind_eq_some_iff.mp h
  have hopen : header.Introduces cs rest := by
    rcases (Option.orElse_eq_some _ _ _).mp hname with hlet | ⟨-, hname⟩
    · exact introduced?_introduces hlet
    · rcases (Option.orElse_eq_some _ _ _).mp hname with hconst | ⟨-, hvar⟩
      · exact introduced?_introduces hconst
      · exact introduced?_introduces hvar
  -- the initializer is not part of the text
  cases htyped : annotation? (typeRun fun c => c == '=' || c == ';') (blanks rest).2 with
  | none =>
    simp only [htyped] at h
    split at h <;>
    · obtain rfl := Option.some.inj h
      exact ⟨rest, hopen.2.symm⟩
  | some typed =>
    obtain ⟨⟨piece, after⟩, type⟩ := typed
    have htail := (annotation?_of (typeRun_isPrefix _) htyped).append_isPrefix List.nil_prefix
    rw [List.append_nil] at htail
    have htext := hopen.isPrefix ((blanks_of rest).append_isPrefix htail)
    simp only [htyped] at h
    split at h <;>
    · obtain rfl := Option.some.inj h
      exact htext _ _

end

theorem read_isPrefix {rule : Rule} (hrule : rule ∈ rules) {header : Header}
    (h : rule.read cs = some header) : header.text <+: cs := by
  simp only [rules, List.mem_cons, List.not_mem_nil, or_false] at hrule
  rcases hrule with rfl | rfl | rfl | rfl | rfl | rfl | rfl | rfl | rfl
  · exact genericFunctionHeader?_isPrefix h
  · exact functionHeader?_isPrefix h
  · exact typeHeader?_isPrefix h
  · exact typeHeader?_isPrefix h
  · exact aliasHeader?_isPrefix h
  · exact plainHeader?_isPrefix h
  · exact namespaceHeader?_isPrefix h
  · exact plainHeader?_isPrefix h
  · exact variableHeader?_isPrefix h

end UtsInsight.Outline
