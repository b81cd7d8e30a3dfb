import UtsInsight.Proofs.Outline.Edges
import UtsInsight.Proofs.Outline.FunctionHeader
import UtsInsight.Proofs.Outline.Pieces
import UtsInsight.Text.Word

/-!
# Keywords and names of the outline

Every entry of the outline stands behind a keyword of its kind. The keyword begins where no word
character is before it, and the name ends where no name goes on. Between them is a gap, and whether
the keyword ends as a word and whether the name begins as one is the same question: there has to be
a gap. Only functions are listed without one, so that a call of `functionName` counts as a function
called `Name`. Before the keyword only word characters are looked at, so a dollar sign, which is one
of the characters of an identifier, does not keep `$let` from being read as `let`.
-/
namespace UtsInsight

open Text

/-- Keywords that introduce an entry of the kind. -/
def SymbolKind.keywords : SymbolKind → List String
  | .function | .genericFunction => ["function"]
  | .classType => ["class"]
  | .interface => ["interface"]
  | .typeAlias => ["type"]
  | .enum => ["enum"]
  | .namespace => ["namespace"]
  | .module => ["module"]
  | .variable => ["let", "var"]
  | .constant => ["const"]

namespace Outline

/-- The kind of the entry that a rule makes of a header. -/
def Header.kindOf (header : Header) (rule : SymbolKind) : SymbolKind :=
  if rule = .variable ∧ header.keyword = "const".toList then .constant else rule

/-- Names joined by dots. -/
inductive IsPath : List Char → Prop
  | name {n : List Char} (h : IsName n) : IsPath n
  | dot {n path : List Char} (h : IsName n) (hpath : IsPath path) : IsPath (n ++ '.' :: path)

/-- A text opens with a keyword of the kind, a gap and a name that `rest` does not go on with. -/
structure Opens (kind : SymbolKind) (cs keyword gap name rest : List Char) : Prop where
  text : cs = keyword ++ (gap ++ (name ++ rest))
  introduces : String.ofList keyword ∈ kind.keywords
  blank : ∀ c ∈ gap, isBlank c = true ∨ c = '*'
  separated : gap = [] → kind.isFunction = true
  path : IsPath name
  single : kind ≠ .namespace → IsName name
  maximal : rest.head?.any isNamePart = false

section

variable {kind : SymbolKind} {cs rest keyword gap name : List Char} {header : Header}

/-! ### Names -/

theorem isNameStart_ascii {c : Char} (h : isNameStart c = true) :
    isNamePart c = true ∧ isIdentifier c = true := by
  have hascii : ∀ n : Fin 128, isNameStart (Char.ofNat n) = true →
      isNamePart (Char.ofNat n) = true ∧ isIdentifier (Char.ofNat n) = true := by
    decide +kernel
  have hc : c.toNat < 128 := by
    simp only [isNameStart, isAsciiLetter, Bool.or_eq_true, Bool.and_eq_true, decide_eq_true_eq,
      beq_iff_eq, Char.le_def, UInt32.le_iff_toNat_le] at h
    rcases h with ((h | h) | rfl) | rfl
    · exact Nat.lt_of_le_of_lt h.2 (by decide)
    · exact Nat.lt_of_le_of_lt h.2 (by decide)
    · decide
    · decide
  rw [← c.ofNat_toNat] at h ⊢
  exact hascii ⟨c.toNat, hc⟩ h

theorem IsName.exists_cons (h : IsName name) : ∃ c cs, name = c :: cs ∧ isNameStart c = true := by
  cases name with
  | nil => exact absurd rfl h.ne_nil
  | cons c cs => exact ⟨c, cs, rfl, by simpa using h.start⟩

theorem IsPath.exists_cons (h : IsPath name) :
    ∃ c cs, name = c :: cs ∧ isNameStart c = true := by
  cases h with
  | name hn => exact hn.exists_cons
  | dot hn _ =>
    obtain ⟨c, cs, rfl, hc⟩ := hn.exists_cons
    exact ⟨c, _, rfl, hc⟩

theorem name?_spec {p : Piece} (h : name? cs = some p) :
    cs = p.1 ++ p.2 ∧ IsName p.1 ∧ p.2.head?.any isNamePart = false := by
  refine ⟨name?_eq_append h, ?_⟩
  cases cs with
  | nil => simp [name?] at h
  | cons c cs =>
    simp only [name?] at h
    split_ifs at h with hc
    obtain rfl := Option.some.inj h
    refine ⟨⟨by simpa using hc, fun d hd => ?_⟩, head?_dropWhile_any _ _⟩
    rcases List.mem_cons.mp hd with rfl | hd
    · exact (isNameStart_ascii hc).1
    · exact List.mem_takeWhile_imp hd

/-- A name goes on with dots as far as it can. -/
theorem IsName.path_dottedTail (h : IsName name) (hrest : rest.head?.any isNamePart = false) :
    IsPath (name ++ dottedTail rest) ∧
      ∃ after, rest = dottedTail rest ++ after ∧ after.head?.any isNamePart = false := by
  fun_induction dottedTail rest generalizing name with
  | case1 rest next after hnext ih =>
    obtain ⟨rfl, hname, hafter⟩ := name?_spec hnext
    obtain ⟨hpath, end', hend, hmaximal⟩ := ih hname hafter
    refine ⟨.dot h hpath, end', ?_, hmaximal⟩
    rw [List.append_assoc, ← hend]
    rfl
  | case2 | case3 => simpa using ⟨IsPath.name h, hrest⟩

/-! ### Readers -/

theorem Header.Introduces.eq (h : header.Introduces cs rest) :
    cs = header.keyword ++ (header.gap ++ (header.name ++ rest)) := by
  obtain ⟨htail, rfl⟩ := h
  simp [Header.text, htail]

theorem keyword?_spec {word : String} {p : Piece} (h : keyword? word cs = some p) :
    String.ofList p.1 = word := by
  obtain ⟨rest, -, rfl⟩ := Option.map_eq_some_iff.mp h
  simp

theorem blank_of_mem_blanks {c : Char} (h : c ∈ (blanks cs).1) : isBlank c = true :=
  List.mem_takeWhile_imp h

theorem gap?_spec {p : Piece} (h : gap? cs = some p) :
    p.1 ≠ [] ∧ ∀ c ∈ p.1, isBlank c = true := by
  cases cs with
  | nil => cases h
  | cons c cs =>
    simp only [gap?] at h
    split_ifs at h with hc
    obtain rfl := Option.some.inj h
    exact ⟨by simp [blanks, hc], fun d hd => blank_of_mem_blanks hd⟩

theorem eq_of_mem_optional {expected c : Char} (h : c ∈ ((char? expected cs).getD ([], cs)).1) :
    c = expected := by
  cases cs with
  | nil => simp [char?] at h
  | cons d cs =>
    rw [char?] at h
    split_ifs at h with hd
    · simpa [hd] using h
    · simp at h

theorem introduced?_spec {word : String} (h : introduced? word cs = some (header, rest)) :
    String.ofList header.keyword = word ∧ header.gap ≠ [] ∧ (∀ c ∈ header.gap, isBlank c = true) ∧
      IsName header.name ∧ rest.head?.any isNamePart = false := by
  obtain ⟨⟨kw, afterKeyword⟩, hkw, h⟩ := Option.bind_eq_some_iff.mp h
  obtain ⟨⟨gap, afterGap⟩, hgap, h⟩ := Option.bind_eq_some_iff.mp h
  obtain ⟨⟨name, afterName⟩, hname, h⟩ := Option.bind_eq_some_iff.mp h
  obtain ⟨rfl, rfl⟩ := Prod.mk.inj (Option.some.inj h)
  exact ⟨keyword?_spec hkw, (gap?_spec hgap).1, (gap?_spec hgap).2, (name?_spec hname).2⟩

theorem introduced?_opens (kind : SymbolKind) {word : String} (hword : word ∈ kind.keywords)
    (h : introduced? word cs = some (header, rest)) :
    Opens kind cs header.keyword header.gap header.name rest ∧ IsName header.name := by
  obtain ⟨rfl, hne, hblank, hsolid, hmaximal⟩ := introduced?_spec h
  refine ⟨?_, hsolid⟩
  constructor
  case text => exact (introduced?_introduces h).eq
  case introduces => exact hword
  case blank => exact fun c hc => .inl (hblank c hc)
  case separated => exact fun hnil => absurd hnil hne
  case path => exact .name hsolid
  case single => exact fun _ => hsolid
  case maximal => exact hmaximal

theorem functionName?_opens (hkind : kind.isFunction = true)
    (h : functionName? cs = some (header, rest)) :
    Opens kind cs header.keyword header.gap header.name rest := by
  have htext := (functionName?_introduces h).eq
  obtain ⟨⟨kw, afterKeyword⟩, hkw, h⟩ := Option.bind_eq_some_iff.mp h
  obtain ⟨⟨name, afterName⟩, hname, h⟩ := Option.bind_eq_some_iff.mp h
  obtain ⟨rfl, rfl⟩ := Prod.mk.inj (Option.some.inj h)
  obtain ⟨-, hsolid, hmaximal⟩ := name?_spec hname
  have hword : "function" ∈ kind.keywords := by
    cases kind <;> simp_all [SymbolKind.isFunction, SymbolKind.keywords]
  constructor
  case text => exact htext
  case introduces => rwa [← keyword?_spec hkw] at hword
  case blank =>
    intro c hc
    rcases List.mem_append.mp hc with hc | hc
    · rcases List.mem_append.mp hc with hc | hc
      · exact .inl (blank_of_mem_blanks hc)
      · exact .inr (eq_of_mem_optional hc)
    · exact .inl (blank_of_mem_blanks hc)
  case separated => exact fun _ => hkind
  case path => exact .name hsolid
  case single => exact fun _ => hsolid
  case maximal => exact hmaximal

/-! ### Variables -/

/-- The keywords of variables and constants. -/
def variableKeywords : List String :=
  ["let", "const", "var"]

/-- The header of a variable at the beginning of a text, without its type and initializer. -/
def openedVariable? (cs : List Char) : Option (Header × List Char) :=
  introduced? "let" cs <|> introduced? "const" cs <|> introduced? "var" cs

theorem exists_of_openedVariable? (h : openedVariable? cs = some (header, rest)) :
    ∃ word ∈ variableKeywords, introduced? word cs = some (header, rest) := by
  rcases (Option.orElse_eq_some _ _ _).mp h with hlet | ⟨-, h⟩
  · exact ⟨"let", by decide, hlet⟩
  rcases (Option.orElse_eq_some _ _ _).mp h with hconst | ⟨-, hvar⟩
  · exact ⟨"const", by decide, hconst⟩
  · exact ⟨"var", by decide, hvar⟩

/-- Type and initializer of a variable change nothing before them. -/
theorem variableHeader?_pieces (cs : List Char) :
    (variableHeader? cs).map (fun h => (h.keyword, h.gap, h.name)) =
      (openedVariable? cs).map fun p => (p.1.keyword, p.1.gap, p.1.name) := by
  unfold variableHeader? openedVariable?
  cases introduced? "let" cs <|> introduced? "const" cs <|> introduced? "var" cs with
  | none => rfl
  | some opened =>
    cases htyped : annotation? (typeRun fun c => c == '=' || c == ';') (blanks opened.2).2 <;>
    · simp only [Option.bind_eq_bind, Option.bind_some, htyped]
      split <;> rfl

/-! ### Rules -/

theorem Opens.withReturnType
    (h : Opens kind cs header.keyword header.gap header.name rest) (tail after : List Char) :
    Opens kind cs (withReturnType header tail after).keyword (withReturnType header tail after).gap
      (withReturnType header tail after).name rest := by
  unfold Outline.withReturnType
  split <;> exact h

theorem functionHeader?_opens (hkind : kind.isFunction = true)
    (h : functionHeader? cs = some header) :
    ∃ rest, Opens kind cs header.keyword header.gap header.name rest := by
  obtain ⟨⟨opened, rest⟩, hname, h⟩ := Option.bind_eq_some_iff.mp h
  obtain ⟨_, -, h⟩ := Option.bind_eq_some_iff.mp h
  obtain rfl := Option.some.inj h
  exact ⟨rest, (functionName?_opens hkind hname).withReturnType _ _⟩

theorem genericFunctionHeader?_opens (hkind : kind.isFunction = true)
    (h : genericFunctionHeader? cs = some header) :
    ∃ rest, Opens kind cs header.keyword header.gap header.name rest := by
  obtain ⟨⟨opened, rest⟩, hname, h⟩ := Option.bind_eq_some_iff.mp h
  obtain ⟨_, -, h⟩ := Option.bind_eq_some_iff.mp h
  obtain ⟨_, -, h⟩ := Option.bind_eq_some_iff.mp h
  obtain rfl := Option.some.inj h
  exact ⟨rest, (functionName?_opens hkind hname).withReturnType _ _⟩

theorem typeHeader?_opens (kind : SymbolKind) {word : String} (hword : word ∈ kind.keywords)
    (h : typeHeader? word cs = some header) :
    ∃ rest, Opens kind cs header.keyword header.gap header.name rest := by
  obtain ⟨⟨opened, rest⟩, hname, h⟩ := Option.bind_eq_some_iff.mp h
  refine ⟨rest, ?_⟩
  dsimp only at h
  split at h <;>
  · obtain rfl := Option.some.inj h
    exact (introduced?_opens kind hword hname).1

theorem aliasHeader?_opens (h : aliasHeader? cs = some header) :
    ∃ rest, Opens .typeAlias cs header.keyword header.gap header.name rest := by
  obtain ⟨⟨opened, rest⟩, hname, h⟩ := Option.bind_eq_some_iff.mp h
  obtain ⟨_, -, h⟩ := Option.bind_eq_some_iff.mp h
  obtain rfl := Option.some.inj h
  exact ⟨rest, (introduced?_opens .typeAlias (by decide) hname).1⟩

theorem plainHeader?_opens (kind : SymbolKind) {word : String} (hword : word ∈ kind.keywords)
    (h : plainHeader? word cs = some header) :
    ∃ rest, Opens kind cs header.keyword header.gap header.name rest := by
  obtain ⟨⟨opened, rest⟩, hname, rfl⟩ := Option.map_eq_some_iff.mp h
  exact ⟨rest, (introduced?_opens kind hword hname).1⟩

theorem namespaceHeader?_opens (h : namespaceHeader? cs = some header) :
    ∃ rest, Opens .namespace cs header.keyword header.gap header.name rest := by
  obtain ⟨⟨opened, rest⟩, hname, rfl⟩ := Option.map_eq_some_iff.mp h
  obtain ⟨hopens, hsolid⟩ := introduced?_opens .namespace (by decide) hname
  obtain ⟨hpath, after, hrest, hmaximal⟩ := hsolid.path_dottedTail hopens.maximal
  refine ⟨after, { hopens with path := hpath, maximal := hmaximal, text := ?_, single := ?_ }⟩
  · rw [hopens.text, List.append_assoc, ← hrest]
  · exact fun h => absurd rfl h

theorem variableHeader?_opens (h : variableHeader? cs = some header) :
    ∃ rest, Opens (header.kindOf .variable) cs header.keyword header.gap header.name rest := by
  have hpieces := variableHeader?_pieces cs
  rw [h, Option.map_some] at hpieces
  obtain ⟨⟨opened, rest⟩, hopened, heq⟩ := Option.map_eq_some_iff.mp hpieces.symm
  obtain ⟨word, hword, hintroduced⟩ := exists_of_openedVariable? hopened
  obtain ⟨hkeyword, hgap, hname⟩ : opened.keyword = header.keyword ∧ opened.gap = header.gap ∧
      opened.name = header.name := by simpa using heq
  have htext : header.keyword = word.toList := by
    rw [← hkeyword, ← (introduced?_spec hintroduced).1, String.toList_ofList]
  have hkind : word ∈ (header.kindOf .variable).keywords := by
    simp only [variableKeywords, List.mem_cons, List.not_mem_nil, or_false] at hword
    rcases hword with rfl | rfl | rfl <;> simp [Header.kindOf, htext, SymbolKind.keywords]
  have hopens := (introduced?_opens _ hkind hintroduced).1
  rw [hkeyword, hgap, hname] at hopens
  exact ⟨rest, hopens⟩

theorem opens_of_read {rule : Rule} (hrule : rule ∈ rules) (h : rule.read cs = some header) :
    ∃ rest, Opens (header.kindOf rule.kind) cs header.keyword header.gap header.name rest := by
  have hother : ∀ {kind : SymbolKind}, kind ≠ .variable → header.kindOf kind = kind :=
    fun hkind => if_neg fun h => hkind h.1
  simp only [rules, List.mem_cons, List.not_mem_nil, or_false] at hrule
  rcases hrule with rfl | rfl | rfl | rfl | rfl | rfl | rfl | rfl | rfl
  · simpa [hother] using genericFunctionHeader?_opens rfl h
  · simpa [hother] using functionHeader?_opens rfl h
  · simpa [hother] using typeHeader?_opens .classType (by decide) h
  · simpa [hother] using typeHeader?_opens .interface (by decide) h
  · simpa [hother] using aliasHeader?_opens h
  · simpa [hother] using plainHeader?_opens .enum (by decide) h
  · simpa [hother] using namespaceHeader?_opens h
  · simpa [hother] using plainHeader?_opens .module (by decide) h
  · exact variableHeader?_opens h

/-! ### Lines -/

theorem Opens.head?_keyword (h : Opens kind cs keyword gap name rest) :
    keyword.head?.any isWord = true := by
  have hword : ∀ word ∈ kind.keywords, word.toList.head?.any isWord = true := by
    cases kind <;> decide
  simpa using hword _ h.introduces

theorem Opens.isWord_head {c : Char} (h : Opens kind (c :: cs) keyword gap name rest) :
    isWord c = true := by
  have htext := h.text
  have hkeyword := h.head?_keyword
  cases keyword with
  | nil => exact absurd hkeyword (by decide)
  | cons d keyword =>
    obtain ⟨rfl, -⟩ := List.cons.inj htext
    simpa using hkeyword

theorem Opens.not_isIdentifier_of_mem (h : Opens kind cs keyword gap name rest) {c : Char}
    (hc : c ∈ gap) : isIdentifier c = false ∧ isNamePart c = false := by
  rcases h.blank c hc with hblank | rfl
  · constructor <;> refine Bool.eq_false_iff.mpr fun hpart => ?_
    · exact absurd hblank (by simp [isBlank_of_isIdentifier hpart])
    · exact absurd hblank (by simp [isBlank_of_isNamePart hpart])
  · decide

/-- Behind the keyword an identifier goes on exactly if there is no gap. -/
theorem Opens.continuesIdentifier_iff (h : Opens kind cs keyword gap name rest) :
    continuesIdentifier (gap ++ (name ++ rest)).head? = true ↔ gap = [] := by
  cases gap with
  | nil =>
    obtain ⟨c, more, rfl, hc⟩ := h.path.exists_cons
    simp [continuesIdentifier, (isNameStart_ascii hc).2]
  | cons c gap =>
    simp [continuesIdentifier, (h.not_isIdentifier_of_mem List.mem_cons_self).1]

/-- The name begins inside a longer one exactly if there is no gap. -/
theorem Opens.isNamePart_getLast_iff (h : Opens kind cs keyword gap name rest) :
    (keyword ++ gap).getLast?.any isNamePart = true ↔ gap = [] := by
  have hword : ∀ word ∈ kind.keywords, word.toList.getLast?.any isNamePart = true := by
    cases kind <;> decide
  constructor
  · intro hlast
    by_contra hne
    rw [List.getLast?_append_of_ne_nil _ hne, List.getLast?_eq_some_getLast hne] at hlast
    exact absurd hlast (by simp [(h.not_isIdentifier_of_mem (List.getLast_mem hne)).2])
  · rintro rfl
    simpa using hword _ h.introduces

theorem exists_opens_of_mem_scanLine {n : Nat} {line : List Char} {e : Entry}
    (h : e ∈ scanLine n line) :
    e.line = n ∧ ∃ before cs keyword gap name after, line = before ++ cs ∧
      Opens e.kind cs keyword gap name after ∧ before.getLast?.any isWord = false ∧
      e.keywordColumn = unitLength before ∧ e.name = String.ofList name ∧
      e.selection.start = ⟨n, unitLength (before ++ (keyword ++ gap))⟩ := by
  unfold scanLine at h
  split_ifs at h
  · cases h
  · obtain ⟨rule, hrule, h⟩ := List.mem_filterMap.mp h
    obtain ⟨⟨before, header⟩, hsearch, rfl⟩ := Option.map_eq_some_iff.mp h
    obtain ⟨c, cs, rfl, hedge, hread, -⟩ := exists_first_of_search hsearch
    obtain ⟨after, hopens⟩ := opens_of_read hrule hread
    refine ⟨rfl, before, c :: cs, header.keyword, header.gap, header.name, after, rfl, hopens, ?_,
      rfl, rfl, ?_⟩
    · simpa [AtEdge, hopens.isWord_head] using hedge
    · simp [entryOf, unitLength_append, Nat.add_assoc]

/-- The keyword of an entry begins a word and its name ends one. The keyword ends a word exactly if
a gap follows it, which is also when the name begins one, and only a function may do without. -/
theorem exists_opens_of_mem_scan {text : List Char} {e : Entry} (h : e ∈ scan text) :
    ∃ line before cs keyword gap name after,
      (contentLines text)[e.line]? = some line ∧ line = before ++ cs ∧
      Opens e.kind cs keyword gap name after ∧
      e.keywordColumn = unitLength before ∧ e.name = String.ofList name ∧
      e.selection.start = ⟨e.line, unitLength (before ++ (keyword ++ gap))⟩ ∧
      before.getLast?.any isWord = false ∧
      (continuesIdentifier (gap ++ (name ++ after)).head? = true ↔ gap = []) ∧
      ((keyword ++ gap).getLast?.any isNamePart = true ↔ gap = []) := by
  rw [scan, scanLines_eq] at h
  obtain ⟨⟨line, n⟩, hline, he⟩ := List.mem_flatMap.mp h
  obtain ⟨rfl, before, cs, keyword, gap, name, after, hcut, hopens, hbefore, hcolumn, hname,
    hselection⟩ := exists_opens_of_mem_scanLine he
  exact ⟨line, before, cs, keyword, gap, name, after, List.mk_mem_zipIdx_iff_getElem?.mp hline, hcut,
    hopens, hcolumn, hname, hselection, hbefore, hopens.continuesIdentifier_iff,
    hopens.isNamePart_getLast_iff⟩

/-- In a call of a function whose name begins like the keyword, the rest of that name is listed. -/
theorem exists_opens_of_call :
    ∃ e ∈ scan "functionName(x)".toList, e.name = "Name" ∧
      ∃ cs gap name after, Opens e.kind cs "function".toList gap name after ∧ gap = [] ∧
        continuesIdentifier (gap ++ (name ++ after)).head? = true := by
  let e : Entry :=
    { name := "Name", kind := .function, range := ⟨⟨0, 0⟩, ⟨0, 15⟩⟩, selection := ⟨⟨0, 8⟩, ⟨0, 12⟩⟩,
      keywordColumn := 0, declaredType := none, initializer := none, signature := "functionName(x)" }
  have hmem : e ∈ scan "functionName(x)".toList := by decide
  obtain ⟨-, before, cs, keyword, gap, name, after, -, -, hopens, hcolumn, -, hselection, -,
    hcontinues, -⟩ := exists_opens_of_mem_scan hmem
  obtain rfl : keyword = "function".toList := by
    simpa [e, SymbolKind.keywords, ← String.toList_inj] using hopens.introduces
  have hgap : unitLength gap = 0 := by
    have hcolumns : 8 = unitLength before + unitLength ("function".toList ++ gap) := by
      rw [← unitLength_append]
      exact congrArg Position.column hselection
    have hkeyword : unitLength "function".toList = 8 := rfl
    rw [unitLength_append] at hcolumns
    omega
  obtain rfl := unitLength_eq_zero_iff.mp hgap
  exact ⟨e, hmem, rfl, cs, [], name, after, hopens, rfl, hcontinues.mpr rfl⟩

example : (scan "$let x = 1".toList).map (fun e => (e.name, e.keywordColumn)) = [("x", 1)] := by
  decide

end

end Outline

end UtsInsight
