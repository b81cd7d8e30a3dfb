import UtsInsight.Insight.Completion
import UtsInsight.Proofs.Model.Symbols

/-!
# What a completion list holds

Repeated items are dropped from the whole list at once, so what is kept of a part depends on what
stands before it. The default list is in two parts. The vocabulary comes first, so what is kept of it
is the same for every document. The names of a document are distinct among themselves, so the only
ones that are dropped are those that the vocabulary has as items of the same kind.
-/
namespace UtsInsight

/-- What tells the items of a list apart. -/
def CompletionItem.key (item : CompletionItem) : String × CompletionKind :=
  (item.label, item.kind)

namespace Insight

open Text

/-! ### Dropping repeated items -/

section

variable {seen seen' : List (String × CompletionKind)} {item : CompletionItem}
  {items first second : List CompletionItem}

theorem dropRepeated_seen (h : item.key ∈ seen) :
    dropRepeated seen (item :: items) = dropRepeated seen items :=
  if_pos (List.contains_iff_mem.mpr h)

theorem dropRepeated_fresh (h : item.key ∉ seen) :
    dropRepeated seen (item :: items) = item :: dropRepeated (item.key :: seen) items :=
  if_neg (mt List.contains_iff_mem.mp h)

/-- It does not matter in which order keys were seen, or how often. -/
theorem dropRepeated_congr (h : ∀ key, key ∈ seen ↔ key ∈ seen') :
    dropRepeated seen items = dropRepeated seen' items := by
  induction items generalizing seen seen' with
  | nil => rfl
  | cons item items ih =>
    by_cases hitem : item.key ∈ seen
    · rw [dropRepeated_seen hitem, dropRepeated_seen ((h _).mp hitem), ih h]
    · have hcons : ∀ key, key ∈ item.key :: seen ↔ key ∈ item.key :: seen' := by
        intro key
        rw [List.mem_cons, List.mem_cons, h]
      rw [dropRepeated_fresh hitem, dropRepeated_fresh (mt (h _).mpr hitem), ih hcons]

theorem dropRepeated_sublist (seen : List (String × CompletionKind))
    (items : List CompletionItem) : (dropRepeated seen items).Sublist items := by
  induction items generalizing seen with
  | nil => exact List.Sublist.refl []
  | cons item items ih =>
    by_cases hitem : item.key ∈ seen
    · rw [dropRepeated_seen hitem]
      exact (ih seen).cons item
    · rw [dropRepeated_fresh hitem]
      exact (ih _).cons_cons item

/-- The keys that are kept are those that were not seen. -/
theorem mem_keys_dropRepeated {key : String × CompletionKind} :
    key ∈ (dropRepeated seen items).map (·.key) ↔ key ∈ items.map (·.key) ∧ key ∉ seen := by
  induction items generalizing seen with
  | nil => simp [dropRepeated]
  | cons item items ih =>
    by_cases hitem : item.key ∈ seen
    · rw [dropRepeated_seen hitem, ih, List.map_cons, List.mem_cons]
      refine and_congr_left fun hkey => (or_iff_right ?_).symm
      rintro rfl
      exact hkey hitem
    · rw [dropRepeated_fresh hitem, List.map_cons, List.map_cons, List.mem_cons, List.mem_cons, ih,
        List.mem_cons]
      by_cases hkey : key = item.key
      · simp [hkey, hitem]
      · simp [hkey]

/-- No key is kept twice. -/
theorem nodup_dropRepeated (seen : List (String × CompletionKind)) (items : List CompletionItem) :
    ((dropRepeated seen items).map (·.key)).Nodup := by
  induction items generalizing seen with
  | nil => exact List.nodup_nil
  | cons item items ih =>
    by_cases hitem : item.key ∈ seen
    · rw [dropRepeated_seen hitem]
      exact ih seen
    · rw [dropRepeated_fresh hitem]
      refine List.nodup_cons.mpr ⟨fun hkey => ?_, ih _⟩
      exact (mem_keys_dropRepeated.mp hkey).2 List.mem_cons_self

/-- What stands behind a list is gone through with the keys of the list seen. -/
theorem dropRepeated_append :
    dropRepeated seen (first ++ second) =
      dropRepeated seen first ++ dropRepeated (first.map (·.key) ++ seen) second := by
  induction first generalizing seen with
  | nil => rfl
  | cons item first ih =>
    rw [List.cons_append]
    by_cases hitem : item.key ∈ seen
    · have hkeys : ∀ key, key ∈ first.map (·.key) ++ seen ↔
          key ∈ (item :: first).map (·.key) ++ seen := by
        intro key
        simp only [List.map_cons, List.mem_append, List.mem_cons]
        refine ⟨fun h => h.imp_left .inr, ?_⟩
        rintro ((rfl | h) | h)
        · exact .inr hitem
        · exact .inl h
        · exact .inr h
      rw [dropRepeated_seen hitem, dropRepeated_seen hitem, ih, dropRepeated_congr hkeys]
    · have hkeys : ∀ key, key ∈ first.map (·.key) ++ (item.key :: seen) ↔
          key ∈ (item :: first).map (·.key) ++ seen := by
        intro key
        simp only [List.map_cons, List.mem_append, List.mem_cons]
        exact or_left_comm.trans or_assoc.symm
      rw [dropRepeated_fresh hitem, dropRepeated_fresh hitem, ih, dropRepeated_congr hkeys,
        List.cons_append]

/-- Of items with distinct keys, those are dropped whose keys were seen. -/
theorem dropRepeated_eq_filter (h : (items.map (·.key)).Nodup) :
    dropRepeated seen items = items.filter fun item => !seen.contains item.key := by
  induction items generalizing seen with
  | nil => rfl
  | cons item items ih =>
    obtain ⟨hhead, htail⟩ := List.nodup_cons.mp h
    by_cases hitem : item.key ∈ seen
    · rw [dropRepeated_seen hitem, ih htail, List.filter_cons_of_neg (by simpa using hitem)]
    · rw [dropRepeated_fresh hitem, ih htail, List.filter_cons_of_pos (by simpa using hitem)]
      -- the key of the head is no key of the tail, so it is as good as not seen there
      refine congrArg (item :: ·) (List.filter_congr fun other hother => ?_)
      have hne : other.key ≠ item.key := fun hsame =>
        hhead (List.mem_map.mpr ⟨other, hother, hsame⟩)
      simp [hne]

end

/-! ### The default list -/

/-- The items that every default list begins with, each at its first occurrence. -/
def commonItems : List CompletionItem :=
  dropRepeated [] vocabularyItems

/-- Dropping repeated items loses no key of the vocabulary. -/
theorem mem_keys_commonItems {key : String × CompletionKind} :
    key ∈ commonItems.map (·.key) ↔ key ∈ vocabularyItems.map (·.key) := by
  rw [commonItems, mem_keys_dropRepeated]
  exact and_iff_left List.not_mem_nil

/-- Whether the default list is offered for a context, because nothing more fitting is known. -/
def Context.FallsBack (query : Query) : Context → Prop
  | .member receiver => firstMembers query receiver memberSources = []
  | .type => False
  | .call callee receiver => calleeSignature? receiver callee = none
  | .default => True

variable {query : Query} {localSymbols : Bool}

theorem itemsFor_of_fallsBack {context : Context} (h : context.FallsBack query) :
    itemsFor query localSymbols context =
      defaultItems query.position query.model localSymbols := by
  cases context with
  | member receiver => exact if_pos (List.isEmpty_iff.mpr h)
  | type => exact h.elim
  | call callee receiver =>
    have hnone : calleeSignature? receiver callee = none := h
    simp only [itemsFor, hnone]
  | default => rfl

/-- The symbols at a position have distinct names, so their items have distinct keys. -/
theorem nodup_symbolItems (model : Model) (position : Position) :
    (((model.symbolsInScope position []).map symbolItem).map (·.key)).Nodup := by
  have hnames : ((model.symbolsInScope position []).map (·.name)).Nodup := by
    unfold Model.symbolsInScope
    split_ifs
    · exact (Model.nodup_collectSymbols [] [] _).1
    · exact List.nodup_nil
  have hlabels : (((model.symbolsInScope position []).map symbolItem).map (·.key)).map (·.1) =
      (model.symbolsInScope position []).map (·.name) := by
    simp only [List.map_map]
    rfl
  exact List.Nodup.of_map (·.1) (hlabels ▸ hnames)

/-- The names of a document stand behind the common items, except for those among them. -/
theorem dropRepeated_defaultItems (position : Position) (model : Model) :
    dropRepeated [] (defaultItems position model localSymbols) =
      commonItems ++ if localSymbols then
        ((model.symbolsInScope position []).map symbolItem).filter
          fun item => !(commonItems.map (·.key)).contains item.key
      else [] := by
  have hkeys : ∀ key, key ∈ vocabularyItems.map (·.key) ++ [] ↔
      key ∈ commonItems.map (·.key) := by
    intro key
    rw [List.append_nil, mem_keys_commonItems]
  rw [defaultItems, dropRepeated_append, dropRepeated_congr hkeys]
  cases localSymbols
  · rfl
  · simp only [if_true, dropRepeated_eq_filter (nodup_symbolItems model position)]
    rfl

/-- No two items of a completion list have the same label and kind. The items of the vocabulary that
are kept are the same for every document, in their order, and none of their keys is lost. Wherever
the default list is offered it begins with them, and the names visible at the position follow in their
order if they are wanted, except for those that the vocabulary has with the same kind. -/
theorem complete_list (text : List Char) (position : Position) (model : Model)
    (localSymbols : Bool) :
    let items := complete text position model localSymbols
    let query := Query.at text position model
    let symbols := (model.symbolsInScope position []).map symbolItem
    (items.map (·.key)).Nodup ∧
    commonItems.Sublist vocabularyItems ∧
    (∀ item ∈ vocabularyItems, item.key ∈ commonItems.map (·.key)) ∧
    ((classify query.line position.column).FallsBack query →
      items = (commonItems ++ if localSymbols then
        symbols.filter fun item => !(commonItems.map (·.key)).contains item.key else []) ∧
      (localSymbols = true → ∀ item ∈ symbols, item.key ∈ items.map (·.key))) := by
  intro items query symbols
  refine ⟨nodup_dropRepeated [] _, dropRepeated_sublist [] _, fun item hitem => ?_, fun hfalls => ?_⟩
  · exact mem_keys_commonItems.mpr (List.mem_map_of_mem hitem)
  · have hitems : items = dropRepeated [] (defaultItems position model localSymbols) :=
      congrArg (dropRepeated []) (itemsFor_of_fallsBack hfalls)
    refine ⟨hitems.trans (dropRepeated_defaultItems position model), fun hwanted item hitem => ?_⟩
    rw [hitems, mem_keys_dropRepeated, defaultItems, if_pos hwanted, List.map_append]
    exact ⟨List.mem_append_right _ (List.mem_map_of_mem hitem), List.not_mem_nil⟩

section

open Node

/-- `function isNaN() {} let any = 1;` -/
def namesakeText : List Char :=
  "function isNaN() \x7b\x7d let any = 1;".toList

def namesakeTree : Node :=
  construct "program" 0 32 none
    [construct "function_declaration" 0 19 none
      [token "function" 0 8 none,
        construct "identifier" 9 14 (some "name") [],
        construct "formal_parameters" 14 16 (some "parameters")
          [token "(" 14 15 none, token ")" 15 16 none],
        construct "statement_block" 17 19 (some "body")
          [token "\x7b" 17 18 none, token "\x7d" 18 19 none]],
      construct "lexical_declaration" 20 32 none
        [token "let" 20 23 (some "kind"),
          construct "variable_declarator" 24 31 none
            [construct "identifier" 24 27 (some "name") [],
              token "=" 28 29 none,
              construct "number" 30 31 (some "value") []],
          token ";" 31 32 none]]

/-- A function that has the name of a built-in one is not listed again, but a variable that has the
name of a type is. -/
theorem complete_list_namesakes :
    let model := Model.build namesakeText namesakeTree
    let query := Query.at namesakeText ⟨0, 32⟩ model
    (classify query.line 32).FallsBack query ∧
      complete namesakeText ⟨0, 32⟩ model true =
        commonItems ++ [⟨"any", .variable, some "number", none, none, false⟩] ∧
      ("isNaN", .function) ∈ (complete namesakeText ⟨0, 32⟩ model true).map (·.key) := by
  intro model query
  have hcontext : classify query.line 32 = .default := by decide +kernel
  have hfalls : (classify query.line 32).FallsBack query := hcontext ▸ trivial
  have hsymbols : (model.symbolsInScope ⟨0, 32⟩ []).map symbolItem =
      [⟨"isNaN", .function, some "() => void", none, none, false⟩,
        ⟨"any", .variable, some "number", none, none, false⟩] := by
    decide +kernel
  have hknown : ("isNaN", .function) ∈ commonItems.map (·.key) :=
    mem_keys_commonItems.mpr (by decide +kernel)
  have hnew : ("any", .variable) ∉ commonItems.map (·.key) :=
    mt mem_keys_commonItems.mp (by decide +kernel)
  obtain ⟨-, -, -, hdefault⟩ := complete_list namesakeText ⟨0, 32⟩ model true
  obtain ⟨hitems, hlisted⟩ := hdefault hfalls
  rw [hsymbols] at hlisted
  rw [hsymbols, if_pos rfl,
    List.filter_cons_of_neg (by simpa [CompletionItem.key] using hknown),
    List.filter_cons_of_pos (by simpa [CompletionItem.key] using hnew), List.filter_nil] at hitems
  exact ⟨hfalls, hitems, hlisted rfl _ List.mem_cons_self⟩

end

end Insight

end UtsInsight
