import UtsInsight.Proofs.Finding.Ranges
import UtsInsight.Proofs.Insight.Stretches
import UtsInsight.Proofs.Service.Transparency

/-!
# Positions in responses

The ranges in the responses of the service come from the tree, from the lines of the text and from
the whole text, each with a conversion of its own. All of them are canonical, so an editor that
counts lines and columns as the service does finds both ends of each range in its text.
-/
namespace UtsInsight

open Text

variable {text : List Char} {position : Position} {uri : Uri}

/-! ### The features -/

namespace Insight

/-- The findings of a model and the advisory notes are about canonical ranges. -/
theorem canonical_of_mem_validate {root : Node} (hroot : root.Everywhere Node.Sequenced)
    {advisory : Bool} {d : Diagnostic} (h : d ∈ validate text (Model.build text root) advisory) :
    d.range.Canonical text := by
  rcases List.mem_append.mp h with h | h
  · obtain ⟨found, hfound, rfl⟩ := List.mem_map.mp h
    obtain ⟨f, hf, rfl⟩ := List.mem_map.mp hfound
    have htext : (Model.build text root).text = text := by
      unfold Model.build
      split <;> rfl
    simp only [Finding.diagnostic, htext]
    exact Span.canonical_spanOf text (range_le_of_mem_build hroot hf)
  · split at h
    · exact canonical_of_mem_advisoryDiagnostics h
    · exact absurd h List.not_mem_nil

theorem canonical_of_hover {model : Model} {tooltip : Hover}
    (h : hover text position model = some tooltip) : tooltip.range.Canonical text := by
  unfold hover at h
  obtain ⟨word, hword, h⟩ := Option.bind_eq_some_iff.mp h
  obtain ⟨_, _, h⟩ := Option.bind_eq_some_iff.mp h
  obtain rfl := Option.some.inj h
  obtain ⟨line, hline, hwithin⟩ := within_of_wordAt hword
  exact hwithin.canonical hline

theorem canonical_of_definitionAt {location : Location}
    (h : definitionAt uri text position = some location) : location.range.Canonical text := by
  obtain ⟨word, _, h⟩ := Option.bind_eq_some_iff.mp h
  obtain ⟨entry, hentry, rfl⟩ := Option.map_eq_some_iff.mp h
  exact (Outline.canonical_of_mem_scan (Outline.mem_scanLines_of_findInLines hentry)).2

theorem canonical_of_mem_referencesAt {location : Location}
    (h : location ∈ referencesAt uri text position) : location.range.Canonical text := by
  unfold referencesAt at h
  split at h
  · obtain ⟨bytes, hbytes, rfl⟩ := List.mem_map.mp h
    exact canonical_of_mem_occurrences hbytes
  · exact absurd h List.not_mem_nil

theorem canonical_of_mem_outlineSymbols {symbol : OutlineSymbol}
    (h : symbol ∈ outlineSymbols uri text) : symbol.location.range.Canonical text := by
  obtain ⟨entry, hentry, rfl⟩ := List.mem_map.mp h
  exact (Outline.canonical_of_mem_scan hentry).1

end Insight

/-! ### Runs of the service -/

namespace Service

/-- The text that a request is about. -/
def Request.text? : Request → Option (List Char)
  | .reconfigure _ | .close _ _ => none
  | .complete text _ | .hover text _ | .validate _ text | .definition _ text _
  | .references _ text _ | .outline _ text | .signatureHelp text _ => some text

/-- The ranges in a response. -/
def Response.ranges : Response → List Span
  | .done | .completion _ | .signatureHelp _ => []
  | .hover tooltip => tooltip.toList.map (·.range)
  | .diagnostics found => found.map (·.range)
  | .definition location => location.toList.map (·.range)
  | .references locations => locations.map (·.range)
  | .outline symbols => symbols.map (·.location.range)

variable {parse : List Char → Node} {initial config : Config}

/-- What a request is due has canonical ranges. -/
theorem canonical_of_mem_due {request : Request} (htext : request.text? = some text)
    (hroot : (parse text).Everywhere Node.Sequenced) {range : Span}
    (h : range ∈ (due parse config request).ranges) : range.Canonical text := by
  unfold due Response.ranges at h
  cases request with
  | reconfigure | close => cases htext
  | complete | signatureHelp => cases h
  | hover =>
    obtain rfl := Option.some.inj htext
    obtain ⟨tooltip, htooltip, rfl⟩ := List.mem_map.mp h
    exact Insight.canonical_of_hover (Option.mem_toList.mp htooltip)
  | validate =>
    obtain rfl := Option.some.inj htext
    obtain ⟨d, hd, rfl⟩ := List.mem_map.mp h
    exact Insight.canonical_of_mem_validate hroot hd
  | definition =>
    obtain rfl := Option.some.inj htext
    obtain ⟨location, hlocation, rfl⟩ := List.mem_map.mp h
    exact Insight.canonical_of_definitionAt (Option.mem_toList.mp hlocation)
  | references =>
    obtain rfl := Option.some.inj htext
    obtain ⟨location, hlocation, rfl⟩ := List.mem_map.mp h
    exact Insight.canonical_of_mem_referencesAt hlocation
  | outline =>
    obtain rfl := Option.some.inj htext
    obtain ⟨symbol, hsymbol, rfl⟩ := List.mem_map.mp h
    exact Insight.canonical_of_mem_outlineSymbols hsymbol

theorem AllDue.exists_config {record : List Exchange} (h : AllDue parse initial record)
    {e : Exchange} (he : e ∈ record) : ∃ config, e.response = due parse config e.request := by
  induction record with
  | nil => exact absurd he List.not_mem_nil
  | cons first earlier ih =>
    rcases List.mem_cons.mp he with rfl | he
    · exact ⟨_, h.1⟩
    · exact ih h.2 he

variable {κ : Type} [DecidableEq κ]

/-- Whatever is asked of a service and however it is configured meanwhile, every range in a response
about a text is canonical in the text, if the nodes of its tree do not end before they start and
siblings are in order. -/
theorem run_canonical (parse : List Char → Node) (initial : Config) (calls : List (Call κ)) :
    ∀ e ∈ (Service.run parse calls [] (new initial)).1, ∀ text, e.request.text? = some text →
      (parse text).Everywhere Node.Sequenced →
        ∀ range ∈ e.response.ranges, range.Canonical text := by
  intro e he text htext hroot range hrange
  have hrecords := (records_new (κ := κ) parse initial).run calls
  obtain ⟨config, hdue⟩ := hrecords.allDue.exists_config he
  rw [hdue] at hrange
  exact canonical_of_mem_due htext hroot hrange

section

open Node

/-- `/*😀*/ y;` and `let x;` on two lines, the first of which ends in a carriage return. -/
def astralText : List Char :=
  "/*😀*/ y;\r\nlet x;".toList

def astralTree : Node :=
  construct "program" 0 19 none
    [construct "comment" 0 8 none [],
      construct "expression_statement" 9 11 none
        [construct "identifier" 9 10 none [], token ";" 10 11 none],
      construct "lexical_declaration" 13 19 none
        [token "let" 13 16 (some "kind"),
          construct "variable_declarator" 17 18 none
            [construct "identifier" 17 18 (some "name") []],
          token ";" 18 19 none]]

/-- One request of each kind that is answered with ranges. -/
def astralCalls : List (Call (List Char)) :=
  [ .validate "u" astralText, .hover astralText ⟨1, 4⟩, .definition "u" astralText ⟨1, 4⟩,
    .references "u" astralText ⟨0, 7⟩, .outline "u" astralText ].map
      fun request => ⟨CachePolicy.oldestFirst Model, request⟩

/-- The unknown name behind the pair of units, the word, its keyword, the occurrence and the line of
the outline are canonical. -/
theorem run_canonical_astral :
    let record := (Service.run (fun _ => astralTree) astralCalls [] (new {})).1
    astralTree.Everywhere Node.Sequenced ∧
      record.reverse.map (·.response.ranges) =
        [[⟨⟨0, 7⟩, ⟨0, 8⟩⟩], [⟨⟨1, 4⟩, ⟨1, 5⟩⟩], [⟨⟨1, 0⟩, ⟨1, 0⟩⟩], [⟨⟨0, 7⟩, ⟨0, 8⟩⟩],
          [⟨⟨1, 0⟩, ⟨1, 6⟩⟩]] ∧
      ∀ e ∈ record, ∀ range ∈ e.response.ranges, range.Canonical astralText := by
  intro record
  have htree : astralTree.Everywhere Node.Sequenced := by decide +kernel
  refine ⟨htree, by decide +kernel, fun e he range hrange => ?_⟩
  have htexts : record.all (·.request.text? = some astralText) = true := by decide +kernel
  have htext := decide_eq_true_eq.mp (List.all_eq_true.mp htexts e he)
  exact run_canonical (fun _ => astralTree) {} astralCalls e he astralText htext htree range hrange

end

end Service

end UtsInsight
