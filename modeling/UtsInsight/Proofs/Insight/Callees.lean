import UtsInsight.Insight.Completion
import UtsInsight.Proofs.Insight.CalleePatterns

/-!
# The callee at an opening parenthesis

Two readers look for the callee of a call that was just opened. Completion looks at the text with
the parenthesis and keeps the receiver apart, and the help with the call looks at the text before
it, with blanks at its end allowed. The leftmost match of either pattern there is the longest callee
with what stands behind it, so in a chain of names and dots both take the same two names, and both
look up the same built-in signature.
-/
namespace UtsInsight.Insight

open Text

variable {cs found : List Char} {receiver : Option String} {callee : String}

/-- Behind an opening parenthesis the call is the one that the parenthesis opens. -/
theorem activeCall_concat (cs : List Char) :
    activeCall (cs ++ ['(']) = (calleeAtEnd? cs).map fun callee => ⟨callee, 0⟩ := by
  have hcall := @activeCall_append_callText [] cs [[]] (List.forall_mem_singleton.mpr .nil)
    (List.cons_ne_nil _ _)
  simpa [callText] using hcall

/-- What completion captures is the longest callee before the parenthesis. -/
theorem IsLeftmostAtEnd.isLongestCallee {text : List Char}
    (h : IsLeftmostAtEnd OpensCall text found (receiver, callee)) :
    ∃ before, text = before ++ (qualified receiver callee).toList ++ ['('] ∧
      IsLongestCallee before (qualified receiver callee).toList := by
  obtain ⟨name, rfl, hname, hcaptured⟩ := h.isMatch.exists_callee
  obtain ⟨before, rfl⟩ := h.isSuffix
  rw [hcaptured, String.toList_ofList]
  refine ⟨before, (List.append_assoc _ _ _).symm, isLongestCallee_iff.mpr ⟨hname, ?_⟩⟩
  intro other hother hsuffix
  obtain ⟨captured, hopens⟩ := hother.exists_opensCall
  rw [← List.append_assoc] at h
  have hle := h.leftmost captured _ (List.suffix_append_self_iff.mpr hsuffix) hopens
  rw [List.length_append, List.length_append] at hle
  exact Nat.le_of_add_le_add_right hle

/-- Where completion's pattern finds a call, that of the help finds its callee before the
parenthesis. -/
theorem calleeAtEnd?_of_opensCall
    (h : IsLeftmostAtEnd OpensCall (cs ++ ['(']) found (receiver, callee)) :
    calleeAtEnd? cs = some (qualified receiver callee) := by
  obtain ⟨before, hcs, hlongest⟩ := h.isLongestCallee
  have hfound := hlongest.endsInCallee (List.forall_mem_nil fun c => isBlank c = true)
  rw [List.append_nil] at hfound
  rw [List.append_cancel_right hcs]
  exact calleeAtEnd?_eq_some_iff.mpr ⟨_, hfound⟩

/-- Where a call is completed, the text before the cursor ends in the longest callee there and a
parenthesis, and the call around the cursor is that of the same callee with nothing written behind the
parenthesis. If the callee is a built-in function with a signature, completion offers the signature and
nothing else, and the help with the call shows it. -/
theorem classify_call {line : List Char} {column : Nat}
    (h : classify line column = .call callee receiver) :
    let name := qualified receiver callee
    (classify line column).qualifiedCallee = some name ∧
    (∃ before, takeUnits column line = before ++ name.toList ++ ['('] ∧
      IsLongestCallee before name.toList) ∧
    activeCall (takeUnits column line) = some ⟨name, 0⟩ ∧
    ∀ (text : List Char) (position : Position) (model : Model) (localSymbols : Bool)
      (s : Vocabulary.Signature), lineAt text position.line = line → position.column = column →
      Vocabulary.signature? name = some s →
        complete text position model localSymbols = [signatureItem s] ∧
        signatureHelp text position = some ⟨s.label, s.parameters, some s.description, 0⟩ := by
  intro name
  obtain ⟨found, hfound⟩ := contextAfter_eq_call_iff.mp h
  obtain ⟨before, htext, hlongest⟩ := hfound.isLongestCallee
  have hactive : activeCall (takeUnits column line) = some ⟨name, 0⟩ := by
    rw [htext] at hfound
    rw [htext, activeCall_concat, calleeAtEnd?_of_opensCall hfound, Option.map_some]
  refine ⟨by rw [h]; rfl, ⟨before, htext, hlongest⟩, hactive, ?_⟩
  intro text position model localSymbols s hline hcolumn hs
  subst hline hcolumn
  constructor
  · have hcontext : classify (Query.at text position model).line position.column =
        .call callee receiver := h
    have hcallee : calleeSignature? receiver callee = some s := by
      rw [calleeSignature?, hs, Option.some_or]
    unfold complete
    dsimp only
    rw [hcontext]
    simp only [itemsFor, hcallee]
    rfl
  · unfold signatureHelp
    rw [hactive]
    simp only [Option.bind_eq_bind, Option.bind_some, hs]
    rfl

/-- In a chain of three names behind a letter of two units, the last two are the callee, and its
signature is offered and shown. -/
theorem classify_call_chain :
    let text := "𝒳.xs.Math.max(1".toList
    let position : Position := ⟨0, 15⟩
    let model : Model := ⟨text, none, .empty, []⟩
    let s : Vocabulary.Signature :=
      ⟨"Math.max", ["...values: number[]"], "number", "Returns the largest of the given numbers."⟩
    classify text 15 = .call "max" (some "Math") ∧
      activeCall (takeUnits 15 text) = some ⟨"Math.max", 0⟩ ∧
      complete text position model true = [signatureItem s] ∧
      signatureHelp text position = some ⟨s.label, s.parameters, some s.description, 0⟩ := by
  intro text position model s
  have hcontext : classify text 15 = .call "max" (some "Math") := by decide +kernel
  have hline : lineAt text position.line = text := by decide +kernel
  have hsignature : Vocabulary.signature? (qualified (some "Math") "max") = some s := by
    decide +kernel
  obtain ⟨-, -, hactive, hfeatures⟩ := classify_call hcontext
  have hname : qualified (some "Math") "max" = "Math.max" := by decide +kernel
  rw [hname] at hactive
  exact ⟨hcontext, hactive, hfeatures text position model true s hline rfl hsignature⟩

end UtsInsight.Insight
