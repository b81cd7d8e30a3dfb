import UtsInsight.Insight.Advisory
import UtsInsight.Model

/-!
# Validation

The diagnostics of a document are the findings of its model, followed by the advisory notes if they
are wanted, all under one source name.
-/

namespace UtsInsight.Insight

/-- The diagnostics of a document. -/
def validate (text : List Char) (model : Model) (advisory : Bool) : List Diagnostic :=
  model.diagnostics.map (fun d => { d with source := some diagnosticSource })
    ++ if advisory then advisoryDiagnostics text else []

end UtsInsight.Insight
