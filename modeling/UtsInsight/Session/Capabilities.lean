/-!
# Capabilities

What a session tells an editor about itself when it begins.
-/

namespace UtsInsight.Session

/-- Questions that the session answers, with the characters that make an editor ask by itself. -/
structure Capabilities where
  name : String
  version : String
  /-- Changes are sent as edits of ranges and not as whole texts. -/
  takesEdits : Bool
  completionTriggers : List String
  signatureTriggers : List String
  answersHover : Bool
  answersDefinition : Bool
  answersReferences : Bool
  answersOutline : Bool
  deriving DecidableEq, Repr

def capabilities : Capabilities where
  name := "uts-language-server"
  version := "0.1.0"
  takesEdits := true
  completionTriggers := [".", ":", " ", "("]
  signatureTriggers := ["(", ","]
  answersHover := true
  answersDefinition := true
  answersReferences := true
  answersOutline := true

end UtsInsight.Session
