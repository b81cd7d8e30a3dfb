import UtsInsight.Insight.Protocol

/-!
# Findings

A finding is a problem with the bytes it is about. Problems are causes; the category of a finding
and its wording follow from the cause.
-/

namespace UtsInsight

/-- How a compiler ranks its findings. -/
inductive Category where
  | error
  | warning
  | suggestion
  | message
  deriving DecidableEq, Repr

namespace Category

def all : List Category :=
  [.error, .warning, .suggestion, .message]

def name : Category → String
  | .error => "Error"
  | .warning => "Warning"
  | .suggestion => "Suggestion"
  | .message => "Message"

/-- How serious an editor shows a finding of the category to be. -/
def severity : Category → Severity
  | .error => .error
  | .warning => .warning
  | .suggestion | .message => .information

end Category

/-- What is wrong. -/
inductive Problem where
  /-- Text that fits nowhere, with its first word if it has one. -/
  | unexpectedToken (word : Option String)
  | identifierExpected
  | tokenExpected (token : String)
  | redeclaredVariable (name : String)
  | duplicateImplementation
  | duplicateIdentifier (name : String)
  | notAssignable (actual expected : String)
  | unknownName (name : String)
  | unreachable
  | unused (name : String)
  deriving DecidableEq, Repr

namespace Problem

def category : Problem → Category
  | .unreachable | .unused _ => .suggestion
  | _ => .error

def message : Problem → String
  | .unexpectedToken (some word) => "Unexpected token '" ++ word ++ "'."
  | .unexpectedToken none => "Unexpected token."
  | .identifierExpected => "Identifier expected."
  | .tokenExpected token => "'" ++ token ++ "' expected."
  | .redeclaredVariable name => "Cannot redeclare block-scoped variable '" ++ name ++ "'."
  | .duplicateImplementation => "Duplicate function implementation."
  | .duplicateIdentifier name => "Duplicate identifier '" ++ name ++ "'."
  | .notAssignable actual expected =>
    "Type '" ++ actual ++ "' is not assignable to type '" ++ expected ++ "'."
  | .unknownName name => "Cannot find name '" ++ name ++ "'."
  | .unreachable => "Unreachable code detected."
  | .unused name => "'" ++ name ++ "' is declared but its value is never read."

end Problem

structure Finding where
  range : ByteSpan
  problem : Problem
  deriving DecidableEq, Repr

namespace Finding

def category (f : Finding) : Category :=
  f.problem.category

def message (f : Finding) : String :=
  f.problem.message

/-- Whether a finding does not come after another one: by start, then by end. -/
def notAfter (a b : Finding) : Bool :=
  a.range.start < b.range.start
    || (a.range.start == b.range.start && a.range.stop ≤ b.range.stop)

/-- The finding for the lines and columns of a text. -/
def diagnostic (f : Finding) (text : List Char) : Diagnostic :=
  { range := Text.spanOf text f.range, severity := f.category.severity, message := f.message }

end Finding

end UtsInsight
