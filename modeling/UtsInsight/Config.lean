import UtsInsight.Json
import UtsInsight.Text.Basic

/-!
# Configuration

Three settings steer the analyses. Each is taken from the environment if a variable with a valid
value exists there, else from the options of the client, else from the defaults. Options that are
malformed in any setting are ignored as a whole; a malformed variable is ignored alone.
-/

namespace UtsInsight

/-- Settings of the language service. -/
structure Config where
  /-- Publish informational annotations beside the findings of the analysis. -/
  advisoryDiagnostics : Bool := true
  /-- Offer the visible declarations of the document in default completions. -/
  localSymbolCompletions : Bool := true
  /-- Number of analysed documents kept for reuse. -/
  compileCacheCapacity : Nat := 64
  deriving DecidableEq, Repr, Inhabited

namespace Config

/-- The first items of a list read as settings in the order of their declaration. -/
def ofArray? : List Json → Option Config
  | [] => some {}
  | [advisory] => do return { advisoryDiagnostics := ← advisory.asBool? }
  | [advisory, symbols] => do
    return { advisoryDiagnostics := ← advisory.asBool?
             localSymbolCompletions := ← symbols.asBool? }
  | [advisory, symbols, capacity] => do
    return { advisoryDiagnostics := ← advisory.asBool?
             localSymbolCompletions := ← symbols.asBool?
             compileCacheCapacity := ← capacity.asWord? }
  | _ => none

/-- A setting of an object: the default if the field is missing, and no answer if it is malformed.
-/
def setting? {α : Type} (options : Json) (name : String) (read : Json → Option α) (default : α) :
    Option α :=
  match options.field? name with
  | some value => read value
  | none => some default

/-- Settings sent by a client: an object of named settings or an array of them. -/
def ofJson? (options : Json) : Option Config :=
  match options with
  | .array items => ofArray? items
  | .object _ => do
    return { advisoryDiagnostics := ← setting? options "advisoryDiagnostics" Json.asBool? true
             localSymbolCompletions := ← setting? options "localSymbolCompletions" Json.asBool? true
             compileCacheCapacity := ← setting? options "compileCacheCapacity" Json.asWord? 64 }
  | _ => none

/-- A truth value as users write it. -/
def readBool? (raw : String) : Option Bool :=
  let word := String.ofList ((Text.trim raw.toList).map Char.toLower)
  if ["1", "true", "yes", "on"].contains word then some true
  else if ["0", "false", "no", "off"].contains word then some false
  else none

/-- The value of decimal digits after what was read before them. -/
def digitsValue? : Nat → List Char → Option Nat
  | n, [] => some n
  | n, c :: cs =>
    if Text.isAsciiDigit c then digitsValue? (10 * n + (c.toNat - '0'.toNat)) cs else none

/-- A natural number of 64 bits in decimal digits, with an optional plus sign. -/
def readWord? (raw : String) : Option Nat :=
  let digits := match Text.trim raw.toList with
    | '+' :: rest => rest
    | cs => cs
  if digits.isEmpty then none
  else (digitsValue? 0 digits).filter (· < Json.wordLimit)

/-- The configuration in force for an environment and the options of a client. -/
def resolve (environment : String → Option String) (options : Option Json) : Config :=
  let base := (options.bind ofJson?).getD {}
  let advisory := (environment "UTS_LSP_ADVISORY_DIAGNOSTICS").bind readBool?
  let symbols := (environment "UTS_LSP_LOCAL_SYMBOL_COMPLETIONS").bind readBool?
  let capacity := (environment "UTS_LSP_COMPILE_CACHE_CAPACITY").bind readWord?
  { advisoryDiagnostics := advisory.getD base.advisoryDiagnostics
    localSymbolCompletions := symbols.getD base.localSymbolCompletions
    compileCacheCapacity := max 1 (capacity.getD base.compileCacheCapacity) }

end Config

end UtsInsight
