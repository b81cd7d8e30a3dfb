import UtsInsight.Cache
import UtsInsight.Config
import UtsInsight.Insight.Call
import UtsInsight.Insight.Completion
import UtsInsight.Insight.Hover
import UtsInsight.Insight.Validation

/-!
# The language service

The service answers requests about texts. It keeps a configuration, a cache of the models it has
built, and the latest diagnostics of each document. Requests that need a model take it from the
cache or build it; the others look at the text alone and leave the service as it is, so they are the
features themselves and have no counterpart here.
-/

namespace UtsInsight

/-- What the service relies on: the parser of the language and the policy of its cache. -/
structure Engine (κ : Type) where
  parse : List Char → Node
  policy : CachePolicy κ Model

structure Service (κ : Type) where
  config : Config
  cache : Cache κ Model
  /-- The latest diagnostics of each document. -/
  stored : Registry (List Diagnostic)

namespace Service

variable {κ : Type} [DecidableEq κ]

/-- A service that has answered nothing yet. -/
def new (config : Config) : Service κ :=
  ⟨config, Cache.empty config.compileCacheCapacity, Registry.empty⟩

/-- Replaces the configuration. A new capacity starts an empty cache. -/
def reconfigure (service : Service κ) (config : Config) : Service κ :=
  if service.cache.capacity = config.compileCacheCapacity then { service with config }
  else { service with config, cache := Cache.empty config.compileCacheCapacity }

/-- The model of a text. -/
def model (engine : Engine κ) (service : Service κ) (text : List Char) : Model × Service κ :=
  let (model, _, cache) :=
    service.cache.getOrInsert engine.policy text fun _ => Model.build text (engine.parse text)
  (model, { service with cache })

/-- The completion list at a position. -/
def complete (engine : Engine κ) (service : Service κ) (text : List Char) (position : Position) :
    List CompletionItem × Service κ :=
  let (model, service) := service.model engine text
  (Insight.complete text position model service.config.localSymbolCompletions, service)

/-- The tooltip at a position. -/
def hover (engine : Engine κ) (service : Service κ) (text : List Char) (position : Position) :
    Option Hover × Service κ :=
  let (model, service) := service.model engine text
  (Insight.hover text position model, service)

/-- The diagnostics of a document, which are stored as its latest. -/
def validate (engine : Engine κ) (service : Service κ) (uri : Uri) (text : List Char) :
    List Diagnostic × Service κ :=
  let (model, service) := service.model engine text
  let diagnostics := Insight.validate text model service.config.advisoryDiagnostics
  (diagnostics, { service with stored := service.stored.insert uri diagnostics })

/-- The latest diagnostics of a document. -/
def storedDiagnostics (service : Service κ) (uri : Uri) : Option (List Diagnostic) :=
  service.stored.get? uri

/-- Forgets a document: its diagnostics and, if its last text is known, the model of that text. -/
def close (engine : Engine κ) (service : Service κ) (uri : Uri) (lastText : Option (List Char)) :
    Service κ :=
  let service := { service with stored := service.stored.erase uri }
  match lastText with
  | some text => { service with cache := service.cache.invalidate engine.policy text }
  | none => service

end Service

end UtsInsight
