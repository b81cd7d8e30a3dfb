import UtsInsight.Service
import UtsInsight.Session.Capabilities
import UtsInsight.Session.Message

/-!
# A session with an editor

A session takes one message after another and answers each with at most one reply and with the
diagnostics it publishes. It begins when the editor initializes it, stops serving after a shutdown,
and is over after an exit.

Open documents are kept with their versions. Whenever a document is opened or changed, or the
configuration changes, the documents concerned are validated and the result is stored and published
with the version; closing a document publishes an empty list. A change of a document that is not
open, or of a version that is not newer, has no effect.
-/

namespace UtsInsight

namespace Session

/-- Why a request is refused. -/
inductive Refusal where
  | notInitialized
  | invalidRequest
  | methodNotFound
  deriving DecidableEq, Repr

def Refusal.code : Refusal → Int
  | .notInitialized => -32002
  | .invalidRequest => -32600
  | .methodNotFound => -32601

def Refusal.message : Refusal → String
  | .notInitialized => "Server not initialized"
  | .invalidRequest => "Invalid request"
  | .methodNotFound => "Method not found"

/-- What a request is answered with. -/
inductive Answer where
  | capabilities (capabilities : Capabilities)
  | done
  | completion (items : Option (List CompletionItem))
  | hover (hover : Option Hover)
  | definition (location : Option Location)
  | references (locations : Option (List Location))
  | outline (symbols : Option (List OutlineSymbol))
  | signatureHelp (help : Option SignatureHelp)
  deriving DecidableEq, Repr

inductive Reply where
  | silence
  | answer (answer : Answer)
  | refusal (refusal : Refusal)
  /-- The session is over. -/
  | gone
  deriving DecidableEq, Repr

/-- Diagnostics sent to the editor. -/
structure Publication where
  uri : Uri
  diagnostics : List Diagnostic
  version : Option Int
  deriving DecidableEq, Repr

inductive Phase where
  | fresh
  | running
  | stopped
  | over
  deriving DecidableEq, Repr

/-- What a session relies on. -/
structure Host (κ : Type) extends Engine κ where
  environment : String → Option String

end Session

/-- The state of a session. -/
structure Session (κ : Type) where
  phase : Session.Phase
  documents : Registry Document
  service : Service κ

namespace Session

variable {κ : Type} [DecidableEq κ]

/-- A session that has not been initialized. -/
def start (host : Host κ) : Session κ :=
  ⟨.fresh, Registry.empty, Service.new (Config.resolve host.environment none)⟩

/-- Takes over the settings of a client. -/
def configure (host : Host κ) (session : Session κ) (options : Json) : Session κ :=
  { session with
    service := session.service.reconfigure (Config.resolve host.environment (some options)) }

/-- Validates a text of a document and publishes the result. -/
def publish (host : Host κ) (session : Session κ) (uri : Uri) (text : List Char) (version : Int) :
    Publication × Session κ :=
  let (diagnostics, service) := session.service.validate host.toEngine uri text
  (⟨uri, diagnostics, some version⟩, { session with service })

/-- Validates documents one after another. -/
def publishAll (host : Host κ) (session : Session κ) :
    List (Uri × Document) → List Publication × Session κ
  | [] => ([], session)
  | (uri, document) :: rest =>
    let (publication, session) := session.publish host uri document.text document.version
    let (publications, session) := publishAll host session rest
    (publication :: publications, session)

/-- Sets the text and version of a document and publishes its diagnostics. -/
def hold (host : Host κ) (session : Session κ) (uri : Uri) (document : Document) :
    List Publication × Session κ :=
  let session := { session with documents := session.documents.insert uri document }
  let (publication, session) := session.publish host uri document.text document.version
  ([publication], session)

/-- The effect of news in a running session. -/
def handleEvent (host : Host κ) (session : Session κ) :
    Event → List Publication × Session κ
  | .opened uri text version => session.hold host uri ⟨text, version⟩
  | .changed uri edits version =>
    match session.documents.get? uri with
    | none => ([], session)
    | some document =>
      match document.update edits version with
      | .ok document => session.hold host uri document
      | .error _ => ([], session)
  | .closed uri =>
    let lastText := (session.documents.get? uri).map (·.text)
    ([⟨uri, [], none⟩],
      { session with
        documents := session.documents.erase uri
        service := session.service.close host.toEngine uri lastText })
  | .configured settings =>
    let session := session.configure host ((settings.field? "uts").getD settings)
    session.publishAll host session.documents.entries

/-- The answer to a question in a running session. -/
def answerQuery (host : Host κ) (session : Session κ) : Query → Answer × Session κ
  | .completion uri position =>
    match session.documents.get? uri with
    | none => (.completion none, session)
    | some document =>
      let (items, service) := session.service.complete host.toEngine document.text position
      (.completion (some items), { session with service })
  | .hover uri position =>
    match session.documents.get? uri with
    | none => (.hover none, session)
    | some document =>
      let (hover, service) := session.service.hover host.toEngine document.text position
      (.hover hover, { session with service })
  | .definition uri position =>
    let document := session.documents.get? uri
    (.definition (document.bind fun d => Insight.definitionAt uri d.text position), session)
  | .references uri position =>
    let document := session.documents.get? uri
    (.references (document.map fun d => Insight.referencesAt uri d.text position), session)
  | .outline uri =>
    let document := session.documents.get? uri
    (.outline (document.map fun d => Insight.outlineSymbols uri d.text), session)
  | .signatureHelp uri position =>
    let document := session.documents.get? uri
    (.signatureHelp (document.bind fun d => Insight.signatureHelp d.text position), session)

/-- The reply to a request that cannot be served because of the phase. -/
def refuse (phase : Phase) : Reply :=
  match phase with
  | .fresh => .refusal .notInitialized
  | _ => .refusal .invalidRequest

/-- One message: the reply, the diagnostics published, and the session afterwards. -/
def step (host : Host κ) (session : Session κ) (message : Message) :
    Reply × List Publication × Session κ :=
  match session.phase, message with
  | .over, _ => (.gone, [], session)
  | _, .exit => (.silence, [], { session with phase := .over })
  | _, .ignored => (.silence, [], session)
  | _, .unknown => (.refusal .methodNotFound, [], session)
  | .fresh, .startUp options =>
    let session := match options with
      | some options => session.configure host options
      | none => session
    (.answer (.capabilities capabilities), [], { session with phase := .running })
  | _, .startUp _ => (.refusal .invalidRequest, [], session)
  | .running, .shutdown => (.answer .done, [], { session with phase := .stopped })
  | .running, .silentShutdown => (.silence, [], { session with phase := .stopped })
  | .running, .query query =>
    let (answer, session) := session.answerQuery host query
    (.answer answer, [], session)
  | .running, .event event =>
    let (publications, session) := session.handleEvent host event
    (.silence, publications, session)
  | .running, .unserved => (.refusal .methodNotFound, [], session)
  | .running, .misplaced => (.silence, [], session)
  | _, .silentShutdown => (.silence, [], session)
  | _, .event _ => (.silence, [], session)
  | phase, _ => (refuse phase, [], session)

end Session

end UtsInsight
