import UtsInsight.Insight.Navigation
import UtsInsight.Proofs.Cache.Faithful
import UtsInsight.Proofs.Registry.Lookup
import UtsInsight.Service

/-!
# A service without its cache

A run of the service is recorded as the list of its exchanges, the latest first. What each request
is due is said from that record alone: the feature function on a freshly built model, under the
configuration that the record has in force. The main statement is that this is what every request
gets, so the cache is never seen.

Every request of a run brings its own cache policy. The victims of an eviction are thereby free at
each step, and so is the hash function, which may send different texts to one hash.
-/
namespace UtsInsight.Service

/-- The model that a text has when it is parsed and analysed anew. -/
def freshModel (parse : List Char → Node) (text : List Char) : Model :=
  Model.build text (parse text)

/-- The diagnostics that a text is due under a configuration. -/
def dueDiagnostics (parse : List Char → Node) (config : Config) (text : List Char) :
    List Diagnostic :=
  Insight.validate text (freshModel parse text) config.advisoryDiagnostics

/-! ### One operation -/

variable {κ : Type} {service : Service κ} {value : List Char → Model}

@[simp] theorem reconfigure_config (service : Service κ) (config : Config) :
    (service.reconfigure config).config = config := by
  unfold reconfigure
  split_ifs <;> rfl

@[simp] theorem reconfigure_stored (service : Service κ) (config : Config) :
    (service.reconfigure config).stored = service.stored := by
  unfold reconfigure
  split_ifs <;> rfl

theorem reconfigure_faithful (h : service.cache.Faithful value) (config : Config) :
    (service.reconfigure config).cache.Faithful value := by
  unfold reconfigure
  split_ifs
  · exact h
  · exact Cache.faithful_empty value _

variable [DecidableEq κ] {engine : Engine κ}

theorem model_spec (engine : Engine κ)
    (h : service.cache.Faithful (freshModel engine.parse)) (text : List Char) :
    ∃ cache, service.model engine text = (freshModel engine.parse text, { service with cache }) ∧
      cache.Faithful (freshModel engine.parse) := by
  obtain ⟨hvalue, hcache⟩ := h.getOrInsert engine.policy text
  exact ⟨_, Prod.ext hvalue rfl, hcache⟩

theorem complete_spec (engine : Engine κ)
    (h : service.cache.Faithful (freshModel engine.parse)) (text : List Char)
    (position : Position) :
    ∃ cache, service.complete engine text position =
        (Insight.complete text position (freshModel engine.parse text)
          service.config.localSymbolCompletions, { service with cache }) ∧
      cache.Faithful (freshModel engine.parse) := by
  obtain ⟨cache, hmodel, hcache⟩ := model_spec engine h text
  refine ⟨cache, ?_, hcache⟩
  simp only [complete, hmodel]

theorem hover_spec (engine : Engine κ)
    (h : service.cache.Faithful (freshModel engine.parse)) (text : List Char)
    (position : Position) :
    ∃ cache, service.hover engine text position =
        (Insight.hover text position (freshModel engine.parse text), { service with cache }) ∧
      cache.Faithful (freshModel engine.parse) := by
  obtain ⟨cache, hmodel, hcache⟩ := model_spec engine h text
  refine ⟨cache, ?_, hcache⟩
  simp only [hover, hmodel]

theorem validate_spec (engine : Engine κ)
    (h : service.cache.Faithful (freshModel engine.parse)) (uri : Uri)
    (text : List Char) :
    ∃ cache, service.validate engine uri text =
        (dueDiagnostics engine.parse service.config text,
          { service with
            cache
            stored := service.stored.insert uri
              (dueDiagnostics engine.parse service.config text) }) ∧
      cache.Faithful (freshModel engine.parse) := by
  obtain ⟨cache, hmodel, hcache⟩ := model_spec engine h text
  refine ⟨cache, ?_, hcache⟩
  simp only [validate, hmodel]
  rfl

@[simp] theorem close_config (uri : Uri) (lastText : Option (List Char)) :
    (service.close engine uri lastText).config = service.config := by
  cases lastText <;> rfl

@[simp] theorem close_stored (uri : Uri) (lastText : Option (List Char)) :
    (service.close engine uri lastText).stored = service.stored.erase uri := by
  cases lastText <;> rfl

theorem close_faithful (h : service.cache.Faithful value) (uri : Uri)
    (lastText : Option (List Char)) : (service.close engine uri lastText).cache.Faithful value := by
  cases lastText with
  | none => exact h
  | some text => exact h.invalidate text

/-! ### Runs -/

/-- What the service is asked. The last four look at the text alone. -/
inductive Request where
  | reconfigure (config : Config)
  | complete (text : List Char) (position : Position)
  | hover (text : List Char) (position : Position)
  | validate (uri : Uri) (text : List Char)
  | close (uri : Uri) (lastText : Option (List Char))
  | definition (uri : Uri) (text : List Char) (position : Position)
  | references (uri : Uri) (text : List Char) (position : Position)
  | outline (uri : Uri) (text : List Char)
  | signatureHelp (text : List Char) (position : Position)

inductive Response where
  | done
  | completion (items : List CompletionItem)
  | hover (hover : Option Hover)
  | diagnostics (diagnostics : List Diagnostic)
  | definition (location : Option Location)
  | references (locations : List Location)
  | outline (symbols : List OutlineSymbol)
  | signatureHelp (help : Option SignatureHelp)

/-- One request: the response, and the service afterwards. -/
def serve (engine : Engine κ) (service : Service κ) : Request → Response × Service κ
  | .reconfigure config => (.done, service.reconfigure config)
  | .complete text position =>
    let (items, service) := service.complete engine text position
    (.completion items, service)
  | .hover text position =>
    let (hover, service) := service.hover engine text position
    (.hover hover, service)
  | .validate uri text =>
    let (diagnostics, service) := service.validate engine uri text
    (.diagnostics diagnostics, service)
  | .close uri lastText => (.done, service.close engine uri lastText)
  | .definition uri text position =>
    (.definition (Insight.definitionAt uri text position), service)
  | .references uri text position =>
    (.references (Insight.referencesAt uri text position), service)
  | .outline uri text => (.outline (Insight.outlineSymbols uri text), service)
  | .signatureHelp text position => (.signatureHelp (Insight.signatureHelp text position), service)

/-- A request with the cache policy that it meets. -/
structure Call (κ : Type) where
  policy : CachePolicy κ Model
  request : Request

/-- A request with the response it got. -/
structure Exchange where
  request : Request
  response : Response

/-- Serves calls one after another, with the exchanges before them, the latest first. -/
def run (parse : List Char → Node) :
    List (Call κ) → List Exchange → Service κ → List Exchange × Service κ
  | [], record, service => (record, service)
  | call :: calls, record, service =>
    let (response, service) := service.serve ⟨parse, call.policy⟩ call.request
    run parse calls (⟨call.request, response⟩ :: record) service

/-! ### What a request is due -/

/-- The configuration after some exchanges: the latest one that was set. -/
def configInForce (initial : Config) : List Exchange → Config
  | [] => initial
  | ⟨.reconfigure config, _⟩ :: _ => config
  | _ :: earlier => configInForce initial earlier

/-- What the latest validation of a document answered, unless the document was closed after it. -/
def latestDiagnostics (uri : Uri) : List Exchange → Option (List Diagnostic)
  | [] => none
  | ⟨.validate u _, .diagnostics found⟩ :: earlier =>
    if uri = u then some found else latestDiagnostics uri earlier
  | ⟨.close u _, _⟩ :: earlier => if uri = u then none else latestDiagnostics uri earlier
  | _ :: earlier => latestDiagnostics uri earlier

/-- The response that a request is due under a configuration. -/
def due (parse : List Char → Node) (config : Config) : Request → Response
  | .reconfigure _ => .done
  | .complete text position =>
    .completion (Insight.complete text position (Model.build text (parse text))
      config.localSymbolCompletions)
  | .hover text position =>
    .hover (Insight.hover text position (Model.build text (parse text)))
  | .validate _ text =>
    .diagnostics (Insight.validate text (Model.build text (parse text))
      config.advisoryDiagnostics)
  | .close _ _ => .done
  | .definition uri text position => .definition (Insight.definitionAt uri text position)
  | .references uri text position => .references (Insight.referencesAt uri text position)
  | .outline uri text => .outline (Insight.outlineSymbols uri text)
  | .signatureHelp text position => .signatureHelp (Insight.signatureHelp text position)

/-- Every request of a record got what it was due when it came. -/
def AllDue (parse : List Char → Node) (initial : Config) : List Exchange → Prop
  | [] => True
  | e :: earlier =>
    e.response = due parse (configInForce initial earlier) e.request ∧
      AllDue parse initial earlier

/-- What a record says about the service that made it. -/
structure Records (parse : List Char → Node) (initial : Config) (record : List Exchange)
    (service : Service κ) : Prop where
  faithful : service.cache.Faithful (freshModel parse)
  config : service.config = configInForce initial record
  stored : ∀ uri, service.storedDiagnostics uri = latestDiagnostics uri record
  allDue : AllDue parse initial record

variable {parse : List Char → Node} {initial : Config} {record : List Exchange}

omit [DecidableEq κ] in
theorem records_new (parse : List Char → Node) (initial : Config) :
    Records parse initial [] (new initial : Service κ) :=
  ⟨Cache.faithful_empty _ _, rfl, fun _ => rfl, trivial⟩

omit [DecidableEq κ] in
/-- A request that only adds to the cache keeps the record right if it gets what it is due. -/
theorem Records.exchange (h : Records parse initial record service) {cache : Cache κ Model}
    (hcache : cache.Faithful (freshModel parse)) {request : Request} {response : Response}
    (hdue : response = due parse service.config request)
    (hconfig : configInForce initial (⟨request, response⟩ :: record) = configInForce initial record)
    (hlatest : ∀ uri, latestDiagnostics uri (⟨request, response⟩ :: record) =
      latestDiagnostics uri record) :
    Records parse initial (⟨request, response⟩ :: record) { service with cache } where
  faithful := hcache
  config := h.config.trans hconfig.symm
  stored uri := (h.stored uri).trans (hlatest uri).symm
  allDue := ⟨h.config ▸ hdue, h.allDue⟩

theorem Records.serve (h : Records parse initial record service) (policy : CachePolicy κ Model)
    (request : Request) :
    Records parse initial (⟨request, (service.serve ⟨parse, policy⟩ request).1⟩ :: record)
      (service.serve ⟨parse, policy⟩ request).2 := by
  cases request with
  | reconfigure config =>
    refine ⟨reconfigure_faithful h.faithful config, reconfigure_config service config, ?_,
      rfl, h.allDue⟩
    intro uri
    exact (congrArg (·.get? uri) (reconfigure_stored service config)).trans (h.stored uri)
  | complete text position =>
    obtain ⟨cache, hserve, hcache⟩ := complete_spec ⟨parse, policy⟩ h.faithful text position
    simp only [Service.serve, hserve]
    exact h.exchange hcache rfl rfl fun _ => rfl
  | hover text position =>
    obtain ⟨cache, hserve, hcache⟩ := hover_spec ⟨parse, policy⟩ h.faithful text position
    simp only [Service.serve, hserve]
    exact h.exchange hcache rfl rfl fun _ => rfl
  | validate uri text =>
    obtain ⟨cache, hserve, hcache⟩ := validate_spec ⟨parse, policy⟩ h.faithful uri text
    simp only [Service.serve, hserve]
    refine ⟨hcache, h.config, ?_, h.config ▸ rfl, h.allDue⟩
    intro u
    simp only [storedDiagnostics, Registry.get?_insert, latestDiagnostics]
    rw [← h.stored u]
    rfl
  | close uri lastText =>
    refine ⟨close_faithful h.faithful uri lastText, (close_config uri lastText).trans h.config, ?_,
      rfl, h.allDue⟩
    intro u
    simp only [Service.serve, storedDiagnostics, close_stored, Registry.get?_erase,
      latestDiagnostics]
    rw [← h.stored u]
    rfl
  | definition => exact h.exchange h.faithful rfl rfl fun _ => rfl
  | references => exact h.exchange h.faithful rfl rfl fun _ => rfl
  | outline => exact h.exchange h.faithful rfl rfl fun _ => rfl
  | signatureHelp => exact h.exchange h.faithful rfl rfl fun _ => rfl

theorem Records.run (h : Records parse initial record service) (calls : List (Call κ)) :
    Records parse initial (Service.run parse calls record service).1
      (Service.run parse calls record service).2 := by
  induction calls generalizing record service with
  | nil => exact h
  | cons call calls ih => exact ih (h.serve call.policy call.request)

/-- A record grows by the requests of the calls, and forgets none. -/
theorem run_requests (calls : List (Call κ)) (record : List Exchange) (service : Service κ) :
    (Service.run parse calls record service).1.map (·.request) =
      (calls.map (·.request)).reverse ++ record.map (·.request) := by
  induction calls generalizing record service with
  | nil => rfl
  | cons call calls ih => simp [Service.run, ih]

/-- Whatever is asked of a service, and whatever its cache keeps or gives up, each response is the
one that the request is due on a fresh model, and the diagnostics on hold for a document are those
of its latest validation unless it was closed since. -/
theorem run_new_allDue (parse : List Char → Node) (initial : Config) (calls : List (Call κ)) :
    let (record, service) := Service.run parse calls [] (new initial)
    record.map (·.request) = (calls.map (·.request)).reverse ∧
      AllDue parse initial record ∧
      ∀ uri, service.storedDiagnostics uri = latestDiagnostics uri record := by
  have h := (records_new (κ := κ) parse initial).run calls
  exact ⟨by simpa using run_requests calls [] (new initial), h.allDue, h.stored⟩

end UtsInsight.Service
