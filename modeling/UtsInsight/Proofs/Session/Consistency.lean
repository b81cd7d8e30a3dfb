import UtsInsight.Proofs.Service.Transparency
import UtsInsight.Session.Step

/-!
# A session keeps its promises

After the start of a session an editor sends news in any order. Whatever it sends, the documents
that are open, the diagnostics on hold for them and the diagnostics last published stay in step with
each other, with the texts and with the configuration.

Publications are recorded with the latest first. News come with the cache policy that they meet, so
nothing here depends on which models the cache gives up.
-/
namespace UtsInsight.Session
open Service

/-- The latest publication for a document. -/
def lastSent (uri : Uri) (sent : List Publication) : Option Publication :=
  sent.find? (·.uri == uri)

@[simp] theorem lastSent_cons_self (uri : Uri) (diagnostics : List Diagnostic)
    (version : Option Int) (sent : List Publication) :
    lastSent uri (⟨uri, diagnostics, version⟩ :: sent) = some ⟨uri, diagnostics, version⟩ := by
  simp [lastSent]

theorem lastSent_cons_of_ne {uri : Uri} {publication : Publication} (h : publication.uri ≠ uri)
    (sent : List Publication) : lastSent uri (publication :: sent) = lastSent uri sent := by
  simp [lastSent, h]

/-- The diagnostics on hold and last published for a document are those of its text, and the
publication carries its version. -/
def Validated (parse : List Char → Node) (config : Config)
    (stored : Registry (List Diagnostic)) (sent : List Publication) (uri : Uri)
    (document : Document) : Prop :=
  stored.get? uri = some (dueDiagnostics parse config document.text) ∧
    lastSent uri sent =
      some ⟨uri, dueDiagnostics parse config document.text, some document.version⟩

variable {κ : Type} [DecidableEq κ] {host : Host κ} {session : Session κ}

/-! ### Validating documents -/

theorem publish_spec (host : Host κ) (session : Session κ)
    (h : session.service.cache.Faithful (freshModel host.parse)) (uri : Uri) (text : List Char)
    (version : Int) :
    ∃ service, session.publish host uri text version =
        (⟨uri, dueDiagnostics host.parse session.service.config text, some version⟩,
          { session with service }) ∧
      service.config = session.service.config ∧
      service.stored = session.service.stored.insert uri
        (dueDiagnostics host.parse session.service.config text) ∧
      service.cache.Faithful (freshModel host.parse) := by
  obtain ⟨cache, hvalidate, hcache⟩ := validate_spec host.toEngine h uri text
  simp only [publish, hvalidate]
  exact ⟨_, rfl, rfl, rfl, hcache⟩

/-- Validating a document makes it a validated one and leaves the others alone. -/
theorem validated_publish (parse : List Char → Node) (config : Config)
    (stored : Registry (List Diagnostic)) (sent : List Publication) (uri : Uri)
    (document : Document) :
    Validated parse config
      (stored.insert uri (dueDiagnostics parse config document.text))
      (⟨uri, dueDiagnostics parse config document.text, some document.version⟩ :: sent)
      uri document := by
  simp [Validated, Registry.get?_insert]

theorem publishAll_spec (host : Host κ) (session : Session κ) (entries : List (Uri × Document))
    (sent : List Publication)
    (h : session.service.cache.Faithful (freshModel host.parse))
    (hdistinct : (entries.map Prod.fst).Nodup) :
    ∃ publications service, session.publishAll host entries =
        (publications, { session with service }) ∧
      service.config = session.service.config ∧
      service.cache.Faithful (freshModel host.parse) ∧
      (∀ uri, uri ∉ entries.map Prod.fst →
        service.stored.get? uri = session.service.stored.get? uri ∧
        lastSent uri (publications.reverse ++ sent) = lastSent uri sent) ∧
      ∀ entry ∈ entries, Validated host.parse session.service.config service.stored
        (publications.reverse ++ sent) entry.1 entry.2 := by
  induction entries generalizing session sent with
  | nil => exact ⟨[], session.service, rfl, rfl, h, fun _ _ => ⟨rfl, rfl⟩, by simp⟩
  | cons entry rest ih =>
    obtain ⟨uri, document⟩ := entry
    obtain ⟨middle, hpublish, hconfig, hstored, hcache⟩ :=
      publish_spec host session h uri document.text document.version
    simp only [List.map_cons, List.nodup_cons] at hdistinct
    obtain ⟨publications, service, hall, hconfig', hfaithful, hothers, hvalidated⟩ :=
      ih { session with service := middle }
        (⟨uri, dueDiagnostics host.parse session.service.config document.text,
          some document.version⟩ :: sent) hcache hdistinct.2
    simp only [hconfig, hstored] at hconfig' hothers hvalidated
    simp only [publishAll, hpublish, hall]
    refine ⟨_, service, rfl, hconfig', hfaithful, ?_, ?_⟩
    · intro u hu
      simp only [List.map_cons, List.mem_cons, not_or] at hu
      obtain ⟨hget, hsent⟩ := hothers u hu.2
      rw [Registry.get?_insert, if_neg hu.1] at hget
      rw [List.reverse_cons, List.append_assoc]
      exact ⟨hget, hsent.trans (lastSent_cons_of_ne (Ne.symm hu.1) sent)⟩
    · intro entry hentry
      rw [List.reverse_cons, List.append_assoc]
      rcases List.mem_cons.mp hentry with rfl | hentry
      · obtain ⟨hget, hsent⟩ := hothers uri hdistinct.1
        have hhead := validated_publish host.parse session.service.config
          session.service.stored sent uri document
        exact ⟨hget.trans hhead.1, hsent.trans hhead.2⟩
      · exact hvalidated entry hentry

theorem hold_spec (h : session.service.cache.Faithful (freshModel host.parse)) (uri : Uri)
    (document : Document) :
    ∃ service, session.hold host uri document =
        ([⟨uri, dueDiagnostics host.parse session.service.config document.text,
            some document.version⟩],
          { session with documents := session.documents.insert uri document, service }) ∧
      service.config = session.service.config ∧
      service.stored = session.service.stored.insert uri
        (dueDiagnostics host.parse session.service.config document.text) ∧
      service.cache.Faithful (freshModel host.parse) := by
  obtain ⟨service, hpublish, hservice⟩ :=
    publish_spec host { session with documents := session.documents.insert uri document }
      h uri document.text document.version
  simp only [hold, hpublish]
  exact ⟨service, rfl, hservice⟩

/-! ### Runs -/

/-- News with the cache policy that they meet. -/
structure Arrival (κ : Type) where
  policy : CachePolicy κ Model
  event : Event

/-- Handles news one after another, with what was published before them. -/
def follow (host : Host κ) :
    List (Arrival κ) → List Publication → Session κ → List Publication × Session κ
  | [], sent, session => (sent, session)
  | arrival :: arrivals, sent, session =>
    let (_, publications, session) :=
      session.step { host with policy := arrival.policy } (.event arrival.event)
    follow host arrivals (publications.reverse ++ sent) session

/-- A session that an editor has just initialized. -/
def initialized (host : Host κ) (options : Option Json) : Session κ :=
  ((start host).step host (.startUp options)).2.2

/-- The settings after news. -/
def settingsAfter (settings : Option Json) : Event → Option Json
  | .configured new => some ((new.field? "uts").getD new)
  | _ => settings

/-- What holds of a session and its publications after any news. -/
structure Consistent (parse : List Char → Node) (config : Config) (session : Session κ)
    (sent : List Publication) : Prop where
  running : session.phase = .running
  config_eq : session.service.config = config
  distinct : session.documents.Distinct
  faithful : session.service.cache.Faithful (freshModel parse)
  validated : ∀ uri document, session.documents.get? uri = some document →
    Validated parse config session.service.stored sent uri document
  absent : ∀ uri, session.documents.get? uri = none → session.service.stored.get? uri = none

omit [DecidableEq κ] in
theorem start_faithful (host : Host κ) :
    (start host).service.cache.Faithful (freshModel host.parse) :=
  Cache.faithful_empty _ _

theorem consistent_initialized (host : Host κ) (options : Option Json) :
    Consistent host.parse (Config.resolve host.environment options)
      (initialized host options) [] := by
  cases options with
  | none =>
    exact ⟨rfl, rfl, Registry.distinct_empty, start_faithful host,
      by simp [initialized, start, step], fun _ _ => rfl⟩
  | some options =>
    refine ⟨rfl, reconfigure_config _ _, Registry.distinct_empty,
      reconfigure_faithful (start_faithful host) _, by simp [initialized, start, step, configure],
      fun uri _ => ?_⟩
    exact congrArg (·.get? uri) (reconfigure_stored (start host).service _)

theorem step_event (h : session.phase = .running) (event : Event) :
    session.step host (.event event) =
      (.silence, (session.handleEvent host event).1, (session.handleEvent host event).2) := by
  simp [step, h]

variable {config : Config} {settings : Option Json} {sent : List Publication}

theorem Consistent.hold (host : Host κ) (h : Consistent host.parse config session sent)
    (uri : Uri) (document : Document) :
    Consistent host.parse config (session.hold host uri document).2
      ((session.hold host uri document).1.reverse ++ sent) := by
  obtain ⟨service, hhold, hconfig, hstored, hcache⟩ := hold_spec h.faithful uri document
  simp only [h.config_eq] at hhold hconfig hstored
  rw [hhold]
  refine ⟨h.running, hconfig, h.distinct.insert uri document, hcache, ?_, ?_⟩
  · intro u other hu
    simp only [Registry.get?_insert] at hu
    simp only [hstored]
    split_ifs at hu with heq
    · obtain rfl := Option.some.inj hu
      subst heq
      exact validated_publish host.parse config session.service.stored sent u document
    · obtain ⟨hget, hsent⟩ := h.validated u other hu
      exact ⟨by rw [Registry.get?_insert, if_neg heq, hget],
        (lastSent_cons_of_ne (Ne.symm heq) sent).trans hsent⟩
  · intro u hu
    simp only [Registry.get?_insert] at hu
    split_ifs at hu with heq
    simp only [hstored, Registry.get?_insert, if_neg heq]
    exact h.absent u hu

theorem Consistent.close (host : Host κ) (h : Consistent host.parse config session sent)
    (uri : Uri) :
    Consistent host.parse config (session.handleEvent host (.closed uri)).2
      ((session.handleEvent host (.closed uri)).1.reverse ++ sent) := by
  simp only [handleEvent]
  refine ⟨h.running, (close_config uri _).trans h.config_eq, h.distinct.erase uri,
    close_faithful h.faithful uri _, ?_, ?_⟩
  · intro u document hu
    simp only [Registry.get?_erase] at hu
    split_ifs at hu with heq
    obtain ⟨hget, hsent⟩ := h.validated u document hu
    refine ⟨?_, (lastSent_cons_of_ne (Ne.symm heq) sent).trans hsent⟩
    rw [close_stored, Registry.get?_erase, if_neg heq, hget]
  · intro u hu
    simp only [Registry.get?_erase] at hu
    simp only [close_stored, Registry.get?_erase]
    split_ifs at hu ⊢ with heq
    · rfl
    · exact h.absent u hu

/-- A new configuration validates every open document again. -/
theorem Consistent.configure (host : Host κ) (h : Consistent host.parse config session sent)
    (new : Json) :
    Consistent host.parse
      (Config.resolve host.environment (settingsAfter settings (.configured new)))
      (session.handleEvent host (.configured new)).2
      ((session.handleEvent host (.configured new)).1.reverse ++ sent) := by
  have hfaithful := reconfigure_faithful h.faithful
    (Config.resolve host.environment (settingsAfter settings (.configured new)))
  obtain ⟨publications, service, hall, hconfig, hcache, hothers, hvalidated⟩ :=
    publishAll_spec host (session.configure host ((new.field? "uts").getD new))
      session.documents.entries sent hfaithful h.distinct
  have heq : session.handleEvent host (.configured new) = (publications,
      { session.configure host ((new.field? "uts").getD new) with service }) := hall
  have hnew : (session.configure host ((new.field? "uts").getD new)).service.config =
      Config.resolve host.environment (settingsAfter settings (.configured new)) :=
    reconfigure_config _ _
  rw [heq]
  refine ⟨h.running, hconfig.trans hnew, h.distinct, hcache, ?_, ?_⟩
  · intro uri document hopen
    rw [← hnew]
    exact hvalidated (uri, document) (Registry.mem_of_get? hopen)
  · intro uri hclosed
    rw [(hothers uri (Registry.notMem_keys_of_get?_eq_none hclosed)).1]
    exact (congrArg (·.get? uri) (reconfigure_stored session.service _)).trans
      (h.absent uri hclosed)

/-- The news is a change that cannot be applied: of a document that is not open, or for a version
that the document already has or has passed. -/
def Refuses (session : Session κ) (uri : Uri) (version : Int) : Prop :=
  ∀ document, session.documents.get? uri = some document → version ≤ document.version

theorem handleEvent_of_refuses (host : Host κ) {uri : Uri} {version : Int}
    (h : session.Refuses uri version) (edits : List Edit) :
    session.handleEvent host (.changed uri edits version) = ([], session) := by
  unfold handleEvent
  cases hget : session.documents.get? uri with
  | none => simp only [hget]
  | some document => simp only [hget, Document.update, if_pos (h document hget)]

/-- A change that is not refused takes the document to the new version. -/
theorem handleEvent_of_not_refuses (host : Host κ) {uri : Uri} {version : Int}
    (h : ¬session.Refuses uri version) (edits : List Edit) :
    ∃ document, session.documents.get? uri = some document ∧
      session.handleEvent host (.changed uri edits version) =
        session.hold host uri ⟨edits.foldl Edit.apply document.text, version⟩ := by
  simp only [Refuses, not_forall, exists_prop] at h
  obtain ⟨document, hget, hversion⟩ := h
  refine ⟨document, hget, ?_⟩
  simp only [handleEvent, hget, Document.update, if_neg hversion]

theorem Consistent.handleEvent (host : Host κ)
    (h : Consistent host.parse (Config.resolve host.environment settings) session sent)
    (event : Event) :
    Consistent host.parse (Config.resolve host.environment (settingsAfter settings event))
      (session.handleEvent host event).2 ((session.handleEvent host event).1.reverse ++ sent) := by
  cases event with
  | opened uri text version => exact h.hold host uri ⟨text, version⟩
  | changed uri edits version =>
    by_cases hrefuses : session.Refuses uri version
    · rw [handleEvent_of_refuses host hrefuses]
      exact h
    · obtain ⟨document, -, hheld⟩ := handleEvent_of_not_refuses host hrefuses edits
      rw [hheld]
      exact h.hold host uri _
  | closed uri => exact h.close host uri
  | configured new => exact h.configure host new

/-- The document is not open, and the latest that was published for it is the empty list. -/
def Cleared (session : Session κ) (sent : List Publication) (uri : Uri) : Prop :=
  session.documents.get? uri = none ∧ lastSent uri sent = some ⟨uri, [], none⟩

theorem cleared_closed (host : Host κ) (uri : Uri) :
    Cleared (session.handleEvent host (.closed uri)).2
      ((session.handleEvent host (.closed uri)).1.reverse ++ sent) uri := by
  simp [handleEvent, Cleared, Registry.get?_erase]

theorem Cleared.hold (host : Host κ) {uri : Uri} (h : session.Cleared sent uri)
    (hfaithful : session.service.cache.Faithful (freshModel host.parse)) {u : Uri} (hne : uri ≠ u)
    (document : Document) :
    Cleared (session.hold host u document).2
      ((session.hold host u document).1.reverse ++ sent) uri := by
  obtain ⟨service, hhold, -, -, -⟩ := hold_spec hfaithful u document
  rw [hhold]
  refine ⟨?_, (lastSent_cons_of_ne (Ne.symm hne) sent).trans h.2⟩
  simp only [Registry.get?_insert, if_neg hne, h.1]

/-- Only opening a document takes back that it was cleared. -/
theorem Cleared.handleEvent (host : Host κ) {uri : Uri} (h : session.Cleared sent uri)
    (hconsistent : Consistent host.parse config session sent) {event : Event}
    (hopened : ∀ text version, event ≠ .opened uri text version) :
    Cleared (session.handleEvent host event).2
      ((session.handleEvent host event).1.reverse ++ sent) uri := by
  cases event with
  | opened u text version =>
    have hne : uri ≠ u := fun he => hopened text version (by rw [he])
    exact h.hold host hconsistent.faithful hne _
  | changed u edits version =>
    by_cases hrefuses : session.Refuses u version
    · rw [handleEvent_of_refuses host hrefuses]
      exact h
    · obtain ⟨document, hget, hheld⟩ := handleEvent_of_not_refuses host hrefuses edits
      have hne : uri ≠ u := fun he => Option.some_ne_none _ (hget.symm.trans (he ▸ h.1))
      rw [hheld]
      exact h.hold host hconsistent.faithful hne _
  | closed u =>
    by_cases heq : uri = u
    · subst heq
      exact cleared_closed host uri
    · refine ⟨?_, (lastSent_cons_of_ne (Ne.symm heq) sent).trans h.2⟩
      simp only [Session.handleEvent, Registry.get?_erase, if_neg heq, h.1]
  | configured new =>
    obtain ⟨publications, service, hall, -, -, hothers, -⟩ :=
      publishAll_spec host (session.configure host ((new.field? "uts").getD new))
        session.documents.entries sent (reconfigure_faithful hconsistent.faithful _)
        hconsistent.distinct
    have heq : session.handleEvent host (.configured new) = (publications,
        { session.configure host ((new.field? "uts").getD new) with service }) := hall
    rw [heq]
    exact ⟨h.1, (hothers uri (Registry.notMem_keys_of_get?_eq_none h.1)).2.trans h.2⟩

theorem Consistent.follow (host : Host κ)
    (h : Consistent host.parse (Config.resolve host.environment settings) session sent)
    (arrivals : List (Arrival κ)) :
    Consistent host.parse
      (Config.resolve host.environment ((arrivals.map (·.event)).foldl settingsAfter settings))
      (Session.follow host arrivals sent session).2
      (Session.follow host arrivals sent session).1 := by
  induction arrivals generalizing session sent settings with
  | nil => exact h
  | cons arrival arrivals ih =>
    simp only [Session.follow, step_event h.running]
    exact ih (h.handleEvent { host with policy := arrival.policy } arrival.event)

theorem Cleared.follow (host : Host κ) {uri : Uri} (h : session.Cleared sent uri)
    (hconsistent : Consistent host.parse (Config.resolve host.environment settings) session sent)
    {arrivals : List (Arrival κ)}
    (hopened : ∀ text version, .opened uri text version ∉ arrivals.map (·.event)) :
    Cleared (Session.follow host arrivals sent session).2
      (Session.follow host arrivals sent session).1 uri := by
  induction arrivals generalizing session sent settings with
  | nil => exact h
  | cons arrival arrivals ih =>
    simp only [List.map_cons, List.mem_cons, not_or] at hopened
    simp only [Session.follow, step_event hconsistent.running]
    apply ih
    · exact h.handleEvent { host with policy := arrival.policy } hconsistent
        fun text version he => (hopened text version).1 he.symm
    · exact hconsistent.handleEvent { host with policy := arrival.policy } arrival.event
    · exact fun text version => (hopened text version).2

theorem follow_append (host : Host κ) (before after : List (Arrival κ)) (sent : List Publication)
    (session : Session κ) :
    Session.follow host (before ++ after) sent session =
      Session.follow host after (Session.follow host before sent session).1
        (Session.follow host before sent session).2 := by
  induction before generalizing sent session with
  | nil => rfl
  | cons arrival before ih => simp only [List.cons_append, Session.follow, ih]

/-- A document that was closed and not opened again was last told that nothing is wrong with it. -/
theorem cleared_of_closed (host : Host κ) (options : Option Json) {before after : List (Arrival κ)}
    {policy : CachePolicy κ Model} {uri : Uri}
    (hopened : ∀ text version, .opened uri text version ∉ after.map (·.event)) :
    let followed := Session.follow host (before ++ ⟨policy, .closed uri⟩ :: after) []
      (initialized host options)
    Cleared followed.2 followed.1 uri := by
  have hbefore := (consistent_initialized host options).follow host before
  have hclosed := hbefore.handleEvent { host with policy } (.closed uri)
  simp only [follow_append, Session.follow, step_event hbefore.running]
  exact (cleared_closed { host with policy } uri).follow host hclosed hopened

/-- Whatever news an editor sends after the start of a session, the configuration is the one of the
latest settings; exactly the open documents have diagnostics on hold; those and the last published
ones are the diagnostics of the document's text under the configuration, and were published with its
version; a closed document was last told that it has none; and a change that is refused changes
nothing and publishes nothing. -/
theorem follow_initialized_consistent (host : Host κ) (options : Option Json)
    (arrivals : List (Arrival κ)) :
    let (sent, session) := Session.follow host arrivals [] (initialized host options)
    let config := session.service.config
    config = Config.resolve host.environment
        ((arrivals.map (·.event)).foldl settingsAfter options) ∧
      (∀ uri, (session.service.storedDiagnostics uri).isSome =
        (session.documents.get? uri).isSome) ∧
      (∀ uri document, session.documents.get? uri = some document →
        let diagnostics := Insight.validate document.text
          (Model.build document.text (host.parse document.text)) config.advisoryDiagnostics
        session.service.storedDiagnostics uri = some diagnostics ∧
          lastSent uri sent = some ⟨uri, diagnostics, some document.version⟩) ∧
      (∀ uri before policy after, arrivals = before ++ ⟨policy, .closed uri⟩ :: after →
        (∀ text version, .opened uri text version ∉ after.map (·.event)) →
        lastSent uri sent = some ⟨uri, [], none⟩) ∧
      ∀ policy uri edits version, session.Refuses uri version →
        session.step { host with policy } (.event (.changed uri edits version)) =
          (.silence, [], session) := by
  have h := (consistent_initialized host options).follow host arrivals
  refine ⟨h.config_eq, ?_, ?_, ?_, ?_⟩
  · intro uri
    cases hget :
        (Session.follow host arrivals [] (initialized host options)).2.documents.get? uri with
    | none => exact congrArg Option.isSome (h.absent uri hget)
    | some document => exact congrArg Option.isSome (h.validated uri document hget).1
  · intro uri document hget
    have hvalidated := h.validated uri document hget
    rw [← h.config_eq] at hvalidated
    exact hvalidated
  · intro uri before policy after heq hopened
    subst heq
    exact (cleared_of_closed host options hopened).2
  · intro policy uri edits version hrefuses
    rw [step_event h.running, handleEvent_of_refuses _ hrefuses]

end UtsInsight.Session
