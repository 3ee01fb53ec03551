import NonoCedarPdp.AuditLines
import NonoCedarPdp.Baseline
import NonoCedarPdp.Server

/-!
What a request cannot influence, as laws over two runs: the identity an endpoint body
claims does not reach its decision, and the content of a request does not reach the
telemetry of the default level.
-/
namespace NonoCedarPdp
open Cedar Engine

/-! ## The identity an endpoint claims -/

/-- A decision but for the time it took. -/
def Decision.outcome (d : Decision) : Bool × List String × String :=
  (d.allow, d.matched, d.reason)

theorem Decision.outcome_fromResponse (response : Cedar.Response) (evalUs evalUs' : Nat) :
    (fromResponse response evalUs).outcome = (fromResponse response evalUs').outcome := by
  simp only [fromResponse]
  split
  · rfl
  · cases response.decision <;> rfl

section Identity
variable {Schema β : Type} (x : Externals Schema β)

/-- Queries that are built alike are decided alike. -/
theorem outcome_evaluate_congr (engine : Engine Schema β) {q q' : PolicyQuery}
    (path : pathAmbiguity q = pathAmbiguity q')
    (built : build x.crate q engine.schema = build x.crate q' engine.schema)
    (evalUs evalUs' : Nat) :
    (engine.evaluate x q evalUs).1.outcome =
      (engine.evaluate x q' evalUs').1.outcome := by
  simp only [Engine.evaluate, path, built]
  cases pathAmbiguity q' with
  | some found => rfl
  | none =>
      cases build x.crate q' engine.schema with
      | error e => rfl
      | ok pair => exact Decision.outcome_fromResponse _ evalUs evalUs'

end Identity

/-- Endpoint bodies that say the same but for the session id and the pid they claim. -/
def DifferInIdentity (serde : SerdeJson) (body body' : List UInt8) : Prop :=
  ∃ backend e sessionId childPid,
    serde.envelope body = .ok ⟨backend, .endpoint e⟩ ∧
      serde.envelope body' = .ok ⟨backend, .endpoint { e with sessionId, childPid }⟩

/-- The session id and the pid an endpoint body claims influence no policy. -/
theorem endpoint_identity_inert {Schema β : Type} (x : Externals Schema β)
    (serde : SerdeJson) (engine : Engine Schema β) (config : Config)
    (body body' : List UInt8) (differ : DifferInIdentity serde body body')
    (q q' : PolicyQuery) (parsed : parse serde body config = .ok q)
    (parsed' : parse serde body' config = .ok q') (evalUs evalUs' : Nat) :
    (engine.evaluate x q evalUs).1.allow = (engine.evaluate x q' evalUs').1.allow ∧
      (engine.evaluate x q evalUs).1.matched = (engine.evaluate x q' evalUs').1.matched ∧
      (engine.evaluate x q evalUs).1.reason =
        (engine.evaluate x q' evalUs').1.reason := by
  obtain ⟨backend, e, sessionId, childPid, read, read'⟩ := differ
  rw [parse, read] at parsed
  rw [parse, read'] at parsed'
  have same := Except.ok.inj parsed
  have same' := Except.ok.inj parsed'
  have path : pathAmbiguity q = pathAmbiguity q' := by
    rw [← same, ← same']
    simp only [pathAmbiguity]
  have built : build x.crate q engine.schema = build x.crate q' engine.schema := by
    rw [← same, ← same']
    exact build_congr rfl rfl rfl rfl rfl rfl rfl rfl engine.schema
  have alike := outcome_evaluate_congr x engine path built evalUs evalUs'
  simp only [Decision.outcome, Prod.mk.injEq] at alike
  exact alike

def proxyBody (sessionId childPid : String) : String :=
  "\x7b\"backend\":\"cedar\",\"request\":\x7b\"capability_type\":\"endpoint\"," ++
    "\"request_id\":\"p-1\",\"route_id\":\"github-api\"," ++
    "\"upstream\":\"https://api.github.com\",\"method\":\"GET\"," ++
    "\"path\":\"/repos/foo\",\"rule_label\":\"GET /repos/*\",\"reason\":null," ++
    "\"child_pid\":" ++ childPid ++ ",\"session_id\":\"" ++ sessionId ++ "\"\x7d\x7d"

def proxyRequest : EndpointRequest :=
  ⟨"p-1", "github-api", "https://api.github.com", "GET", "/repos/foo", "GET /repos/*",
    none, 0, "proxy"⟩

def proxyValue (sessionId : String) : JsonValue :=
  .object [("backend", .string "cedar"), ("request", .object
    [("capability_type", .string "endpoint"), ("request_id", .string "p-1"),
      ("route_id", .string "github-api"), ("upstream", .string "https://api.github.com"),
      ("method", .string "GET"), ("path", .string "/repos/foo"),
      ("rule_label", .string "GET /repos/*"), ("reason", .other), ("child_pid", .other),
      ("session_id", .string sessionId)])]

/-- A body as nono sends it, and one that claims a session. -/
def proxySerde : SerdeJson :=
  readsTable
    [(Utf8.encode (proxyBody "proxy" "0"), ⟨"cedar", .endpoint proxyRequest⟩,
        proxyValue "proxy"),
      (Utf8.encode (proxyBody "s1" "42"),
        ⟨"cedar", .endpoint { proxyRequest with sessionId := "s1", childPid := 42 }⟩,
        proxyValue "s1")]

theorem envelope_proxy : proxySerde.envelope (Utf8.encode (proxyBody "proxy" "0")) =
    .ok ⟨"cedar", .endpoint proxyRequest⟩ := by
  rw [proxySerde, reads_first]

theorem envelope_claimed : proxySerde.envelope (Utf8.encode (proxyBody "s1" "42")) =
    .ok ⟨"cedar", .endpoint { proxyRequest with sessionId := "s1", childPid := 42 }⟩ := by
  have differ : proxyBody "s1" "42" ≠ proxyBody "proxy" "0" := by decide +kernel
  rw [proxySerde, reads_second differ]

def proxyQuery (childPid : UInt32) : PolicyQuery where
  agent := "claude-code"
  sessionId := "proxy"
  caller := "proxy"
  callerKind := .session
  requestId := "p-1"
  backend := "cedar"
  reason := none
  target := .endpoint "github-api" "https://api.github.com" "GET" "/repos/foo"
    "GET /repos/*" childPid

theorem parse_proxy :
    parse proxySerde (Utf8.encode (proxyBody "proxy" "0")) claudeConfig =
      .ok (proxyQuery 0) := by
  rw [parse, envelope_proxy]
  rfl

theorem parse_claimed :
    parse proxySerde (Utf8.encode (proxyBody "s1" "42")) claudeConfig =
      .ok (proxyQuery 42) := by
  rw [parse, envelope_claimed]
  rfl

theorem endpoint_identity_inert_small :
    ((packEngine openSet).evaluate packExternals (proxyQuery 0) 7).1.allow =
        ((packEngine openSet).evaluate packExternals (proxyQuery 42) 9).1.allow ∧
      ((packEngine openSet).evaluate packExternals (proxyQuery 0) 7).1.matched =
        ((packEngine openSet).evaluate packExternals (proxyQuery 42) 9).1.matched ∧
      ((packEngine openSet).evaluate packExternals (proxyQuery 0) 7).1.reason =
        ((packEngine openSet).evaluate packExternals (proxyQuery 42) 9).1.reason :=
  endpoint_identity_inert packExternals proxySerde (packEngine openSet) claudeConfig _ _
    ⟨"cedar", proxyRequest, "s1", 42, envelope_proxy, envelope_claimed⟩ (proxyQuery 0)
      (proxyQuery 42)
    parse_proxy parse_claimed 7 9

/-! ## The content of a request in the telemetry -/

/-- What an event shows at the default level, but for the time an evaluation took. -/
def Event.untimed (e : Event) : Event :=
  { e with fields := e.fields.filter (·.1 ≠ "eval_us") }

def defaultLevel (events : List Event) : List Event :=
  (events.filter (·.level ≠ .debug)).map Event.untimed

/-- Whether the crate accepts a construction, and what it says when it does not, depends
on the uids and the kind of the query: every attribute has its schema type. -/
structure BuildsByIds {Schema β : Type} (crate : Crate Schema β)
    (schema : Schema) : Prop where
  entity : ∀ uid q q', q.actionName = q'.actionName →
    crate.entityError uid (resourceAttrs q) = crate.entityError uid (resourceAttrs q')
  entities : ∀ uids q q', q.actionName = q'.actionName →
    crate.entitiesError schema (slice uids q) = crate.entitiesError schema (slice uids q')
  context : ∀ q q', q.actionName = q'.actionName →
    crate.contextError (contextPairs q) = crate.contextError (contextPairs q')
  request : ∀ principal action resource q q', q.actionName = q'.actionName →
    crate.requestError schema ⟨principal, action, resource, ⟨contextPairs q⟩⟩ =
      crate.requestError schema ⟨principal, action, resource, ⟨contextPairs q'⟩⟩

/-- The parts of a query that telemetry may show, and that its decision may rest on. -/
structure SameIdentity (q q' : PolicyQuery) : Prop where
  agent : q.agent = q'.agent
  sessionId : q.sessionId = q'.sessionId
  caller : q.caller = q'.caller
  requestId : q.requestId = q'.requestId
  backend : q.backend = q'.backend
  kind : q.actionName = q'.actionName

def failure {ε α : Type} : Except ε α → Option ε
  | .ok _ => none
  | .error e => some e

section Build
variable {Schema β : Type} {crate : Crate Schema β} {schema : Schema} {q q' : PolicyQuery}

theorem failure_bind_same {ε α γ : Type} {x : Except ε α} {f g : α → Except ε γ}
    (rest : ∀ a, failure (f a) = failure (g a)) :
      failure (x >>= f) = failure (x >>= g) := by
  cases x with
  | error e => rfl
  | ok a => exact rest a

/-- Two values that are accepted or refused alike, and what is done with them. -/
theorem failure_accept_bind {ε α γ : Type} {text : String → ε}
    {error error' : Option String} {a b : α} {f g : α → Except ε γ}
    (alike : error = error') (rest : failure (f a) = failure (g b)) :
    failure ((accept error a).mapError text >>= f) =
      failure ((accept error' b).mapError text >>= g) := by
  subst alike
  cases error with
  | none => exact rest
  | some e => rfl

theorem resourceType_congr (kind : q.actionName = q'.actionName) :
    resourceType q = resourceType q' := by
  rw [PolicyQuery.actionName, PolicyQuery.actionName] at kind
  rw [resourceType, resourceType]
  cases target : q.target <;> cases target' : q'.target <;> simp_all

/-- Queries of one identity fail to build alike. -/
theorem failure_build (blind : BuildsByIds crate schema) (same : SameIdentity q q') :
    failure (build crate q schema) = failure (build crate q' schema) := by
  rw [build_eq, build_eq, same.agent, same.sessionId, same.caller, same.requestId,
    resourceType_congr same.kind, actionText_eq, actionText_eq, same.kind]
  apply failure_bind_same
  intro agent
  apply failure_bind_same
  intro session
  apply failure_bind_same
  intro caller
  apply failure_bind_same
  intro resource
  apply failure_accept_bind (blind.entity resource q q' same.kind)
  apply failure_bind_same
  intro action
  apply failure_accept_bind
    (blind.entities ⟨agent, session, caller, resource⟩ q q' same.kind)
  apply failure_accept_bind (blind.context q q' same.kind)
  apply failure_accept_bind (blind.request caller action resource q q' same.kind)
  rfl

end Build

section Telemetry
variable {Schema β σ : Type} [ByteSink σ] (x : Externals Schema β) (serde : SerdeJson)
  (serialize : AuditLog.Serialize)

theorem events_evaluate {engine engine' : Engine Schema β}
    (schema : engine'.schema = engine.schema) (blind : BuildsByIds x.crate engine.schema)
    {q q' : PolicyQuery} (same : SameIdentity q q')
    (ambiguous : (pathAmbiguity q).map Prod.snd = (pathAmbiguity q').map Prod.snd)
    (evalUs evalUs' : Nat) :
    (engine.evaluate x q evalUs).2 = (engine'.evaluate x q' evalUs').2 := by
  simp only [Engine.evaluate, schema]
  cases path : pathAmbiguity q with
  | some found =>
      cases path' : pathAmbiguity q' with
      | none => simp [path, path'] at ambiguous
      | some found' =>
          have cause : found.2 = found'.2 := by simpa [path, path'] using ambiguous
          simp only [cause, same.requestId]
  | none =>
      cases path' : pathAmbiguity q' with
      | some found' => simp [path, path'] at ambiguous
      | none =>
          have failed := failure_build blind same
          cases built : build x.crate q engine.schema with
          | error e =>
              cases built' : build x.crate q' engine.schema with
              | error e' =>
                  rw [built, built'] at failed
                  cases failed
                  rfl
              | ok pair' => rw [built, built'] at failed; cases failed
          | ok pair =>
              cases built' : build x.crate q' engine.schema with
              | error e' => rw [built, built'] at failed; cases failed
              | ok pair' => rfl

def AdaptError.sameVariant : AdaptError → AdaptError → Prop
  | .malformed _, .malformed _ => True
  | .unsupportedVariant, .unsupportedVariant => True
  | _, _ => False

theorem denyReason_of_sameVariant {e e' : AdaptError} (same : e.sameVariant e') :
    e.denyReason = e'.denyReason := by
  cases e with
  | malformed message =>
      cases e' with
      | malformed message' => rfl
      | unsupportedVariant => cases same
  | unsupportedVariant =>
      cases e' with
      | malformed message' => cases same
      | unsupportedVariant => rfl

/-- Both bodies become queries of one identity, with one ambiguity result, and are decided
alike. -/
def ParsedAlike (state state' : AppState Schema β σ) (body body' : RequestBody)
    (now now' : Moment) : Prop :=
  ∃ bytes bytes' q q',
    x.toBytes body maxRequestBytes = .ok bytes ∧ parse serde bytes state.config = .ok q ∧
      x.toBytes body' maxRequestBytes = .ok bytes' ∧
      parse serde bytes' state'.config = .ok q' ∧
      SameIdentity q q' ∧
      (pathAmbiguity q).map Prod.snd = (pathAmbiguity q').map Prod.snd ∧
      (state.engine.evaluate x q now.evalUs).1.allow =
        (state'.engine.evaluate x q' now'.evalUs).1.allow ∧
      (state.engine.evaluate x q now.evalUs).1.matched =
        (state'.engine.evaluate x q' now'.evalUs).1.matched

/-- Both bodies are refused for one cause, with one context scraped from them. -/
def RejectedAlike (state state' : AppState Schema β σ) (body body' : RequestBody) :
    Prop :=
  ∃ bytes bytes' e e',
    x.toBytes body maxRequestBytes = .ok bytes ∧
    parse serde bytes state.config = .error e ∧
      x.toBytes body' maxRequestBytes = .ok bytes' ∧
      parse serde bytes' state'.config = .error e' ∧
      e.sameVariant e' ∧
      scrapeContext serde bytes state.config = scrapeContext serde bytes' state'.config

/-- Requests of one identity and one outcome leave one trace at the default level,
whatever their content. Between them the log may have grown and the policies been
reloaded. -/
theorem telemetry_content_free (state state' : AppState Schema β σ)
    (schema : state'.engine.schema = state.engine.schema)
    (loaded : x.crate.numOfPolicies state'.engine.snapshot.set = 0 ↔
      x.crate.numOfPolicies state.engine.snapshot.set = 0)
    (blind : BuildsByIds x.crate state.engine.schema) (headers headers' : HeaderMap)
    (gate : headerGate headers = none) (gate' : headerGate headers' = none)
    (body body' : RequestBody) (now now' : Moment)
    (alike : ParsedAlike x serde state state' body body' now now' ∨
      RejectedAlike x serde state state' body body') :
    defaultLevel (approve x serde serialize state headers body now).events =
      defaultLevel (approve x serde serialize state' headers' body' now').events := by
  simp only [approve, gate, gate', loaded]
  split
  · rfl
  · cases alike with
    | inl parsed =>
        obtain ⟨bytes, bytes', q, q', read, accepted, read', accepted', same, ambiguous,
            allow, matched⟩ :=
          parsed
        simp only [read, read', accepted, accepted']
        rw [events_evaluate x schema blind same ambiguous now.evalUs now'.evalUs]
        simp only [defaultLevel, List.filter_append, List.map_append]
        congr 1
        simp [Event.untimed, allow, matched, same.requestId, same.sessionId,
          same.backend, same.kind]
    | inr rejected =>
        obtain ⟨bytes, bytes', e, e', read, refused, read', refused', cause, context⟩ :=
          rejected
        simp only [read, read', refused, refused', context,
          denyReason_of_sameVariant cause]
        simp [refuseBody, defaultLevel]

end Telemetry

/-- The frames of `statusBody`, but for a push to an address that holds a token. -/
def pushFrames : List String :=
  ["\x7b\"backend\":\"cedar\",\"request\":\x7b\"capability_type\":\"command\",",
    "\"request_id\":\"r1\",\"command\":\"git\",",
    "\"args\":[\"/tmp/shims/git\",\"push\",\"https://t0k3n@host/r\"],",
    "\"caller\":\"session\",\"intercept_rule\":\"git\",\"reason\":null,\"child_pid\":42,",
    "\"session_id\":\"s1\"\x7d\x7d"]

def pushBody : String := String.join pushFrames

def pushArgs : List String := ["/tmp/shims/git", "push", "https://t0k3n@host/r"]

def pushEnvelope : WebhookEnvelope :=
  ⟨"cedar", .command ⟨"r1", "git", pushArgs, "session", "git", none, 42, "s1"⟩⟩

def pushQuery : PolicyQuery :=
  { statusQuery with target := .command "git" pushArgs "git" 42 }

def launchSerde : SerdeJson :=
  readsTable [(Utf8.encode statusBody, statusEnvelope, statusValue),
    (Utf8.encode pushBody, pushEnvelope, statusValue)]

theorem parse_status :
    parse launchSerde (Utf8.encode statusBody) claudeConfig = .ok statusQuery := by
  have read : launchSerde.envelope (Utf8.encode statusBody) = .ok statusEnvelope := by
    rw [launchSerde, reads_first]
  rw [parse, read]
  rfl

theorem parse_push :
    parse launchSerde (Utf8.encode pushBody) claudeConfig = .ok pushQuery := by
  have differ : pushBody ≠ statusBody := by decide +kernel
  have read : launchSerde.envelope (Utf8.encode pushBody) = .ok pushEnvelope := by
    rw [launchSerde, reads_second differ]
  rw [parse, read]
  rfl

def launchState : AppState Unit Clauses MemorySink where
  engine := packEngine ⟨[⟨"99-open:0", .permit, [], permitAll⟩], List.nodup_singleton _⟩
  config := claudeConfig
  audit := .withSink ⟨[], Faults.none⟩ false
  lastReload := none

theorem evaluate_launchState (q : PolicyQuery) (clear : pathAmbiguity q = none)
    (evalUs : Nat) : (launchState.engine.evaluate packExternals q evalUs).1 =
      .fromResponse ⟨.allow, ["99-open:0"], []⟩ evalUs := by
  have passed : asked packExternals () q = some (packRequest q, packEntities q) :=
    (asked_eq_some_iff packExternals).mpr ⟨clear, build_packExternals q⟩
  have answered : launchState.engine.consulted packExternals q =
      some ⟨.allow, ["99-open:0"], []⟩ := by
    rw [consulted_eq]
    exact congrArg (Option.map _) passed
  exact evaluate_of_consulted packExternals answered evalUs

theorem buildsByIds_packExternals : BuildsByIds packExternals.crate () where
  entity _ _ _ _ := rfl
  entities _ _ _ _ := rfl
  context _ _ _ := rfl
  request _ _ _ _ _ _ := rfl

def jsonHeaders : HeaderMap := [("content-type", Utf8.encode "application/json")]

theorem gate_jsonHeaders : headerGate jsonHeaders = none := by decide +kernel

def framesBody (frames : List String) : RequestBody := ⟨frames.map Utf8.encode, none⟩

theorem flatten_framesBody (frames : List String) :
    (framesBody frames).frames.flatten = Utf8.encode (String.join frames) := by
  rw [framesBody]
  induction frames with
  | nil => rfl
  | cons frame frames ih =>
      rw [List.map_cons, List.flatten_cons, ih, String.join_cons, Utf8.encode_append]

theorem toBytes_framesBody {Schema β : Type} (x : Externals Schema β)
    {frames : List String} {limit : Nat}
    (short : 4 * (String.join frames).toList.length ≤ limit) :
    x.toBytes (framesBody frames) limit = .ok (Utf8.encode (String.join frames)) := by
  refine (x.toBytes_eq_ok_iff _ _ _).mpr ⟨rfl, flatten_framesBody frames, ?_⟩
  exact (Utf8.length_encode_le _).trans short

theorem telemetry_content_free_small :
    defaultLevel
    (approve packExternals launchSerde AuditLog.toJsonLine launchState jsonHeaders
        (framesBody statusFrames) ⟨"1970-01-01T00:00:00Z", 7⟩).events =
      defaultLevel
      (approve packExternals launchSerde AuditLog.toJsonLine launchState jsonHeaders
        (framesBody pushFrames) ⟨"1970-01-01T00:00:01Z", 9⟩).events := by
  have alike : ParsedAlike packExternals launchSerde launchState launchState
      (framesBody statusFrames)
      (framesBody pushFrames) ⟨"1970-01-01T00:00:00Z", 7⟩
        ⟨"1970-01-01T00:00:01Z", 9⟩ := by
    refine ⟨_, _, statusQuery, pushQuery,
      toBytes_framesBody _ (by decide +kernel), parse_status, toBytes_framesBody _
        (by decide +kernel), parse_push, ⟨rfl, rfl, rfl, rfl, rfl, rfl⟩, rfl, ?_, ?_⟩
    · rw [evaluate_launchState statusQuery rfl, evaluate_launchState pushQuery rfl]
      rfl
    · rw [evaluate_launchState statusQuery rfl, evaluate_launchState pushQuery rfl]
      simp
  exact telemetry_content_free packExternals launchSerde AuditLog.toJsonLine
    launchState launchState
    rfl Iff.rfl buildsByIds_packExternals jsonHeaders jsonHeaders gate_jsonHeaders
      gate_jsonHeaders
    (framesBody statusFrames) (framesBody pushFrames) _ _ (.inl alike)

end NonoCedarPdp
