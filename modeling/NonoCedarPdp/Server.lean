import NonoCedarPdp.Audit
import NonoCedarPdp.Engine

/-!
The HTTP surface (`server.rs`): the header gate, the approve handler and the
health endpoint. A handler returns its response together with the audit log it
leaves, the telemetry it emits and the decision the engine made, if it was asked.
-/
namespace NonoCedarPdp
open RustText

def unknown : String := "-"

def nonoContentType : String := "application/json"

def isJsonContentType (value : Option String) : Bool :=
  match value with
  | none => false
  | some value => eqIgnoreAsciiCase (trim (splitFirst ';' value)) nonoContentType

def maxRequestBytes : Nat := 1024 * 1024

/-- Header lines in the order received; names are in lower case. -/
abbrev HeaderMap := List (String × List UInt8)

/-- The first value of a header, lossily decoded. -/
def observed (headers : HeaderMap) (name : String) : Option String :=
  (headers.lookup name).map fromUtf8Lossy

inductive StatusCode
  | ok
  | forbidden
  | unsupportedMediaType
  | serviceUnavailable
  deriving DecidableEq, Repr

inductive ResponseBody
  | decision (wire : WebhookResponse)
  | error (text : String)
  deriving DecidableEq, Repr

structure Response where
  status : StatusCode
  body : ResponseBody
  deriving DecidableEq, Repr

def escapedOr (value : Option String) : String := (value.map controlEscape).getD unknown

/-- The refusal to send back, with its log line, or `none` when the request may
proceed. -/
def headerGate (headers : HeaderMap) : Option (Response × Event) :=
  let contentType := observed headers "content-type"
  let userAgent := observed headers "user-agent"
  if isJsonContentType contentType = false then
    some
      (⟨.unsupportedMediaType,
          .error ("this endpoint requires Content-Type: " ++ nonoContentType)⟩,
        { level := .warn
          message := "refusing a request whose content-type is not application/json: " ++
            "nono's webhook client always sends it, so this did not come from nono"
          fields := [("content_type", escapedOr contentType),
            ("user_agent", escapedOr userAgent)] })
  else
    match observed headers "origin" with
    | some origin =>
        some
          (⟨.forbidden, .error "this endpoint refuses requests carrying an Origin header"⟩,
            { level := .warn
              message := "refusing a request carrying an Origin header: nono never sends " ++
                "one and a browser always does"
              fields := [("origin", controlEscape origin),
                ("content_type", escapedOr contentType),
                ("user_agent", escapedOr userAgent)] })
    | none => none

/-- The most recent reload attempt, as the health surface reports it. -/
structure LastReload where
  outcome : String
  atTime : String
  deriving DecidableEq, Repr

structure AppState (Schema β σ : Type) where
  engine : Engine Schema β
  config : Config
  audit : AuditLog σ
  lastReload : Option LastReload

/-- What the clock and the sink's serializer give one request. -/
structure Moment where
  ts : String
  evalUs : Nat

/-- What `approve` does: `evaluated` is the engine's decision, when it was asked for
one. -/
structure Approved (σ : Type) where
  response : Response
  audit : AuditLog σ
  events : List Event
  evaluated : Option Decision

section Approve
variable {Schema β σ : Type} [ByteSink σ] (x : Externals Schema β) (serde : SerdeJson)
  (serialize : AuditLog.Serialize)

def unreadableReason : String :=
  "approval request body was unreadable or above the " ++ toString maxRequestBytes ++
    "-byte limit; failing closed"

/-- A denial of a body that never became a query, and its audit line. -/
def refuseBody (state : AppState Schema β σ) (ts : String) (context : RejectedContext)
    (decision : Decision) (userAgent : Option String) (events : List Event) :
      Approved σ where
  response := ⟨.ok, .decision decision.toWire⟩
  audit := state.audit.recordRejected serialize ts context decision userAgent
  events
  evaluated := none

def approve (state : AppState Schema β σ) (headers : HeaderMap) (body : RequestBody)
    (now : Moment) : Approved σ :=
  match headerGate headers with
  | some (refusal, event) => ⟨refusal, state.audit, [event], none⟩
  | none =>
      let userAgent := observed headers "user-agent"
      if x.crate.numOfPolicies state.engine.snapshot.set = 0 then
        ⟨⟨.serviceUnavailable, .error "no policies loaded"⟩, state.audit,
          [{ level := .error, message := "policy set is empty; refusing to decide", fields := [] }],
          none⟩
      else
        match x.toBytes body maxRequestBytes with
        | .error e =>
            refuseBody serialize state now.ts .default (.deny unreadableReason) userAgent
              [{ level := .warn
                 message := "refusing an unreadable or oversized approval request"
                 fields := [("error", controlEscape e),
                   ("limit", toString maxRequestBytes)] }]
        | .ok bytes =>
            match parse serde bytes state.config with
            | .error e =>
                let context := scrapeContext serde bytes state.config
                let decision := Decision.deny e.denyReason
                refuseBody serialize state now.ts context decision userAgent
                  [{ level := .warn
                     message := "rejecting approval request"
                     fields := [("cause", decision.reason),
                       ("request_id", context.requestId.getD unknown),
                       ("session_id", context.sessionId.getD unknown),
                       ("backend", context.backend.getD unknown),
                       ("capability_type", context.capabilityType.getD unknown)] },
                    { level := .debug
                      message := "approval request parse failure detail"
                      fields := [("request_id", context.requestId.getD unknown),
                        ("error", controlEscape e.text)] }]
            | .ok query =>
                let (decision, events) := state.engine.evaluate x query now.evalUs
                let requestId := controlEscape query.requestId
                { response := ⟨.ok, .decision decision.toWire⟩
                  audit := state.audit.record x.tables serialize now.ts query
                    decision userAgent
                  events := events ++
                    [{ level := .info
                       message := "decision"
                       fields := [("request_id", requestId),
                         ("session_id", controlEscape query.sessionId),
                         ("backend", controlEscape query.backend),
                         ("action", query.actionName),
                         ("allow", toString decision.allow),
                         ("matched",
                           "[" ++ ", ".intercalate
                             (decision.matched.map (debugStr x.tables)) ++ "]"),
                         ("eval_us", toString decision.evalUs)] },
                      { level := .debug
                        message := "decision detail"
                        fields := [("request_id", requestId),
                          ("resource", query.resourceSummary)] }]
                  evaluated := some decision }

end Approve

structure Health where
  status : StatusCode
  generation : UInt64
  policies : Nat
  loadedAt : Nat
  lastReload : Option LastReload
  deriving DecidableEq, Repr

def healthz {Schema β σ : Type} (x : Externals Schema β)
    (state : AppState Schema β σ) : Health :=
  let snapshot := state.engine.snapshot
  let count := x.crate.numOfPolicies snapshot.set
  { status := if count = 0 then .serviceUnavailable else .ok
    generation := snapshot.generation
    policies := count
    loadedAt := snapshot.loadedAt
    lastReload := state.lastReload }

/-- The snapshot is taken in one state and the reload status read in a later one. -/
def healthzAcross {Schema β σ : Type} (x : Externals Schema β)
    (state later : AppState Schema β σ) : Health :=
  { healthz x state with lastReload := later.lastReload }

end NonoCedarPdp
