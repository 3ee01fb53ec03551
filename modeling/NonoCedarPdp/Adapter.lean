import NonoCedarPdp.Query

/-!
The webhook adapter (`adapter/nono_webhook.rs`) over the wire mirrors of
`wire.rs` and the agent map of the configuration. What `serde_json` makes of a
body is a parameter: the typed envelope, and the untyped value of a body that
the typed parse refused.
-/
namespace NonoCedarPdp

structure CommandRequest where
  requestId : String
  command : String
  args : List String
  caller : String
  interceptRule : String
  reason : Option String
  childPid : UInt32
  sessionId : String
  deriving DecidableEq, Repr

structure EndpointRequest where
  requestId : String
  routeId : String
  upstream : String
  method : String
  path : String
  ruleLabel : String
  reason : Option String
  childPid : UInt32
  sessionId : String
  deriving DecidableEq, Repr

inductive ApprovalRequest
  | command (c : CommandRequest)
  | endpoint (e : EndpointRequest)
  | unsupported
  deriving DecidableEq, Repr

structure WebhookEnvelope where
  backend : String
  request : ApprovalRequest
  deriving DecidableEq, Repr

/-- A JSON value, as far as a scrape looks into one. -/
inductive JsonValue
  | object (fields : List (String × JsonValue))
  | string (text : String)
  | other

def JsonValue.get (value : JsonValue) (key : String) : Option JsonValue :=
  match value with
  | .object fields => fields.lookup key
  | _ => none

def JsonValue.asStr : JsonValue → Option String
  | .string text => some text
  | _ => none

structure SerdeJson where
  envelope : List UInt8 → Except String WebhookEnvelope
  value : List UInt8 → Option JsonValue

/-- The part of the configuration the request path reads: the agent map. -/
structure Config where
  agents : List (String × String)

def unknownAgent : String := "unknown"

def Config.agentFor (config : Config) (backend : String) : String :=
  (config.agents.lookup backend).getD unknownAgent

def proxyIdentity : String := "proxy"

inductive AdaptError
  | malformed (message : String)
  | unsupportedVariant
  deriving DecidableEq, Repr

def AdaptError.text : AdaptError → String
  | .malformed message => "malformed approval request: " ++ message
  | .unsupportedVariant => "unsupported approval request variant"

def AdaptError.denyReason : AdaptError → String
  | .malformed _ => "malformed approval request body; failing closed"
  | .unsupportedVariant => "unsupported approval request variant; failing closed"

structure RejectedContext where
  backend : Option String
  agent : Option String
  capabilityType : Option String
  requestId : Option String
  sessionId : Option String
  deriving DecidableEq, Repr

def RejectedContext.default : RejectedContext := ⟨none, none, none, none, none⟩

def scrapeContext (serde : SerdeJson) (body : List UInt8) (config : Config) :
    RejectedContext :=
  match serde.value body with
  | none => .default
  | some value =>
      let text (parent : JsonValue) (key : String) : Option String :=
        ((parent.get key).bind JsonValue.asStr).map controlEscape
      let backend := text value "backend"
      let request := value.get "request"
      { backend
        agent := backend.map config.agentFor
        capabilityType := request.bind (text · "capability_type")
        requestId := request.bind (text · "request_id")
        sessionId := request.bind (text · "session_id") }

def parse (serde : SerdeJson) (body : List UInt8) (config : Config) :
    Except AdaptError PolicyQuery :=
  match serde.envelope body with
  | .error message => .error (.malformed message)
  | .ok envelope =>
      let agent := config.agentFor envelope.backend
      match envelope.request with
      | .command c =>
          .ok
            { agent
              sessionId := c.sessionId
              caller := c.caller
              callerKind := if c.caller = "session" then .session else .command
              requestId := c.requestId
              backend := envelope.backend
              reason := c.reason
              target := .command c.command c.args c.interceptRule c.childPid }
      | .endpoint e =>
          -- The identity is pinned: the wire's session id is not looked at.
          .ok
            { agent
              sessionId := proxyIdentity
              caller := proxyIdentity
              callerKind := .session
              requestId := e.requestId
              backend := envelope.backend
              reason := e.reason
              target := .endpoint e.routeId e.upstream e.method e.path
                e.ruleLabel e.childPid }
      | .unsupported => .error .unsupportedVariant

end NonoCedarPdp
