import NonoCedarPdp.Cedar
import NonoCedarPdp.Query

/-!
Per-request entity slices (`cedar/entities.rs`): the agent, session and caller
of a query, its resource, and the context a policy may read.
-/
namespace NonoCedarPdp
open Cedar RustText

inductive BuildError
  | uid (uid message : String)
  | entity (message : String)
  | context (message : String)
  | request (message : String)
  deriving DecidableEq, Repr

def BuildError.text : BuildError → String
  | .uid refused message => "invalid entity uid " ++ refused ++ ": " ++ message
  | .entity message => "building entity: " ++ message
  | .context message => "building context: " ++ message
  | .request message => "building request: " ++ message

/-- `\` is escaped before `"`, so an escape is never escaped again. -/
def escape (raw : String) : String :=
  replaceChar '"' "\\\"" (replaceChar '\\' "\\\\" raw)

def argvTail (args : List String) : String := " ".intercalate (args.drop 1)

variable {Schema β : Type} (crate : Crate Schema β)

def uid (text : String) : Except BuildError EntityUid :=
  (crate.uidFromStr text).mapError fun e => .uid (controlEscape text) (controlEscape e)

def uidText (typeName id : String) : String :=
  "Nono::" ++ typeName ++ "::\"" ++ escape id ++ "\""

def entityFailure (e : String) : BuildError := .entity (controlEscape e)

def build (q : PolicyQuery) (schema : Schema) :
    Except BuildError (Request × Entities) := do
  let agent : Entity := ⟨← uid crate (uidText "Agent" q.agent), [], []⟩
  let session : Entity := ⟨← uid crate (uidText "Session" q.sessionId), [], [agent.uid]⟩
  let callerUid ← uid crate (uidText "Caller" q.caller)
  let caller : Entity := ⟨callerUid, [], [session.uid]⟩
  let (action, resourceUid, resourceEntity, contextPairs) ← match q.target with
    | .command command args interceptRule childPid => do
        let resourceUid ← uid crate (uidText "Command" q.requestId)
        let attrs :=
          [("command", .string command),
            ("args", .set (args.map .string)),
            ("argv_tail", .string (argvTail args)),
            ("arg_count", .long args.length)]
        let resource ← (Entity.new crate resourceUid attrs []).mapError entityFailure
        let pairs :=
          [("backend", .string q.backend),
            ("intercept_rule", .string interceptRule),
            ("caller_kind", .string q.callerKind.asStr),
            ("child_pid", .long childPid.toNat),
            ("session_id", .string q.sessionId)] ++
          (q.reason.map fun reason =>
            ("reason", RestrictedExpression.string reason)).toList
        let action ← uid crate "Nono::Action::\"launchCommand\""
        pure (action, resourceUid, resource, pairs)
    | .endpoint routeId upstream method path ruleLabel _ => do
        let resourceUid ← uid crate (uidText "HttpEndpoint" q.requestId)
        let attrs :=
          [("route_id", .string routeId),
            ("upstream", .string upstream),
            ("method", .string method),
            ("path", .string path)]
        let resource ← (Entity.new crate resourceUid attrs []).mapError entityFailure
        let pairs :=
          [("backend", .string q.backend),
            ("rule_label", .string ruleLabel)] ++
          (q.reason.map fun reason =>
            ("reason", RestrictedExpression.string reason)).toList
        let action ← uid crate "Nono::Action::\"httpRequest\""
        pure (action, resourceUid, resource, pairs)
  let entities ←
    (Entities.fromEntities crate [agent, session, caller, resourceEntity] schema).mapError
      entityFailure
  let context ← (Context.fromPairs crate contextPairs).mapError fun e =>
      .context (controlEscape e)
  let request ←
    (Request.new crate callerUid action resourceUid context schema).mapError fun e =>
      .request (controlEscape e)
  pure (request, entities)

end NonoCedarPdp
