import NonoCedarPdp.Lib.RustText

/-!
The adapter-neutral query (`query.rs`), the escaping of request-derived text
(`sanitize.rs`) and the telemetry events the request path emits.
-/
namespace NonoCedarPdp
open RustText

def controlEscape (input : String) : String :=
  if input.toList.any isControl then
    String.join (input.toList.map fun c =>
      if isControl c then "\\u\x7b" ++ lowerHex 4 c.toNat ++ "\x7d"
      else String.singleton c)
  else input

inductive CallerKind
  | session
  | command
  deriving DecidableEq, Repr

def CallerKind.asStr : CallerKind → String
  | .session => "session"
  | .command => "command"

inductive Target
  | command (command : String) (args : List String) (interceptRule : String)
      (childPid : UInt32)
  | endpoint (routeId upstream method path ruleLabel : String) (childPid : UInt32)
  deriving DecidableEq, Repr

structure PolicyQuery where
  agent : String
  sessionId : String
  caller : String
  callerKind : CallerKind
  requestId : String
  backend : String
  reason : Option String
  target : Target
  deriving DecidableEq, Repr

def PolicyQuery.actionName (q : PolicyQuery) : String :=
  match q.target with
  | .command .. => "launchCommand"
  | .endpoint .. => "httpRequest"

def PolicyQuery.resourceSummary (q : PolicyQuery) : String :=
  controlEscape <| match q.target with
    | .command command args _ _ => command ++ " [" ++ " ".intercalate args ++ "]"
    | .endpoint _ upstream method path _ _ => method ++ " " ++ upstream ++ path

inductive Level
  | error
  | warn
  | info
  | debug
  deriving DecidableEq, Repr

structure Event where
  level : Level
  message : String
  fields : List (String × String)
  deriving DecidableEq, Repr

end NonoCedarPdp
