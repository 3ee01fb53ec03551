import NonoCedarPdp.Adapter
import NonoCedarPdp.Decision
import NonoCedarPdp.Filesystem
import NonoCedarPdp.Lib.JsonText
import NonoCedarPdp.Lib.LineFile

/-!
The audit trail (`audit.rs`): its two record shapes, and `AuditLog::append` over
any sink. Serialization can fail and is a parameter; `TrailRecord.toJson` is what
`serde_json` writes. A sink answers every operation itself, failures included, so
that whatever can go wrong with a file is in the sink's state.
-/
namespace NonoCedarPdp
open RustText

structure AuditRecord where
  kind : String
  ts : String
  requestId : Option String
  sessionId : Option String
  backend : Option String
  agent : Option String
  principal : Option String
  action : Option String
  resource : Option String
  childPid : Option UInt32
  interceptRule : Option String
  ruleLabel : Option String
  userAgent : Option String
  decision : String
  matched : List String
  reason : String
  evalUs : Nat
  deriving DecidableEq, Repr

structure PolicySetRecord where
  kind : String
  ts : String
  outcome : String
  generation : UInt64
  contentHash : Option String
  files : Option (List String)
  atRisk : Bool
  reason : Option String
  deriving DecidableEq, Repr

inductive TrailRecord
  | decision (record : AuditRecord)
  | policySet (record : PolicySetRecord)
  deriving DecidableEq, Repr

section
open JsonText

def AuditRecord.toJson (r : AuditRecord) : String :=
  object
    [("kind", quote r.kind), ("ts", quote r.ts),
      ("request_id", nullable quote r.requestId),
      ("session_id", nullable quote r.sessionId), ("backend", nullable quote r.backend),
      ("agent", nullable quote r.agent), ("principal", nullable quote r.principal),
      ("action", nullable quote r.action), ("resource", nullable quote r.resource),
      ("child_pid", nullable (fun pid : UInt32 => toString pid.toNat) r.childPid),
      ("intercept_rule", nullable quote r.interceptRule),
      ("rule_label", nullable quote r.ruleLabel),
      ("user_agent", nullable quote r.userAgent),
      ("decision", quote r.decision), ("matched", array (r.matched.map quote)),
      ("reason", quote r.reason), ("eval_us", toString r.evalUs)]

def PolicySetRecord.toJson (r : PolicySetRecord) : String :=
  object
    [("kind", quote r.kind), ("ts", quote r.ts), ("outcome", quote r.outcome),
      ("generation", toString r.generation.toNat),
      ("content_hash", nullable quote r.contentHash),
      ("files", nullable (fun files : List String => array (files.map quote)) r.files),
      ("at_risk", toString r.atRisk), ("reason", nullable quote r.reason)]

def TrailRecord.toJson : TrailRecord → String
  | .decision record => record.toJson
  | .policySet record => record.toJson

end

inductive PolicySetOutcome
  | loaded (contentHash : String) (files : List Path)
  | refused (reason : String)
  | failed (reason : String)
  deriving DecidableEq, Repr

def PolicySetOutcome.name : PolicySetOutcome → String
  | .loaded .. => "loaded"
  | .refused _ => "refused"
  | .failed _ => "failed"

inductive Reattach
  | unchanged
  | reopened (endsMidLine : Bool)
  deriving DecidableEq, Repr

/-- Where audit lines go. The boolean of `append` and `truncate` is whether the
call returned `Ok`. -/
class ByteSink (σ : Type) where
  append : σ → List UInt8 → Bool × σ
  size : σ → Option Nat × σ
  truncate : σ → Nat → Bool × σ
  reattach : σ → Reattach × σ := fun s => (.unchanged, s)

/-- What goes wrong in one append: the size queries that are not answered, the part
of the buffer a failing write takes, the truncation that fails. -/
structure Faults where
  sizes : List Bool
  takes : Option Nat
  truncates : Bool
  deriving DecidableEq, Repr

def Faults.none : Faults := ⟨[], .none, true⟩

def Faults.answersSize (faults : Faults) : Bool := faults.sizes.head?.getD true

/-- The faults that are left after a size query. -/
def Faults.sized (faults : Faults) : Faults := { faults with sizes := faults.sizes.tail }

structure Sink (σ : Type) where
  bytes : σ
  unterminated : Bool
  lastSize : Option Nat

/-- What one `append` did: whether its physical write returned `Ok`, and how many
bytes it found missing since the last record. -/
structure Appended where
  written : Bool
  bytesRemoved : Option Nat
  deriving DecidableEq, Repr

namespace Sink
variable {σ : Type} [ByteSink σ]

def reattach (sink : Sink σ) : Sink σ :=
  match ByteSink.reattach sink.bytes with
  | (.unchanged, bytes) => { sink with bytes }
  | (.reopened endsMidLine, bytes) =>
      { bytes, unterminated := endsMidLine, lastSize := none }

/-- One write per record, with a newline first where the last one was left broken. -/
def buffer (sink : Sink σ) (line : List UInt8) : List UInt8 :=
  (if sink.unterminated then [LineFile.newline] else []) ++ (line ++ [LineFile.newline])

def shrunk (sink : Sink σ) (sizeBefore : Option Nat) : Option Nat :=
  match sizeBefore, sink.lastSize with
  | some before, some last => if before < last then some (last - before) else none
  | _, _ => none

/-- After a failed write: the file is cut back to where it was, when that is known. -/
def rollBack (bytes : σ) (sizeBefore : Option Nat) : Bool × σ :=
  match sizeBefore with
  | none => (false, bytes)
  | some len => ByteSink.truncate bytes len

def write (sink : Sink σ) (line : List UInt8) : Appended × Sink σ :=
  let (sizeBefore, bytes) := ByteSink.size sink.bytes
  let (written, bytes) := ByteSink.append bytes (sink.buffer line)
  let (whole, bytes) := if written then (true, bytes) else rollBack bytes sizeBefore
  let (lastSize, bytes) := ByteSink.size bytes
  (⟨written, sink.shrunk sizeBefore⟩, { bytes, unterminated := !whole, lastSize })

/-- `AuditLog::append` under the lock. `line` is the serialized record, if it
serialized. -/
def append (sink : Sink σ) (line : Option (List UInt8)) : Appended × Sink σ :=
  match line with
  | none => (⟨false, none⟩, sink)
  | some line => sink.reattach.write line

end Sink

/-! ## What one write does -/

/-- A sink that holds bytes: writes add some of their buffer at the end, all of it
when they succeed; sizes and truncations that succeed are those of the bytes. Of
the `rest` of the state no operation but `reattach` changes anything. -/
class LawfulByteSink (σ : Type) [ByteSink σ] where
  contents : σ → List UInt8
  Rest : Type
  rest : σ → Rest
  append_spec : ∀ (s : σ) (buf : List UInt8),
    rest (ByteSink.append s buf).2 = rest s ∧
      ∃ k, contents (ByteSink.append s buf).2 = contents s ++ buf.take k ∧
        ((ByteSink.append s buf).1 = true → buf.length ≤ k)
  size_spec : ∀ s : σ,
    rest (ByteSink.size s).2 = rest s ∧ contents (ByteSink.size s).2 = contents s ∧
      ∀ n, (ByteSink.size s).1 = some n → n = (contents s).length
  truncate_spec : ∀ (s : σ) (len : Nat),
    rest (ByteSink.truncate s len).2 = rest s ∧
      contents (ByteSink.truncate s len).2 =
        if (ByteSink.truncate s len).1 then LineFile.setLen (contents s) len
          else contents s

section Writes
variable {σ : Type} [ByteSink σ] [LawfulByteSink σ]
open LawfulByteSink

/-- A failed write on `sink` that is followed by a truncation to the size read before
it. -/
def Sink.RollsBack (sink : Sink σ) (line : List UInt8) : Prop :=
  let sized := ByteSink.size sink.bytes
  let appended := ByteSink.append sized.2 (sink.buffer line)
  appended.1 = false ∧ ∃ len,
    sized.1 = some len ∧ (ByteSink.truncate appended.2 len).1 = true

/-- What a write leaves: the whole buffer, the bytes as they were, or some of the
buffer and the mark that the line is broken. -/
inductive Sink.Left (sink : Sink σ) (line : List UInt8) (did : Appended)
    (after : Sink σ) : Prop
  | wrote (written : did.written = true)
      (bytes : contents after.bytes = contents sink.bytes ++ sink.buffer line)
      (flag : after.unterminated = false)
  | rolledBack (written : did.written = false) (rolls : sink.RollsBack line)
      (bytes : contents after.bytes = contents sink.bytes)
      (flag : after.unterminated = false)
  | torn (written : did.written = false) (k : Nat)
      (bytes : contents after.bytes = contents sink.bytes ++ (sink.buffer line).take k)
      (flag : after.unterminated = true)

theorem Sink.write_left (sink : Sink σ) (line : List UInt8) :
    sink.Left line (sink.write line).1 (sink.write line).2 := by
  obtain ⟨-, sizedBytes, sizedLen⟩ := size_spec sink.bytes
  obtain ⟨-, k, appendedBytes, appendedAll⟩ :=
    append_spec (ByteSink.size sink.bytes).2 (sink.buffer line)
  rw [sizedBytes] at appendedBytes
  cases ok : (ByteSink.append (ByteSink.size sink.bytes).2 (sink.buffer line)).1 with
  | true =>
      have all : (sink.buffer line).take k = sink.buffer line :=
        List.take_of_length_le (appendedAll ok)
      apply Sink.Left.wrote
      · simp [Sink.write, ok]
      · simp [Sink.write, ok, (size_spec _).2.1, appendedBytes, all]
      · simp [Sink.write, ok]
  | false =>
      cases len : (ByteSink.size sink.bytes).1 with
      | none =>
          apply Sink.Left.torn (k := k)
          · simp [Sink.write, ok]
          · simp [Sink.write, ok, Sink.rollBack, len, (size_spec _).2.1, appendedBytes]
          · simp [Sink.write, ok, Sink.rollBack, len]
      | some n =>
          obtain rfl := sizedLen n len
          have cut := (truncate_spec
            (ByteSink.append (ByteSink.size sink.bytes).2 (sink.buffer line)).2
            (contents sink.bytes).length).2
          cases trunc : (ByteSink.truncate
              (ByteSink.append (ByteSink.size sink.bytes).2 (sink.buffer line)).2
              (contents sink.bytes).length).1 with
          | true =>
              rw [if_pos trunc, appendedBytes, LineFile.setLen_append] at cut
              apply Sink.Left.rolledBack
              · simp [Sink.write, ok]
              · exact ⟨ok, _, len, trunc⟩
              · simp [Sink.write, ok, Sink.rollBack, len, (size_spec _).2.1, cut]
              · simp [Sink.write, ok, Sink.rollBack, len, trunc]
          | false =>
              rw [if_neg (by simp [trunc]), appendedBytes] at cut
              apply Sink.Left.torn (k := k)
              · simp [Sink.write, ok]
              · simp [Sink.write, ok, Sink.rollBack, len, (size_spec _).2.1, cut]
              · simp [Sink.write, ok, Sink.rollBack, len, trunc]

theorem Sink.rest_write (sink : Sink σ) (line : List UInt8) :
    rest (sink.write line).2.bytes = rest sink.bytes := by
  have appended := (append_spec (ByteSink.size sink.bytes).2 (sink.buffer line)).1
  cases ok : (ByteSink.append (ByteSink.size sink.bytes).2 (sink.buffer line)).1 with
  | true => simp [Sink.write, ok, (size_spec _).1, appended]
  | false =>
      cases len : (ByteSink.size sink.bytes).1 with
      | none => simp [Sink.write, ok, Sink.rollBack, len, (size_spec _).1, appended]
      | some n =>
          simp [Sink.write, ok, Sink.rollBack, len, (size_spec _).1,
            (truncate_spec _ _).1, appended]

end Writes

/-- `attempted` lists the records handed to `append` so far, for the statements. -/
structure AuditLog (σ : Type) where
  sink : Sink σ
  attempted : List TrailRecord

namespace AuditLog
variable {σ : Type} [ByteSink σ]

/-- `serde_json::to_string` of a record, as bytes. -/
abbrev Serialize := TrailRecord → Option (List UInt8)

def toJsonLine : Serialize := fun record => some (Utf8.encode record.toJson)

def withSink (bytes : σ) (unterminated : Bool) : AuditLog σ :=
  ⟨⟨bytes, unterminated, none⟩, []⟩

def append (serialize : Serialize) (log : AuditLog σ)
    (record : TrailRecord) : AuditLog σ :=
  ⟨(log.sink.append (serialize record)).2, log.attempted ++ [record]⟩

def decisionName (decision : Decision) : String :=
  if decision.allow then "allow" else "deny"

/-- The line of a request that was decided. -/
def decidedRecord (tables : UnicodeTables) (ts : String) (query : PolicyQuery)
    (decision : Decision) (userAgent : Option String) : AuditRecord :=
  let (childPid, interceptRule, ruleLabel) :
      Option UInt32 × Option String × Option String :=
    match query.target with
    | .command _ _ interceptRule childPid =>
        (some childPid, some (controlEscape interceptRule), none)
    | .endpoint _ _ _ _ ruleLabel childPid =>
        (some childPid, none, some (controlEscape ruleLabel))
  { kind := "decision"
    ts
    requestId := some (controlEscape query.requestId)
    sessionId := some (controlEscape query.sessionId)
    backend := some (controlEscape query.backend)
    agent := some query.agent
    principal := some ("Nono::Caller::" ++ debugStr tables query.caller)
    action := some query.actionName
    resource := some query.resourceSummary
    childPid
    interceptRule
    ruleLabel
    userAgent := userAgent.map controlEscape
    decision := decisionName decision
    matched := decision.matched
    reason := decision.reason
    evalUs := decision.evalUs }

/-- The line of a request that never became a query. -/
def rejectedRecord (ts : String) (context : RejectedContext) (decision : Decision)
    (userAgent : Option String) : AuditRecord where
  kind := "decision"
  ts
  requestId := context.requestId
  sessionId := context.sessionId
  backend := context.backend
  agent := context.agent
  principal := none
  action := none
  resource := context.capabilityType.map fun variant => "capability_type=" ++ variant
  childPid := none
  interceptRule := none
  ruleLabel := none
  userAgent := userAgent.map controlEscape
  decision := decisionName decision
  matched := decision.matched
  reason := decision.reason
  evalUs := decision.evalUs

def policySetRecord (ts : String) (generation : UInt64) (atRisk : Bool)
    (outcome : PolicySetOutcome) : PolicySetRecord :=
  let (contentHash, files, reason) :
      Option String × Option (List String) × Option String :=
    match outcome with
    | .loaded contentHash files =>
        (some contentHash, some (files.map fun p => controlEscape p.display), none)
    | .refused reason => (none, none, some (controlEscape reason))
    | .failed reason => (none, none, some (controlEscape reason))
  { kind := "policy-set", ts, outcome := outcome.name, generation, contentHash, files,
    atRisk, reason }

def record (tables : UnicodeTables) (serialize : Serialize)
    (log : AuditLog σ) (ts : String) (query : PolicyQuery) (decision : Decision)
    (userAgent : Option String) : AuditLog σ :=
  log.append serialize (.decision (decidedRecord tables ts query decision userAgent))

def recordRejected (serialize : Serialize) (log : AuditLog σ) (ts : String)
    (context : RejectedContext) (decision : Decision)
    (userAgent : Option String) : AuditLog σ :=
  log.append serialize (.decision (rejectedRecord ts context decision userAgent))

def recordPolicySet (serialize : Serialize) (log : AuditLog σ) (ts : String)
    (generation : UInt64) (atRisk : Bool) (outcome : PolicySetOutcome) : AuditLog σ :=
  log.append serialize (.policySet (policySetRecord ts generation atRisk outcome))

@[simp] theorem attempted_append (serialize : Serialize) (log : AuditLog σ)
  (record : TrailRecord) :
    (log.append serialize record).attempted = log.attempted ++ [record] := rfl

end AuditLog

/-- A provenance line short enough to follow through a run. -/
def refusalRecord : TrailRecord :=
  .policySet (AuditLog.policySetRecord "1970-01-01T00:00:00Z" 1 false (.refused "loose"))

end NonoCedarPdp
