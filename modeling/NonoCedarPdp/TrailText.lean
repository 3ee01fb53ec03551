import NonoCedarPdp.Baseline
import NonoCedarPdp.EngineReload
import NonoCedarPdp.Lib.JsonReader
import NonoCedarPdp.Lib.PlainText
import NonoCedarPdp.Watcher
import Mathlib.Data.List.ReduceOption

/-!
The text of the audit trail. Every record is one physical line without control characters,
whatever the request, the policy files and the headers hold, and reading the line as JSON
gives the record back.
-/
namespace NonoCedarPdp
open RustText JsonText

/-! ## Reading a line back -/

def pidValue (pid : UInt32) : Value := .natural pid.toNat

/-- The members of a decision line: key, value, text. -/
def AuditRecord.members (r : AuditRecord) : List (String × Value × String) :=
  [("kind", .string r.kind, quote r.kind),
    ("ts", .string r.ts, quote r.ts),
    ("request_id", .nullable .string r.requestId, nullable quote r.requestId),
    ("session_id", .nullable .string r.sessionId, nullable quote r.sessionId),
    ("backend", .nullable .string r.backend, nullable quote r.backend),
    ("agent", .nullable .string r.agent, nullable quote r.agent),
    ("principal", .nullable .string r.principal, nullable quote r.principal),
    ("action", .nullable .string r.action, nullable quote r.action),
    ("resource", .nullable .string r.resource, nullable quote r.resource),
    ("child_pid", .nullable pidValue r.childPid,
      nullable (fun pid : UInt32 => toString pid.toNat) r.childPid),
    ("intercept_rule", .nullable .string r.interceptRule, nullable quote r.interceptRule),
    ("rule_label", .nullable .string r.ruleLabel, nullable quote r.ruleLabel),
    ("user_agent", .nullable .string r.userAgent, nullable quote r.userAgent),
    ("decision", .string r.decision, quote r.decision),
    ("matched", .strings r.matched, array (r.matched.map quote)),
    ("reason", .string r.reason, quote r.reason),
    ("eval_us", .natural r.evalUs, toString r.evalUs)]

def PolicySetRecord.members (r : PolicySetRecord) : List (String × Value × String) :=
  [("kind", .string r.kind, quote r.kind),
    ("ts", .string r.ts, quote r.ts),
    ("outcome", .string r.outcome, quote r.outcome),
    ("generation", .natural r.generation.toNat, toString r.generation.toNat),
    ("content_hash", .nullable .string r.contentHash, nullable quote r.contentHash),
    ("files", .nullable .strings r.files,
      nullable (fun files : List String => array (files.map quote)) r.files),
    ("at_risk", .bool r.atRisk, toString r.atRisk),
    ("reason", .nullable .string r.reason, nullable quote r.reason)]

def TrailRecord.members : TrailRecord → List (String × Value × String)
  | .decision r => r.members
  | .policySet r => r.members

def TrailRecord.toValue (r : TrailRecord) : Value :=
  .object (r.members.map fun m => (m.1, m.2.1))

theorem toJson_eq (r : TrailRecord) :
    r.toJson = object (r.members.map fun m => (m.1, m.2.2)) := by
  cases r with
  | decision record => rfl
  | policySet record => rfl

theorem compact_member {depth : Nat} {m : String × Value × String} (r : TrailRecord)
    (mem : m ∈ r.members) : Compact (depth + 2) m.2.1 m.2.2 := by
  have text (value : Option String) :
      Compact (depth + 2) (.nullable .string value) (nullable quote value) :=
    compact_nullable .string value
  have number (pid : UInt32) : Compact (depth + 2) (pidValue pid) (toString pid.toNat) :=
    .natural pid.toNat
  have pid (value : Option UInt32) : Compact (depth + 2) (.nullable pidValue value)
      (nullable (fun pid : UInt32 => toString pid.toNat) value) :=
    compact_nullable number value
  have files (value : Option (List String)) :
      Compact (depth + 2) (.nullable .strings value)
      (nullable (fun files : List String => array (files.map quote)) value) :=
    compact_nullable compact_strings value
  revert m
  cases r with
  | decision r =>
      simp only [TrailRecord.members, AuditRecord.members, List.forall_mem_cons,
        List.not_mem_nil, false_implies, implies_true, and_true]
      exact ⟨.string _, .string _, text _, text _, text _, text _, text _, text _,
        text _, pid _, text _, text _, text _, .string _, compact_strings _,
        .string _, .natural _⟩
  | policySet r =>
      simp only [TrailRecord.members, PolicySetRecord.members, List.forall_mem_cons,
        List.not_mem_nil, false_implies, implies_true, and_true]
      exact ⟨.string _, .string _, .string _, .natural _, text _, files _,
        .bool _, text _⟩

/-- The line is the JSON text of the record's value. -/
theorem parse_toJson (r : TrailRecord) :
    JsonText.parse (r.toJson.toList ++ ['\n']) = some r.toValue := by
  have text : Compact (125 + 3) r.toValue r.toJson := by
    rw [toJson_eq]
    exact Compact.object fun m mem => compact_member r mem
  exact parse_compact text

def readPid (value : Value) : Option UInt32 :=
  value.asNatural.bind fun n => if n < 2 ^ 32 then some (.ofNat n) else none

def readGeneration (value : Value) : Option UInt64 :=
  value.asNatural.bind fun n => if n < 2 ^ 64 then some (.ofNat n) else none

def AuditRecord.ofValue (value : Value) : Option AuditRecord := do
  some
    { kind := ← (← value.get "kind").asString
      ts := ← (← value.get "ts").asString
      requestId := ← (← value.get "request_id").orNull Value.asString
      sessionId := ← (← value.get "session_id").orNull Value.asString
      backend := ← (← value.get "backend").orNull Value.asString
      agent := ← (← value.get "agent").orNull Value.asString
      principal := ← (← value.get "principal").orNull Value.asString
      action := ← (← value.get "action").orNull Value.asString
      resource := ← (← value.get "resource").orNull Value.asString
      childPid := ← (← value.get "child_pid").orNull readPid
      interceptRule := ← (← value.get "intercept_rule").orNull Value.asString
      ruleLabel := ← (← value.get "rule_label").orNull Value.asString
      userAgent := ← (← value.get "user_agent").orNull Value.asString
      decision := ← (← value.get "decision").asString
      matched := ← (← value.get "matched").asStrings
      reason := ← (← value.get "reason").asString
      evalUs := ← (← value.get "eval_us").asNatural }

def PolicySetRecord.ofValue (value : Value) : Option PolicySetRecord := do
  some
    { kind := ← (← value.get "kind").asString
      ts := ← (← value.get "ts").asString
      outcome := ← (← value.get "outcome").asString
      generation := ← readGeneration (← value.get "generation")
      contentHash := ← (← value.get "content_hash").orNull Value.asString
      files := ← (← value.get "files").orNull Value.asStrings
      atRisk := ← (← value.get "at_risk").asBool
      reason := ← (← value.get "reason").orNull Value.asString }

/-- The kind of a line says which record it holds. -/
def TrailRecord.ofValue (value : Value) : Option TrailRecord := do
  let kind ← (← value.get "kind").asString
  if kind = "decision" then (AuditRecord.ofValue value).map .decision
  else if kind = "policy-set" then (PolicySetRecord.ofValue value).map .policySet
  else none

@[simp] theorem readPid_pidValue (pid : UInt32) : readPid (pidValue pid) = some pid := by
  have bound : pid.toNat < 2 ^ 32 := pid.toNat_lt
  rw [readPid, pidValue, Value.asNatural_natural, Option.bind_some, if_pos bound,
    UInt32.ofNat_toNat]

@[simp] theorem readGeneration_natural (generation : UInt64) :
    readGeneration (.natural generation.toNat) = some generation := by
  have bound : generation.toNat < 2 ^ 64 := generation.toNat_lt
  rw [readGeneration, Value.asNatural_natural, Option.bind_some, if_pos bound,
    UInt64.ofNat_toNat]

theorem AuditRecord.ofValue_toValue (r : AuditRecord) :
    AuditRecord.ofValue (TrailRecord.decision r).toValue = some r := by
  have text (value : Option String) :
      Value.orNull Value.asString (.nullable .string value) = some value :=
    Value.orNull_nullable Value.asString_string rfl value
  have pid (value : Option UInt32) :
      Value.orNull readPid (.nullable pidValue value) = some value :=
    Value.orNull_nullable readPid_pidValue rfl value
  simp [AuditRecord.ofValue, TrailRecord.toValue, TrailRecord.members,
    AuditRecord.members, Value.get, List.lookup_cons, text, pid]

theorem PolicySetRecord.ofValue_toValue (r : PolicySetRecord) :
    PolicySetRecord.ofValue (TrailRecord.policySet r).toValue = some r := by
  have text (value : Option String) :
      Value.orNull Value.asString (.nullable .string value) = some value :=
    Value.orNull_nullable Value.asString_string rfl value
  have files (value : Option (List String)) :
      Value.orNull Value.asStrings (.nullable .strings value) = some value :=
    Value.orNull_nullable Value.asStrings_strings rfl value
  simp [PolicySetRecord.ofValue, TrailRecord.toValue, TrailRecord.members,
    PolicySetRecord.members, Value.get, List.lookup_cons, text, files]

/-! ## Plain text -/

def AuditRecord.texts (r : AuditRecord) : List String :=
  [r.kind, r.ts, r.decision, r.reason] ++ r.matched ++
    [r.requestId, r.sessionId, r.backend, r.agent, r.principal, r.action, r.resource,
      r.interceptRule, r.ruleLabel, r.userAgent].reduceOption

def PolicySetRecord.texts (r : PolicySetRecord) : List String :=
  [r.kind, r.ts, r.outcome] ++ r.files.getD [] ++ [r.contentHash, r.reason].reduceOption

def TrailRecord.texts : TrailRecord → List String
  | .decision r => r.texts
  | .policySet r => r.texts

theorem plain_key {m : String × Value × String} (r : TrailRecord) (mem : m ∈ r.members) :
    Plain m.1 := by
  revert m
  cases r with
  | decision r =>
      simp only [TrailRecord.members, AuditRecord.members, List.forall_mem_cons,
        List.not_mem_nil, false_implies, implies_true, and_true]
      decide
  | policySet r =>
      simp only [TrailRecord.members, PolicySetRecord.members, List.forall_mem_cons,
        List.not_mem_nil, false_implies, implies_true, and_true]
      decide

section Parts
variable {required lists : List String} {optional : List (Option String)}
  (each : ∀ s ∈ required ++ lists ++ optional.reduceOption, Plain s)
include each

theorem plain_required (s : String) (listed : s ∈ required) : Plain (quote s) :=
  plain_quote (each s (List.mem_append_left _ (List.mem_append_left _ listed)))

theorem plain_lists : Plain (array (lists.map quote)) := by
  apply plain_array
  intro e mem
  obtain ⟨s, inside, rfl⟩ := List.mem_map.mp mem
  exact plain_quote (each s (List.mem_append_left _ (List.mem_append_right _ inside)))

theorem plain_optional (value : Option String) (listed : value ∈ optional) :
    Plain (nullable quote value) := by
  apply plain_nullable
  intro s found
  exact plain_quote
    (each s (List.mem_append_right _ (List.reduceOption_mem_iff.mpr (found ▸ listed))))

end Parts

theorem plain_member {m : String × Value × String} (r : TrailRecord)
    (each : ∀ s ∈ r.texts, Plain s) (mem : m ∈ r.members) : Plain m.2.2 := by
  revert m
  cases r with
  | decision r =>
      have own {s : String} := plain_required each s
      have optional {v : Option String} := plain_optional each v
      have pid : Plain (nullable (fun pid : UInt32 => toString pid.toNat) r.childPid) :=
        plain_nullable fun pid _ => plain_toString_nat pid.toNat
      simp only [TrailRecord.members, AuditRecord.members, List.forall_mem_cons,
        List.not_mem_nil, false_implies, implies_true, and_true]
      exact ⟨own (by simp), own (by simp), optional (by simp), optional (by simp),
        optional (by simp), optional (by simp), optional (by simp), optional (by simp),
        optional (by simp), pid,
        optional (by simp), optional (by simp), optional (by simp), own (by simp),
        plain_lists each,
        own (by simp), plain_toString_nat r.evalUs⟩
  | policySet r =>
      have own {s : String} := plain_required each s
      have optional {v : Option String} := plain_optional each v
      have files : Plain
          (nullable (fun files : List String => array (files.map quote)) r.files) := by
        apply plain_nullable
        intro files found
        have listed := plain_lists each
        rw [found] at listed
        exact listed
      have risk : Plain (toString r.atRisk) := by
        cases r.atRisk with
        | true => exact (by decide : Plain "true")
        | false => exact (by decide : Plain "false")
      simp only [TrailRecord.members, PolicySetRecord.members, List.forall_mem_cons,
        List.not_mem_nil, false_implies, implies_true, and_true]
      exact ⟨own (by simp), own (by simp), own (by simp),
        plain_toString_nat r.generation.toNat, optional (by simp), files, risk,
        optional (by simp)⟩

theorem plain_toJson (r : TrailRecord) (each : ∀ s ∈ r.texts, Plain s) :
    Plain r.toJson := by
  rw [toJson_eq]
  apply plain_object
  · intro f mem
    obtain ⟨m, known, rfl⟩ := List.mem_map.mp mem
    exact plain_key r known
  · intro f mem
    obtain ⟨m, known, rfl⟩ := List.mem_map.mp mem
    exact plain_member r each known

theorem plain_controlEscape (s : String) : Plain (controlEscape s) := by
  rw [controlEscape]
  split
  · apply plain_join
    intro p mem
    obtain ⟨c, -, rfl⟩ := List.mem_map.mp mem
    split
    · exact plain_codePoint 4 c.toNat
    · next free => simpa [Plain] using free
  · next free => simpa [Plain] using free

theorem plain_actionName (q : PolicyQuery) : Plain q.actionName := by
  rw [PolicyQuery.actionName]
  cases q.target with
  | command => exact (by decide : Plain "launchCommand")
  | endpoint => exact (by decide : Plain "httpRequest")

theorem plain_finish (sha256 : List UInt8 → List UInt8) (digest : ContentDigest) :
    Plain (digest.finish sha256) := by
  have hex : Plain
      (String.join ((sha256 digest.fed).map fun b => lowerHex 2 b.toNat)) := by
    apply plain_join
    intro p mem
    obtain ⟨b, -, rfl⟩ := List.mem_map.mp mem
    exact plain_lowerHex 2 b.toNat
  rw [ContentDigest.finish, plain_append]
  exact ⟨by decide, hex⟩

/-! ## What the daemon records -/

/-- The agent names of the configuration are plain. -/
def Config.PlainAgents (config : Config) : Prop := ∀ pair ∈ config.agents, Plain pair.2

theorem plain_agentFor {config : Config} (plain : config.PlainAgents) (backend : String) :
    Plain (config.agentFor backend) := by
  rw [Config.agentFor]
  cases found : config.agents.lookup backend with
  | none => exact (by decide : Plain "unknown")
  | some agent =>
      obtain ⟨front, back, whole, -⟩ := List.lookup_eq_some_iff.mp found
      have mapped : (backend, agent) ∈ config.agents := by simp [whole]
      exact plain (backend, agent) mapped

/-- The decisions the daemon makes over a set: its own denials, and the authorizer's
answers, which name policies of the set. -/
inductive MadeOver (ids : List String) : Decision → Prop
  | deny (reason : String) : MadeOver ids (.deny reason)
  | answered {response : Cedar.Response} (named : ∀ id ∈ response.reason, id ∈ ids)
      (evalUs : Nat) : MadeOver ids (.fromResponse response evalUs)

theorem plain_reason {ids : List String} {decision : Decision}
    (made : MadeOver ids decision) : Plain decision.reason := by
  cases made with
  | deny reason => exact plain_controlEscape reason
  | @answered response named evalUs =>
      simp only [Decision.fromResponse]
      split
      · exact plain_controlEscape _
      · cases response.decision with
        | allow => exact plain_controlEscape _
        | deny =>
            dsimp only
            split
            · decide
            · exact plain_controlEscape _

theorem plain_matched {ids : List String} (plain : ∀ id ∈ ids, Plain id)
    {decision : Decision} (made : MadeOver ids decision) :
      ∀ id ∈ decision.matched, Plain id := by
  intro id mem
  cases made with
  | deny reason => cases mem
  | answered named evalUs =>
      rw [Decision.matched_fromResponse, List.mem_mergeSort] at mem
      exact plain id (named id mem)

/-- The outcomes the daemon reports: a loaded set under the hash its files were digested
to, and any error. -/
inductive Reported (sha256 : List UInt8 → List UInt8) : PolicySetOutcome → Prop
  | loaded (digest : ContentDigest) (files : List Path) :
      Reported sha256 (.loaded (digest.finish sha256) files)
  | refused (reason : String) : Reported sha256 (.refused reason)
  | failed (reason : String) : Reported sha256 (.failed reason)

/-- The records of the trail: of a query and its decision, of a body that was refused or
never read, and of a policy set. The clock writes plain text. -/
inductive Recordable (tables : UnicodeTables) (sha256 : List UInt8 → List UInt8)
    (config : Config) (ids : List String) : TrailRecord → Prop
  | decided {ts : String} (clock : Plain ts) {q : PolicyQuery}
      (agent : ∃ backend, q.agent = config.agentFor backend) {decision : Decision}
      (made : MadeOver ids decision) (userAgent : Option String) :
      Recordable tables sha256 config ids
        (.decision (AuditLog.decidedRecord tables ts q decision userAgent))
  | rejected {ts : String} (clock : Plain ts) (serde : SerdeJson) (body : List UInt8)
      {decision : Decision} (made : MadeOver ids decision) (userAgent : Option String) :
      Recordable tables sha256 config ids
        (.decision (AuditLog.rejectedRecord ts (scrapeContext serde body config)
          decision userAgent))
  | unreadable {ts : String} (clock : Plain ts) {decision : Decision}
      (made : MadeOver ids decision) (userAgent : Option String) :
      Recordable tables sha256 config ids
        (.decision (AuditLog.rejectedRecord ts .default decision userAgent))
  | policySet {ts : String} (clock : Plain ts) (generation : UInt64) (atRisk : Bool)
      {outcome : PolicySetOutcome} (reported : Reported sha256 outcome) :
      Recordable tables sha256 config ids
        (.policySet (AuditLog.policySetRecord ts generation atRisk outcome))

theorem plain_decisionName (decision : Decision) :
    Plain (AuditLog.decisionName decision) := by
  rw [AuditLog.decisionName]
  split
  · decide
  · decide

/-- An optional text is plain when it is there. -/
def PlainOption (value : Option String) : Prop := ∀ s, value = some s → Plain s

theorem plainOption_none : PlainOption none := fun _ absent => nomatch absent

theorem plainOption_some {s : String} (plain : Plain s) : PlainOption (some s) :=
  fun _ found => Option.some.inj found ▸ plain

theorem plainOption_map {f : String → String} (plain : ∀ s, Plain (f s))
    (value : Option String) : PlainOption (value.map f) := by
  cases value with
  | none => exact plainOption_none
  | some s => exact plainOption_some (plain s)

/-- A decision record is plain when its own texts and each of its optional ones are. -/
theorem plain_texts_decision {r : AuditRecord}
    (own : ∀ s ∈ [r.kind, r.ts, r.decision, r.reason], Plain s)
    (matched : ∀ s ∈ r.matched, Plain s) (optional : ∀ value ∈
      [r.requestId, r.sessionId, r.backend, r.agent, r.principal, r.action, r.resource,
        r.interceptRule, r.ruleLabel, r.userAgent], PlainOption value) :
    ∀ s ∈ (TrailRecord.decision r).texts, Plain s := by
  intro s mem
  rw [TrailRecord.texts, AuditRecord.texts, List.mem_append, List.mem_append,
    List.reduceOption_mem_iff] at mem
  obtain (mine | named) | present := mem
  · exact own s mine
  · exact matched s named
  · exact optional (some s) present s rfl

theorem plain_texts_policySet {r : PolicySetRecord}
    (own : ∀ s ∈ [r.kind, r.ts, r.outcome], Plain s)
    (files : ∀ s ∈ r.files.getD [], Plain s)
    (optional : ∀ value ∈ [r.contentHash, r.reason], PlainOption value) :
    ∀ s ∈ (TrailRecord.policySet r).texts, Plain s := by
  intro s mem
  rw [TrailRecord.texts, PolicySetRecord.texts, List.mem_append, List.mem_append,
    List.reduceOption_mem_iff] at mem
  obtain (mine | listed) | present := mem
  · exact own s mine
  · exact files s listed
  · exact optional (some s) present s rfl

section Texts
variable {tables : UnicodeTables} {config : Config} {ids : List String} {ts : String}
  {decision : Decision}

theorem plain_decidedRecord (law : ControlsUnprintable tables)
    (agents : config.PlainAgents) (policies : ∀ id ∈ ids, Plain id) (clock : Plain ts)
    {q : PolicyQuery} (agent : ∃ backend, q.agent = config.agentFor backend)
    (made : MadeOver ids decision)
    (userAgent : Option String) : ∀ s ∈ (TrailRecord.decision
      (AuditLog.decidedRecord tables ts q decision userAgent)).texts, Plain s := by
  obtain ⟨backend, known⟩ := agent
  have plainAgent : Plain q.agent := known ▸ plain_agentFor agents backend
  have principal : Plain ("Nono::Caller::" ++ debugStr tables q.caller) :=
    plain_append.mpr ⟨by decide, plain_debugStr law q.caller⟩
  have escaped (s : String) : PlainOption (some (controlEscape s)) :=
    plainOption_some (plain_controlEscape s)
  apply plain_texts_decision
  · simp only [AuditLog.decidedRecord, List.forall_mem_cons, List.not_mem_nil,
      false_implies, implies_true, and_true]
    exact ⟨by decide, clock, plain_decisionName decision, plain_reason made⟩
  · exact plain_matched policies made
  · cases target : q.target with
    | command command args interceptRule childPid =>
        simp only [AuditLog.decidedRecord, target, List.forall_mem_cons, List.not_mem_nil,
          false_implies, implies_true, and_true]
        exact ⟨escaped _, escaped _, escaped _, plainOption_some plainAgent,
          plainOption_some principal, plainOption_some (plain_actionName q), escaped _,
          escaped _, plainOption_none,
          plainOption_map plain_controlEscape userAgent⟩
    | endpoint routeId upstream method path ruleLabel childPid =>
        simp only [AuditLog.decidedRecord, target, List.forall_mem_cons, List.not_mem_nil,
          false_implies, implies_true, and_true]
        exact ⟨escaped _, escaped _, escaped _, plainOption_some plainAgent,
          plainOption_some principal, plainOption_some (plain_actionName q), escaped _,
          plainOption_none, escaped _,
          plainOption_map plain_controlEscape userAgent⟩

/-- What a scrape takes from a body is plain. -/
structure PlainContext (context : RejectedContext) : Prop where
  backend : PlainOption context.backend
  agent : PlainOption context.agent
  capabilityType : PlainOption context.capabilityType
  requestId : PlainOption context.requestId
  sessionId : PlainOption context.sessionId

theorem plainContext_default : PlainContext .default :=
  ⟨plainOption_none, plainOption_none, plainOption_none, plainOption_none,
    plainOption_none⟩

theorem plainContext_scrapeContext (agents : config.PlainAgents) (serde : SerdeJson)
    (body : List UInt8) : PlainContext (scrapeContext serde body config) := by
  have text (parent : JsonValue) (key : String) :
      PlainOption (((parent.get key).bind JsonValue.asStr).map controlEscape) :=
    plainOption_map plain_controlEscape _
  have field (request : Option JsonValue) (key : String) :
      PlainOption (request.bind fun r =>
      ((r.get key).bind JsonValue.asStr).map controlEscape) := by
    cases request with
    | none => exact plainOption_none
    | some r => exact text r key
  rw [scrapeContext]
  cases serde.value body with
  | none => exact plainContext_default
  | some value =>
      exact ⟨text value "backend", plainOption_map (plain_agentFor agents) _,
        field _ "capability_type", field _ "request_id", field _ "session_id"⟩

theorem plain_rejectedRecord (policies : ∀ id ∈ ids, Plain id) (clock : Plain ts)
    {context : RejectedContext} (plain : PlainContext context)
    (made : MadeOver ids decision)
    (userAgent : Option String) : ∀ s ∈ (TrailRecord.decision
      (AuditLog.rejectedRecord ts context decision userAgent)).texts, Plain s := by
  have resource : PlainOption
      (context.capabilityType.map fun variant => "capability_type=" ++ variant) := by
    cases kind : context.capabilityType with
    | none => exact plainOption_none
    | some variant =>
        exact plainOption_some
          (plain_append.mpr ⟨by decide, plain.capabilityType variant kind⟩)
  apply plain_texts_decision
  · simp only [AuditLog.rejectedRecord, List.forall_mem_cons, List.not_mem_nil,
      false_implies, implies_true, and_true]
    exact ⟨by decide, clock, plain_decisionName decision, plain_reason made⟩
  · exact plain_matched policies made
  · simp only [AuditLog.rejectedRecord, List.forall_mem_cons, List.not_mem_nil,
      false_implies, implies_true, and_true]
    exact ⟨plain.requestId, plain.sessionId, plain.backend, plain.agent, plainOption_none,
      plainOption_none, resource, plainOption_none, plainOption_none,
      plainOption_map plain_controlEscape userAgent⟩

theorem plain_policySetRecord (clock : Plain ts) (generation : UInt64) (atRisk : Bool)
    {sha256 : List UInt8 → List UInt8} {outcome : PolicySetOutcome}
    (reported : Reported sha256 outcome) :
    ∀ s ∈ (TrailRecord.policySet
      (AuditLog.policySetRecord ts generation atRisk outcome)).texts, Plain s := by
  have named : ∀ s ∈
      [(AuditLog.policySetRecord ts generation atRisk outcome).kind, ts, outcome.name],
      Plain s := by
    simp only [AuditLog.policySetRecord, List.forall_mem_cons, List.not_mem_nil,
      false_implies, implies_true, and_true]
    refine ⟨by decide, clock, ?_⟩
    cases outcome with
    | loaded => exact (by decide : Plain "loaded")
    | refused => exact (by decide : Plain "refused")
    | failed => exact (by decide : Plain "failed")
  apply plain_texts_policySet named
  · cases reported with
    | loaded digest files =>
        intro s mem
        obtain ⟨p, -, rfl⟩ := List.mem_map.mp mem
        exact plain_controlEscape p.display
    | refused | failed => exact fun s mem => nomatch mem
  · cases reported with
    | loaded digest files =>
        simp only [AuditLog.policySetRecord, List.forall_mem_cons, List.not_mem_nil,
          false_implies, implies_true, and_true]
        exact ⟨plainOption_some (plain_finish sha256 digest), plainOption_none⟩
    | refused reason | failed reason =>
        simp only [AuditLog.policySetRecord, List.forall_mem_cons, List.not_mem_nil,
          false_implies, implies_true, and_true]
        exact ⟨plainOption_none, plainOption_some (plain_controlEscape reason)⟩

end Texts

/-! ## One line for each record -/

/-- The record is one physical line of plain text, and the line is read as the record. -/
structure OneLine (r : TrailRecord) : Prop where
  plain : Plain r.toJson
  newline : LineFile.newline ∉ Utf8.encode r.toJson
  reads : (JsonText.parse (r.toJson.toList ++ ['\n'])).bind TrailRecord.ofValue = some r

theorem newline_of_plain {s : String} (plain : Plain s) :
    LineFile.newline ∉ Utf8.encode s := by
  intro mem
  have ascii : '\n'.toNat < 128 := by decide
  have inText : '\n' ∈ s.toList := (Utf8.mem_encode_ascii ascii s.toList).mp mem
  exact absurd (plain_iff.mp plain '\n' inText) (by decide)

/-- The two kinds of record are told apart when they are read. -/
theorem ofValue_toValue {r : TrailRecord} (kind : match r with
    | .decision record => record.kind = "decision"
    | .policySet record =>
        record.kind = "policy-set") : TrailRecord.ofValue r.toValue = some r := by
  cases r with
  | decision record =>
      have named : (TrailRecord.decision record).toValue.get "kind" =
          some (.string record.kind) := rfl
      simp [TrailRecord.ofValue, named, kind, AuditRecord.ofValue_toValue]
  | policySet record =>
      have named : (TrailRecord.policySet record).toValue.get "kind" =
          some (.string record.kind) := rfl
      simp [TrailRecord.ofValue, named, kind, PolicySetRecord.ofValue_toValue]

theorem oneLine_of_plain {r : TrailRecord} (plain : ∀ s ∈ r.texts, Plain s)
    (back : TrailRecord.ofValue r.toValue = some r) : OneLine r where
  plain := plain_toJson r plain
  newline := newline_of_plain (plain_toJson r plain)
  reads := by rw [parse_toJson, Option.bind_some, back]

/-- Whatever is recorded stands on one line, without a control character, and is read back
as it was recorded. -/
theorem one_line_per_record (tables : UnicodeTables) (law : ControlsUnprintable tables)
    (sha256 : List UInt8 → List UInt8) (config : Config) (agents : config.PlainAgents)
    (ids : List String) (policies : ∀ id ∈ ids, Plain id) (r : TrailRecord)
    (recorded : Recordable tables sha256 config ids r) : OneLine r := by
  cases recorded with
  | decided clock agent made userAgent =>
      exact oneLine_of_plain
        (plain_decidedRecord law agents policies clock agent made userAgent)
        (ofValue_toValue rfl)
  | rejected clock serde body made userAgent =>
      exact oneLine_of_plain (plain_rejectedRecord policies clock
        (plainContext_scrapeContext agents serde body) made userAgent)
          (ofValue_toValue rfl)
  | unreadable clock made userAgent =>
      exact oneLine_of_plain
        (plain_rejectedRecord policies clock plainContext_default made userAgent)
        (ofValue_toValue rfl)
  | policySet clock generation atRisk reported =>
      exact oneLine_of_plain (plain_policySetRecord clock generation atRisk reported)
        (ofValue_toValue rfl)

theorem controlsUnprintable_ascii : ControlsUnprintable asciiTables := by
  intro c control
  simp only [isControl, Bool.or_eq_true, Bool.and_eq_true, decide_eq_true_eq] at control
  simp only [asciiTables, decide_eq_false_iff_not]
  omega

/-- A launch whose id and caller hold a line feed, a DEL and a CSI. -/
def forgingQuery : PolicyQuery :=
  { statusQuery with requestId := "r1\n\x7f", caller := "make\x9b2K" }

theorem one_line_per_record_small : OneLine (.decision (AuditLog.decidedRecord asciiTables
    "1970-01-01T00:00:00Z" forgingQuery (.deny "no\x9b") (some "nono\x9b1A"))) := by
  have agents : claudeConfig.PlainAgents := by
    intro pair mem
    rw [List.mem_singleton.mp mem]
    decide
  exact one_line_per_record asciiTables controlsUnprintable_ascii smallSha256
    claudeConfig agents ["10-git:git-read-only"] (by decide) _
    (.decided (by decide) ⟨"cedar", rfl⟩ (.deny "no\x9b") (some "nono\x9b1A"))

/-! ## Only these are recorded -/

section Daemon
variable {Schema β σ : Type} [ByteSink σ] (x : Externals Schema β) (serde : SerdeJson)
  (serialize : AuditLog.Serialize)

theorem made_evaluate {outcome : Cedar.Semantics β}
    (spec : Cedar.AuthorizerSpec x.crate outcome) (engine : Engine Schema β)
    (q : PolicyQuery) (evalUs : Nat) :
    MadeOver engine.current.set.ids (engine.evaluate x q evalUs).1 := by
  cases asked : engine.consulted x q with
  | none =>
      obtain ⟨reason, denied⟩ := Engine.evaluate_of_not_consulted x asked evalUs
      exact denied ▸ .deny reason
  | some response =>
      rw [Engine.evaluate_of_consulted x asked]
      refine .answered ?_ evalUs
      intro id mem
      rw [Engine.consulted_eq, Option.map_eq_some_iff] at asked
      obtain ⟨pair, -, rfl⟩ := asked
      have determined :=
        (spec.reason_perm pair.1 engine.current.set pair.2).mem_iff.mp mem
      exact Cedar.mem_ids_of_determining determined

/-- What the approve handler appends is among the records of the trail. -/
theorem recorded_of_approve {outcome : Cedar.Semantics β}
    (spec : Cedar.AuthorizerSpec x.crate outcome) (state : AppState Schema β σ)
    (headers : HeaderMap) (body : RequestBody) {now : Moment} (clock : Plain now.ts) :
    ∀ r ∈ (approve x serde serialize state headers body now).audit.attempted,
      r ∈ state.audit.attempted ∨
        Recordable x.tables x.sha256 state.config state.engine.current.set.ids r := by
  intro r mem
  have appended {record : TrailRecord}
      (recorded : Recordable x.tables x.sha256 state.config state.engine.current.set.ids
        record) (listed : r ∈ state.audit.attempted ++ [record]) :
      r ∈ state.audit.attempted ∨
        Recordable x.tables x.sha256 state.config state.engine.current.set.ids r := by
    rw [List.mem_append, List.mem_singleton] at listed
    cases listed with
    | inl old => exact .inl old
    | inr new => exact .inr (new ▸ recorded)
  cases gate : headerGate headers with
  | some refusal =>
      simp only [approve, gate] at mem
      exact .inl mem
  | none =>
      simp only [approve, gate] at mem
      by_cases empty : x.crate.numOfPolicies state.engine.snapshot.set = 0
      · rw [if_pos empty] at mem
        exact .inl mem
      · rw [if_neg empty] at mem
        cases read : x.toBytes body maxRequestBytes with
        | error e =>
            simp only [read] at mem
            exact appended (.unreadable clock (.deny _) _) mem
        | ok bytes =>
            cases parsed : parse serde bytes state.config with
            | error e =>
                simp only [read, parsed] at mem
                exact appended (.rejected clock serde bytes (.deny _) _) mem
            | ok query =>
                simp only [read, parsed] at mem
                obtain ⟨envelope, -, -, agent⟩ := envelope_of_parse parsed
                exact appended
                  (.decided clock ⟨_, agent⟩ (made_evaluate x spec _ _ _) _) mem

/-- So is what the watcher appends behind a burst. -/
theorem recorded_of_afterBurst (fs : FsView) (euid : UInt32) (d : Daemon Schema β σ)
    {times : Times} (clock : Plain times.ts) (config : Config) (ids : List String) :
    ∀ r ∈ (d.afterBurst x serialize fs euid times).audit.attempted,
      r ∈ d.audit.attempted ∨ Recordable x.tables x.sha256 config ids r := by
  have appended {outcome : PolicySetOutcome} (reported : Reported x.sha256 outcome)
      (generation : UInt64) {after : Daemon Schema β σ}
      (audit : after.audit.attempted = d.audit.attempted) :
      ∀ r ∈ (after.record serialize generation outcome times).audit.attempted,
        r ∈ d.audit.attempted ∨ Recordable x.tables x.sha256 config ids r := by
    intro r mem
    have listed : r ∈ after.audit.attempted ++
        [.policySet (AuditLog.policySetRecord times.ts generation after.atRisk
          outcome)] := mem
    rw [audit, List.mem_append, List.mem_singleton] at listed
    cases listed with
    | inl old => exact .inl old
    | inr new => exact .inr (new ▸ .policySet clock generation after.atRisk reported)
  cases trusted : refuseUntrustedPolicyDirAs fs d.engine.policyDir euid with
  | error e =>
      simp only [Daemon.afterBurst, trusted]
      exact appended (.refused e.text) _ rfl
  | ok done =>
      cases loads : loadDir x fs d.engine.policyDir d.engine.schema
          (d.engine.current.generation + 1) times.loadedAt with
      | error e =>
          simp only [Daemon.afterBurst, trusted, Daemon.reload_of_fails loads]
          exact appended (.failed e.text) _ rfl
      | ok loaded =>
          obtain ⟨_, _, _, digest, -, -, -, guarded⟩ := loadDir_stages x loads
          obtain ⟨-, held⟩ := checked_eq_ok x guarded
          have reported :
              Reported x.sha256 (.loaded loaded.contentHash loaded.files) := by
            rw [held]
            exact .loaded digest _
          simp only [Daemon.afterBurst, trusted, Daemon.reload_of_loads loads]
          exact appended reported _ rfl

end Daemon

end NonoCedarPdp
