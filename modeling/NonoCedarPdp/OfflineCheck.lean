import NonoCedarPdp.Noninterference
import NonoCedarPdp.PolicyLoading

/-!
The `check` subcommand (`main.rs`): a saved payload evaluated without the daemon. It
shares the adapter and the engine with the approve handler, but not the bound on a
body, which is where the two part.
-/
namespace NonoCedarPdp

/-- The part of the configuration `check` reads. -/
structure CheckConfig where
  agents : Config
  policyDir : Path
  auditLog : Path

/-- What `check` finds: its configuration, the embedded schema, the saved payload, and
the opened audit log when `--audit` asks for one. -/
structure CheckFiles (Schema σ : Type) where
  config : Except String CheckConfig
  schema : Except String Schema
  fixture : Except String (List UInt8)
  audit : Option (Except String (AuditLog σ))

structure CheckRun (σ : Type) where
  result : Except String Decision
  audit : Option (AuditLog σ)
  warning : Option String

section Check
variable {Schema β σ : Type} [ByteSink σ] (x : Externals Schema β) (serde : SerdeJson)
  (serialize : AuditLog.Serialize)

/-- `run_check` up to the decision. -/
def checkDecision (fs : FsView) (files : CheckFiles Schema σ) (loadedAt evalUs : Nat) :
    Except String (CheckConfig × PolicyQuery × Decision) := do
  let config ← files.config
  let schema ← files.schema
  let engine ← (Engine.bootstrap x fs schema config.policyDir loadedAt).mapError
      PolicyLoadError.text
  let body ← files.fixture
  let query ← (parse serde body config.agents).mapError AdaptError.text
  return (config, query, (engine.evaluate x query evalUs).1)

def runCheck (fs : FsView) (files : CheckFiles Schema σ) (loadedAt : Nat) (now : Moment) :
    CheckRun σ :=
  match checkDecision x serde fs files loadedAt now.evalUs with
  | .error message => ⟨.error message, none, none⟩
  | .ok (config, query, decision) =>
      match files.audit with
      | none => ⟨.ok decision, none, none⟩
      | some (.ok log) =>
          -- no HTTP request stands behind a check, so no user agent was observed
          ⟨.ok decision, some (log.record x.tables serialize now.ts query decision none), none⟩
      | some (.error e) =>
          ⟨.ok decision, none, some ("warning: audit log " ++ config.auditLog.display ++
            " unavailable: " ++ e)⟩

/-- The line `main` prints for a check, and whether the exit code is that of success. -/
def checkReport : Except String Decision → String × Bool
  | .ok decision =>
      ((if decision.allow then "ALLOW" else "DENY") ++ ": " ++ decision.reason ++ " (" ++
        toString decision.evalUs ++ " µs)", decision.allow)
  | .error message => ("FAIL: " ++ message, false)

def ReportsAllow (result : Except String Decision) : Prop :=
  ∃ rest, (checkReport result).1 = "ALLOW: " ++ rest

theorem reportsAllow_iff {result : Except String Decision} :
    ReportsAllow result ↔ ∃ decision, result = .ok decision ∧ decision.allow = true := by
  constructor
  · rintro ⟨rest, line⟩
    have chars := congrArg String.toList line
    cases result with
    | error message => simp [checkReport] at chars
    | ok decision =>
        cases allow : decision.allow with
        | true => exact ⟨decision, rfl, allow⟩
        | false => simp [checkReport, allow] at chars
  · rintro ⟨decision, rfl, allow⟩
    refine ⟨decision.reason ++ (" (" ++ (toString decision.evalUs ++ " µs)")), ?_⟩
    apply String.toList_inj.mp
    simp [checkReport, allow]

/-! ## One engine, bootstrapped twice -/

theorem bootstrap_anytime {fs : FsView} {schema : Schema} {policyDir : Path} {t : Nat}
    {engine : Engine Schema β}
    (made : Engine.bootstrap x fs schema policyDir t = .ok engine) (t' : Nat) :
    ∃ again, Engine.bootstrap x fs schema policyDir t' = .ok again ∧
      again.schema = engine.schema ∧ again.current.set = engine.current.set := by
  obtain ⟨rfl, rfl, loads⟩ := Engine.bootstrap_eq_ok x made
  have reloads := loadDir_anytime x loads 1 t'
  refine ⟨⟨engine.schema, engine.policyDir,
    { engine.current with generation := 1, loadedAt := t' }⟩, ?_, rfl, rfl⟩
  rw [Engine.bootstrap, reloads]
  rfl

/-- A decision rests on the schema and the set, not on when they were loaded. -/
theorem outcome_evaluate_engine {engine again : Engine Schema β}
    (schema : again.schema = engine.schema) (set : again.current.set = engine.current.set)
    (q : PolicyQuery) (evalUs evalUs' : Nat) :
    (again.evaluate x q evalUs).1.outcome = (engine.evaluate x q evalUs').1.outcome := by
  simp only [Engine.evaluate, Engine.snapshot, schema, set]
  cases Engine.pathAmbiguity q with
  | some found => rfl
  | none =>
      cases build x.crate q engine.schema with
      | error e => rfl
      | ok pair => exact Decision.outcome_fromResponse _ evalUs evalUs'

/-- The authorizer is asked about the query and allows it, without an error. -/
def Permitted (engine : Engine Schema β) (q : PolicyQuery) : Prop :=
  ∃ response, engine.consulted x q = some response ∧ response.decision = .allow ∧
    response.errors = []

theorem allow_evaluate_iff {engine again : Engine Schema β}
    (schema : again.schema = engine.schema) (set : again.current.set = engine.current.set)
    {q : PolicyQuery} {evalUs : Nat} :
    (again.evaluate x q evalUs).1.allow = true ↔ Permitted x engine q := by
  have alike : (again.evaluate x q evalUs).1.allow =
      (engine.evaluate x q evalUs).1.allow :=
    congrArg Prod.fst (outcome_evaluate_engine x schema set q evalUs evalUs)
  rw [alike]
  exact Engine.evaluate_allow_iff x

/-! ## The two entry points -/

variable {serde}

theorem result_runCheck {fs : FsView} {files : CheckFiles Schema σ} {config : CheckConfig}
    {schema : Schema} {engine : Engine Schema β} {bytes : List UInt8} {loadedAt : Nat}
    (configured : files.config = .ok config) (compiled : files.schema = .ok schema)
    (made : Engine.bootstrap x fs schema config.policyDir loadedAt = .ok engine)
    (saved : files.fixture = .ok bytes) (now : Moment) :
    (runCheck x serde serialize fs files loadedAt now).result =
      match parse serde bytes config.agents with
      | .error e => .error e.text
      | .ok query => .ok (engine.evaluate x query now.evalUs).1 := by
  have decision : checkDecision x serde fs files loadedAt now.evalUs =
      match parse serde bytes config.agents with
      | .error e => .error e.text
      | .ok query => .ok (config, query, (engine.evaluate x query now.evalUs).1) := by
    simp only [checkDecision, configured, compiled, made, saved, bind, Except.bind,
      Except.mapError]
    cases parse serde bytes config.agents <;> rfl
  rw [runCheck, decision]
  cases parse serde bytes config.agents with
  | error e => rfl
  | ok query =>
      cases files.audit with
      | none => rfl
      | some opened => cases opened <;> rfl

theorem toBytes_whole {frames : List (List UInt8)} {limit : Nat}
    (short : frames.flatten.length ≤ limit) :
    x.toBytes ⟨frames, none⟩ limit = .ok frames.flatten :=
  (x.toBytes_eq_ok_iff _ _ _).mpr ⟨rfl, rfl, short⟩

theorem toBytes_tooLong {frames : List (List UInt8)} {limit : Nat}
    (long : ¬ frames.flatten.length ≤ limit) :
    ∃ message, x.toBytes ⟨frames, none⟩ limit = .error message := by
  cases read : x.toBytes ⟨frames, none⟩ limit with
  | error message => exact ⟨message, rfl⟩
  | ok bytes =>
      obtain ⟨-, rfl, fits⟩ := (x.toBytes_eq_ok_iff _ _ _).mp read
      exact absurd fits long

/-- What a body that arrives whole meets in the handler. -/
inductive WholeBody (state : AppState Schema β σ) (bytes : List UInt8) (now : Moment)
    (reply : Approved σ) : Prop
  | tooLong (long : maxRequestBytes < bytes.length) (evaluated : reply.evaluated = none)
      (denied : reply.response.body ≠ .decision .allow)
  | unparsed (e : AdaptError) (fails : parse serde bytes state.config = .error e)
      (evaluated : reply.evaluated = none)
      (denied : reply.response.body ≠ .decision .allow)
  | decided (q : PolicyQuery) (short : bytes.length ≤ maxRequestBytes)
      (parsed : parse serde bytes state.config = .ok q)
      (evaluated : reply.evaluated = some (state.engine.evaluate x q now.evalUs).1)
      (answer : reply.response.body =
        .decision (state.engine.evaluate x q now.evalUs).1.toWire)

theorem wholeBody_approve {state : AppState Schema β σ}
    (loaded : x.crate.numOfPolicies state.engine.current.set ≠ 0) {headers : HeaderMap}
    (gate : PassesGate headers) (frames : List (List UInt8)) (now : Moment) :
    @WholeBody Schema β σ x serde state frames.flatten now
      (approve x serde serialize state headers ⟨frames, none⟩ now) := by
  have passes := headerGate_eq_none_iff.mpr gate
  by_cases short : frames.flatten.length ≤ maxRequestBytes
  · have read := toBytes_whole x short
    cases parsed : parse serde frames.flatten state.config with
    | error e =>
        refine .unparsed e parsed ?_ ?_
        · simp only [approve, passes, Engine.snapshot, if_neg loaded, read,
            parsed, refuseBody]
        · simp [approve, passes, Engine.snapshot, if_neg loaded, read, parsed, refuseBody,
            Decision.toWire]
    | ok q =>
        refine .decided q short parsed ?_ ?_
        · simp only [approve, passes, Engine.snapshot, if_neg loaded, read, parsed]
        · simp only [approve, passes, Engine.snapshot, if_neg loaded, read, parsed]
  · obtain ⟨message, read⟩ := toBytes_tooLong x short
    refine .tooLong (by omega) ?_ ?_
    · simp only [approve, passes, Engine.snapshot, if_neg loaded, read, refuseBody]
    · simp [approve, passes, Engine.snapshot, if_neg loaded, read, refuseBody,
        Decision.toWire]

theorem allow_approve_iff {state : AppState Schema β σ}
    (loaded : x.crate.numOfPolicies state.engine.current.set ≠ 0) {headers : HeaderMap}
    (gate : PassesGate headers) (frames : List (List UInt8)) (now : Moment) :
    (approve x serde serialize state headers ⟨frames, none⟩ now).response.body =
      .decision .allow ↔
      frames.flatten.length ≤ maxRequestBytes ∧
        ∃ q, parse serde frames.flatten state.config = .ok q ∧
          Permitted x state.engine q := by
  cases wholeBody_approve x serialize loaded gate frames now with
  | tooLong long evaluated denied => exact iff_of_false denied fun h => by omega
  | unparsed e fails evaluated denied =>
      refine iff_of_false denied ?_
      rintro ⟨-, q, parsed, -⟩
      rw [fails] at parsed
      cases parsed
  | decided q short parsed evaluated answer =>
      rw [answer, ResponseBody.decision.injEq, Decision.toWire_eq_allow_iff,
        allow_evaluate_iff x rfl rfl]
      constructor
      · exact fun permitted => ⟨short, q, parsed, permitted⟩
      · rintro ⟨-, other, parsed', permitted⟩
        rw [parsed] at parsed'
        exact Except.ok.inj parsed' ▸ permitted

theorem reportsAllow_runCheck_iff {fs : FsView} {files : CheckFiles Schema σ}
    {config : CheckConfig} {schema : Schema} {engine : Engine Schema β}
    {bytes : List UInt8} {startedAt : Nat} (configured : files.config = .ok config)
    (compiled : files.schema = .ok schema)
    (made : Engine.bootstrap x fs schema config.policyDir startedAt = .ok engine)
    (saved : files.fixture = .ok bytes) (loadedAt : Nat) (now : Moment) :
    ReportsAllow (runCheck x serde serialize fs files loadedAt now).result ↔
      ∃ q, parse serde bytes config.agents = .ok q ∧ Permitted x engine q := by
  obtain ⟨again, remade, sameSchema, sameSet⟩ := bootstrap_anytime x made loadedAt
  rw [result_runCheck x serialize configured compiled remade saved, reportsAllow_iff]
  cases parse serde bytes config.agents with
  | error e => simp
  | ok query =>
      simp only [Except.ok.injEq, exists_eq_left']
      exact allow_evaluate_iff x sameSchema sameSet

/-- Where both evaluate the payload, they name the same policies for the same reason. -/
theorem alike_of_evaluated {σ' : Type} [ByteSink σ'] {fs : FsView}
    {files : CheckFiles Schema σ} {config : CheckConfig} {schema : Schema}
    {frames : List (List UInt8)} {startedAt : Nat}
    (configured : files.config = .ok config) (compiled : files.schema = .ok schema)
    (saved : files.fixture = .ok frames.flatten) {state : AppState Schema β σ'}
    (made : Engine.bootstrap x fs schema config.policyDir startedAt = .ok state.engine)
    (sameConfig : state.config = config.agents)
    (loaded : x.crate.numOfPolicies state.engine.current.set ≠ 0) {headers : HeaderMap}
    (gate : PassesGate headers) {loadedAt : Nat} {now now' : Moment}
    {decision decision' : Decision}
    (checked : (runCheck x serde serialize fs files loadedAt now).result = .ok decision)
    (answered : (approve x serde serialize state headers ⟨frames, none⟩ now').evaluated =
      some decision') :
    decision.matched = decision'.matched ∧ decision.reason = decision'.reason := by
  obtain ⟨again, remade, sameSchema, sameSet⟩ := bootstrap_anytime x made loadedAt
  rw [result_runCheck x serialize configured compiled remade saved] at checked
  cases wholeBody_approve x serialize loaded gate frames now' with
  | tooLong long evaluated denied =>
      rw [evaluated] at answered
      cases answered
  | unparsed e fails evaluated denied =>
      rw [evaluated] at answered
      cases answered
  | decided q short parsed evaluated answer =>
      rw [evaluated] at answered
      rw [sameConfig] at parsed
      simp only [parsed] at checked
      have alike := outcome_evaluate_engine x sameSchema sameSet q now.evalUs now'.evalUs
      rw [Except.ok.inj checked, Option.some.inj answered] at alike
      simp only [Decision.outcome, Prod.mk.injEq] at alike
      exact alike.2

end Check

/-- A check and the handler give one payload the same verdict exactly when it is within
the handler's bound on a body, or is none the policies permit; and where both evaluate,
they name the same policies for the same reason. -/
theorem check_reproduces_iff {Schema β σ σ' : Type} [ByteSink σ] [ByteSink σ']
    (x : Externals Schema β) (serde : SerdeJson)
    (serialize : AuditLog.Serialize) (fs : FsView) (files : CheckFiles Schema σ)
    (config : CheckConfig) (schema : Schema) (bytes : List UInt8)
    (configured : files.config = .ok config) (compiled : files.schema = .ok schema)
    (saved : files.fixture = .ok bytes) (state : AppState Schema β σ') (startedAt : Nat)
    (made : Engine.bootstrap x fs schema config.policyDir startedAt = .ok state.engine)
    (sameConfig : state.config = config.agents) (headers : HeaderMap)
    (gate : PassesGate headers) (body : RequestBody) (whole : body.failure = none)
    (sent : body.frames.flatten = bytes) (loadedAt : Nat) (now now' : Moment) :
    ((ReportsAllow (runCheck x serde serialize fs files loadedAt now).result ↔
        (approve x serde serialize state headers body now').response.body =
          .decision .allow) ↔
      (bytes.length ≤ maxRequestBytes ∨
        ∀ q, parse serde bytes config.agents = .ok q → ¬ Permitted x state.engine q)) ∧
    ∀ decision decision',
      (runCheck x serde serialize fs files loadedAt now).result = .ok decision →
      (approve x serde serialize state headers body now').evaluated = some decision' →
      decision.matched = decision'.matched ∧ decision.reason = decision'.reason := by
  obtain ⟨frames, failure⟩ := body
  obtain rfl : failure = none := whole
  obtain rfl : frames.flatten = bytes := sent
  have loaded : x.crate.numOfPolicies state.engine.current.set ≠ 0 :=
    (loadDir_eq_ok x (Engine.bootstrap_eq_ok x made).2.2).1.nonempty
  constructor
  · rw [reportsAllow_runCheck_iff x serialize configured compiled made saved,
      allow_approve_iff x serialize loaded gate, sameConfig]
    constructor
    · intro agree
      by_cases short : frames.flatten.length ≤ maxRequestBytes
      · exact .inl short
      · exact .inr fun q parsed permitted => short (agree.mp ⟨q, parsed, permitted⟩).1
    · rintro (short | refused)
      · exact ⟨fun permitted => ⟨short, permitted⟩, And.right⟩
      · refine ⟨?_, And.right⟩
        rintro ⟨q, parsed, permitted⟩
        exact absurd permitted (refused q parsed)
  · intro decision decision' checked answered
    exact alike_of_evaluated x serialize configured compiled saved made sameConfig
      loaded gate checked answered

/-! ## A payload the handler does not read -/

theorem bootstrap_permits_status :
    ∃ engine, Engine.bootstrap smallExternals smallView () smallDir 0 = .ok engine ∧
      Permitted smallExternals engine statusQuery := by
  have permits : ((Engine.bootstrap smallExternals smallView () smallDir 0).toOption.any
      fun engine => (engine.evaluate smallExternals statusQuery 7).1.allow) = true := by
    decide +kernel
  rw [Option.any_eq_true] at permits
  obtain ⟨engine, started, allow⟩ := permits
  exact ⟨engine, toOption_eq_some_iff.mp started,
    (allow_evaluate_iff smallExternals rfl rfl).mp allow⟩

def savedPayload (bytes : List UInt8) : CheckFiles Unit MemorySink where
  config := .ok
    ⟨claudeConfig, smallDir, ⟨true, [.normal (Utf8.encode "decisions.jsonl")]⟩⟩
  schema := .ok ()
  fixture := .ok bytes
  audit := none

def servingState (engine : Engine Unit Unit) : AppState Unit Unit MemorySink where
  engine
  config := claudeConfig
  audit := .withSink ⟨[], Faults.none⟩ false
  lastReload := none

/-- Reads one payload as the status request. -/
def spelled (payload : List UInt8) : SerdeJson :=
  readsTable [(payload, statusEnvelope, statusValue)]

theorem parse_spelled (payload : List UInt8) :
    parse (spelled payload) payload claudeConfig = .ok statusQuery := by
  have read : (spelled payload).envelope payload = .ok statusEnvelope := by
    simp only [spelled, readsTable, List.lookup_cons_self]
  rw [parse, read]
  rfl

theorem long_payload_differs (payload : List UInt8)
    (long : maxRequestBytes < payload.length) :
    ∃ engine, Engine.bootstrap smallExternals smallView () smallDir 0 = .ok engine ∧
      ReportsAllow
        (runCheck smallExternals (spelled payload) AuditLog.toJsonLine smallView
          (savedPayload payload) 5 ⟨"1970-01-01T00:00:05Z", 9⟩).result ∧
      (approve smallExternals (spelled payload) AuditLog.toJsonLine
        (servingState engine) jsonHeaders ⟨[payload], none⟩
          ⟨"1970-01-01T00:00:05Z", 7⟩).response.body ≠ .decision .allow := by
  obtain ⟨engine, started, permitted⟩ := bootstrap_permits_status
  refine ⟨engine, started, ?_, ?_⟩
  · exact (reportsAllow_runCheck_iff smallExternals AuditLog.toJsonLine rfl rfl
      started rfl 5 _).mpr ⟨statusQuery, parse_spelled payload, permitted⟩
  · have loaded :
        smallExternals.crate.numOfPolicies (servingState engine).engine.current.set ≠ 0 :=
      (loadDir_eq_ok smallExternals
        (Engine.bootstrap_eq_ok smallExternals started).2.2).1.nonempty
    rw [ne_eq, allow_approve_iff smallExternals AuditLog.toJsonLine loaded
      (headerGate_eq_none_iff.mp gate_jsonHeaders), List.flatten_singleton]
    exact fun h => absurd h.1 (Nat.not_le_of_lt long)

/-- The status payload, with a mebibyte of blanks behind it. -/
def paddedPayload : List UInt8 :=
  Utf8.encode statusBody ++ List.replicate maxRequestBytes ' '.toUInt8

theorem length_paddedPayload : maxRequestBytes < paddedPayload.length := by
  have nonempty : 0 < (Utf8.encode statusBody).length := by decide +kernel
  rw [paddedPayload, List.length_append, List.length_replicate]
  omega

/-- `check` allows the padded payload; the daemon over the same directory denies it. -/
theorem padded_payload_differs :
    ∃ engine, Engine.bootstrap smallExternals smallView () smallDir 0 = .ok engine ∧
      ReportsAllow
        (runCheck smallExternals (spelled paddedPayload) AuditLog.toJsonLine smallView
          (savedPayload paddedPayload) 5 ⟨"1970-01-01T00:00:05Z", 9⟩).result ∧
      (approve smallExternals (spelled paddedPayload) AuditLog.toJsonLine
        (servingState engine) jsonHeaders ⟨[paddedPayload], none⟩
          ⟨"1970-01-01T00:00:05Z", 7⟩).response.body ≠
          .decision .allow :=
  long_payload_differs paddedPayload length_paddedPayload

theorem check_reproduces_status :
    ∃ engine, Engine.bootstrap smallExternals smallView () smallDir 0 = .ok engine ∧
      (ReportsAllow (runCheck smallExternals statusSerde AuditLog.toJsonLine smallView
          (savedPayload (Utf8.encode statusBody)) 5 ⟨"1970-01-01T00:00:05Z", 9⟩).result ↔
        (approve smallExternals statusSerde AuditLog.toJsonLine
          (servingState engine) jsonHeaders ⟨[Utf8.encode statusBody], none⟩
            ⟨"1970-01-01T00:00:05Z", 7⟩).response.body =
            .decision .allow) := by
  obtain ⟨engine, started, -⟩ := bootstrap_permits_status
  refine ⟨engine, started, ?_⟩
  refine (check_reproduces_iff smallExternals statusSerde AuditLog.toJsonLine smallView
    (savedPayload (Utf8.encode statusBody)) _ () (Utf8.encode statusBody) rfl rfl rfl
    (servingState engine) 0 started rfl jsonHeaders
      (headerGate_eq_none_iff.mp gate_jsonHeaders)
    ⟨[Utf8.encode statusBody], none⟩ rfl List.flatten_singleton 5 _ _).1.mpr (.inl ?_)
  have bound := Utf8.length_encode_le statusBody
  have short : 4 * statusBody.toList.length ≤ maxRequestBytes := by decide +kernel
  omega

end NonoCedarPdp
