import NonoCedarPdp.Adapter
import NonoCedarPdp.EngineVerdict
import NonoCedarPdp.ShippedPolicies

/-!
The two baseline forbids, `policies/00-baseline.cedar`. A forbid overrides every permit,
so what they refuse stays refused in any set that contains them.
-/
namespace NonoCedarPdp
open Cedar Engine

section Command
variable {q : PolicyQuery} {request : Request} {entities : Entities}
  {command rule : String} {args : List String} {pid : UInt32}

theorem actionName_command (target : q.target = .command command args rule pid) :
    q.actionName = "launchCommand" := by
  rw [PolicyQuery.actionName, target]

theorem BuiltFor.launches (built : BuiltFor q request entities)
    (target : q.target = .command command args rule pid) :
      request.action = launchCommand :=
  built.action_eq_launchCommand.mpr (actionName_command target)

variable (built : BuiltFor q request entities)
include built

theorem sessionLaunchesOnly_holds : Holds request entities
    (.eq .principal (.uid ⟨"Nono::Caller", "session"⟩))
      (decide (q.caller = "session")) := by
  rw [Holds, Cedar.evaluate, Cedar.evaluate, Cedar.evaluate, built.principal]
  simp [uidsOf, Value.same, Bind.bind, Except.bind]

theorem noUnknownAgents_holds : Holds request entities
    (.isIn .principal (.uid ⟨"Nono::Agent", "unknown"⟩))
      (decide (q.agent = "unknown")) := by
  rw [Holds, Cedar.evaluate, Cedar.evaluate, Cedar.evaluate]
  simp only [Bind.bind, Except.bind, built.isIn_agent]

theorem sessionLaunchesOnly_satisfied_iff :
    sessionLaunchesOnly.outcome request entities = .satisfied ↔
    q.actionName = "launchCommand" ∧ q.caller ≠ "session" := by
  rw [Clauses.outcome_satisfied_iff rfl (sessionLaunchesOnly_holds built),
    ← built.action_eq_launchCommand]
  simp [sessionLaunchesOnly, Scope.admits]

theorem noUnknownAgents_satisfied_iff :
    noUnknownAgents.outcome request entities = .satisfied ↔
    q.agent = "unknown" := by
  rw [Clauses.outcome_satisfied_iff rfl (noUnknownAgents_holds built)]
  simp [noUnknownAgents, Scope.admits]

end Command

/-! ## A forbid in the set -/

/-- The set has this forbid, under whatever id. -/
def Forbids {β : Type} (set : PolicySet β) (body : β) : Prop :=
  ∃ p ∈ set.policies, p.effect = .forbid ∧ p.body = body

section Allowed
variable {Schema β : Type} {x : Externals Schema β} {outcome : Semantics β}
  {denote : Clauses → β} {engine : Engine Schema β} {q : PolicyQuery} {evalUs : Nat}

/-- An allowed query was built, and the reference allows what was built. -/
theorem built_of_allow (spec : LanguageSpec x.crate outcome denote)
    (grammar : UidGrammar x.crate)
    (allowed : (engine.evaluate x q evalUs).1.allow = true) :
    ∃ request entities, BuiltFor q request entities ∧
      FailClosedAllow outcome engine.current.set.policies request entities := by
  obtain ⟨pair, passed, allow⟩ :=
    (evaluate_allow_iff_reference x spec.authorizer).mp allowed
  have built := ((asked_eq_some_iff x).mp passed).2
  exact ⟨pair.1, pair.2, builtFor_of_build grammar built, allow⟩

theorem not_satisfied_of_forbids (spec : LanguageSpec x.crate outcome denote)
    {set : PolicySet β} {request : Request} {entities : Entities} {c : Clauses}
    (forbids : Forbids set (denote c))
    (allow : FailClosedAllow outcome set.policies request entities) :
    c.outcome request entities ≠ .satisfied := by
  obtain ⟨p, mem, forbid, body⟩ := forbids
  intro satisfied
  refine allow.2.1 p mem ⟨forbid, ?_⟩
  rw [spec.clauses p c body, satisfied]

end Allowed

/-- A query carries the agent its envelope's backend is mapped to. -/
theorem envelope_of_parse {serde : SerdeJson} {body : List UInt8} {config : Config}
    {q : PolicyQuery} (parsed : parse serde body config = .ok q) :
    ∃ envelope, serde.envelope body = .ok envelope ∧ q.backend = envelope.backend ∧
      q.agent = config.agentFor envelope.backend := by
  rw [parse] at parsed
  cases read : serde.envelope body with
  | error message => rw [read] at parsed; cases parsed
  | ok envelope =>
      refine ⟨envelope, rfl, ?_⟩
      simp only [read] at parsed
      cases form : envelope.request with
      | command c => rw [form] at parsed; cases parsed; exact ⟨rfl, rfl⟩
      | endpoint e => rw [form] at parsed; cases parsed; exact ⟨rfl, rfl⟩
      | unsupported => rw [form] at parsed; cases parsed

/-- Whatever a set adds to the baseline, an allowed body names a backend that is mapped to
a known agent, and an allowed command is launched by the session. -/
theorem baseline_survives {Schema β : Type} (x : Externals Schema β)
    (outcome : Semantics β) (denote : Clauses → β)
    (spec : LanguageSpec x.crate outcome denote) (grammar : UidGrammar x.crate)
    (engine : Engine Schema β)
    (session : Forbids engine.current.set (denote sessionLaunchesOnly))
    (known : Forbids engine.current.set (denote noUnknownAgents)) (serde : SerdeJson)
    (body : List UInt8) (config : Config) (q : PolicyQuery)
    (parsed : parse serde body config = .ok q) (evalUs : Nat)
    (allowed : (engine.evaluate x q evalUs).1.allow = true) :
    (∃ envelope agent, serde.envelope body = .ok envelope ∧
      config.agents.lookup envelope.backend = some agent ∧ agent ≠ "unknown") ∧
    ∀ command args rule pid, q.target = .command command args rule pid →
      q.caller = "session" := by
  obtain ⟨request, entities, built, allow⟩ := built_of_allow spec grammar allowed
  have agentKnown : q.agent ≠ "unknown" := by
    intro unknown
    exact not_satisfied_of_forbids spec known allow
      ((noUnknownAgents_satisfied_iff built).mpr unknown)
  constructor
  · obtain ⟨envelope, read, -, backend⟩ := envelope_of_parse parsed
    cases found : config.agents.lookup envelope.backend with
    | none =>
        refine absurd ?_ agentKnown
        rw [backend, Config.agentFor, found]
        rfl
    | some agent =>
        have same : q.agent = agent := by
          rw [backend, Config.agentFor, found]
          rfl
        exact ⟨envelope, agent, read, found, same ▸ agentKnown⟩
  · intro command args rule pid target
    by_contra chained
    exact not_satisfied_of_forbids spec session allow
      ((sessionLaunchesOnly_satisfied_iff built).mpr ⟨actionName_command target, chained⟩)

/-! ## Cedar with this language -/

def languageOutcome : Semantics Clauses :=
  fun p request entities => p.body.outcome request entities

/-- Authorizes by the rule, and a policy's body is its clauses. -/
def packExternals : Externals Unit Clauses where
  crate := literalCrate fun request set entities =>
    authorize languageOutcome set.policies request entities
  tables := asciiTables
  sha256 := smallSha256
  toBytes := joinFrames
  toBytes_eq_ok_iff := joinFrames_eq_ok_iff

theorem languageSpec_packExternals :
    LanguageSpec packExternals.crate languageOutcome id where
  authorizer := authorizerSpec_authorize rfl
  clauses p c body request entities := by
    rw [languageOutcome, body]
    rfl

theorem uidGrammar_packExternals : UidGrammar packExternals.crate :=
  uidGrammar_literalCrate _

/-- An engine over a set given to it, as `fromPolicySet` makes it. -/
def packEngine (set : PolicySet Clauses) : Engine Unit Clauses where
  schema := ()
  policyDir := smallDir
  current :=
    { set
      generation := 1
      loadedAt := 0
      files := []
      contentHash := ContentDigest.new.finish smallSha256 }

def packRequest (q : PolicyQuery) : Request :=
  ⟨(uidsOf q).caller, ⟨"Nono::Action", q.actionName⟩, (uidsOf q).resource,
    ⟨contextPairs q⟩⟩

def packEntities (q : PolicyQuery) : Entities := ⟨slice (uidsOf q) q⟩

theorem build_packExternals (q : PolicyQuery) :
    build packExternals.crate q () = .ok (packRequest q, packEntities q) :=
  build_literalCrate _ q

theorem builtFor_pack (q : PolicyQuery) : BuiltFor q (packRequest q) (packEntities q) :=
  builtFor_of_build uidGrammar_packExternals (build_packExternals q)

theorem packEngine_allows_iff (set : PolicySet Clauses) {q : PolicyQuery}
    (clear : pathAmbiguity q = none) (evalUs : Nat) :
      ((packEngine set).evaluate packExternals q evalUs).1.allow = true ↔
      FailClosedAllow languageOutcome set.policies (packRequest q) (packEntities q) := by
  have passed : asked packExternals () q = some (packRequest q, packEntities q) :=
    (asked_eq_some_iff packExternals).mpr ⟨clear, build_packExternals q⟩
  rw [evaluate_allow_iff_reference packExternals languageSpec_packExternals.authorizer]
  constructor
  · intro h
    obtain ⟨pair, found, allow⟩ := h
    cases passed.symm.trans found
    exact allow
  · exact fun allow => ⟨_, passed, allow⟩

/-! ## A launch under the baseline and a permit for everything -/

def permitAll : Clauses := ⟨.any, .any, .any, []⟩

def openSet : PolicySet Clauses :=
  ⟨[sessionLaunchesOnlyPolicy id, noUnknownAgentsPolicy id,
    ⟨"99-open:0", .permit, [], permitAll⟩], by decide⟩

/-- The frames a body arrives in. -/
def statusFrames : List String :=
  ["\x7b\"backend\":\"cedar\",\"request\":\x7b\"capability_type\":\"command\",",
    "\"request_id\":\"r1\",\"command\":\"git\",\"args\":[\"/tmp/shims/git\",\"status\"],",
    "\"caller\":\"session\",\"intercept_rule\":\"git\",\"reason\":null,\"child_pid\":42,",
    "\"session_id\":\"s1\"\x7d\x7d"]

def statusBody : String := String.join statusFrames

def statusEnvelope : WebhookEnvelope :=
  ⟨"cedar", .command ⟨"r1", "git", ["/tmp/shims/git", "status"], "session", "git",
    none, 42, "s1"⟩⟩

def statusValue : JsonValue :=
  .object [("backend", .string "cedar"), ("request", .object
    [("capability_type", .string "command"), ("request_id", .string "r1"),
      ("command", .string "git"), ("args", .other), ("caller", .string "session"),
      ("intercept_rule", .string "git"), ("reason", .other), ("child_pid", .other),
      ("session_id", .string "s1")])]

/-- Reads the bodies of a table, and takes every other for broken. -/
def readsTable (table : List (List UInt8 × WebhookEnvelope × JsonValue)) : SerdeJson where
  envelope body :=
    match table.lookup body with
    | some found => .ok found.1
    | none => .error "expected value at line 1 column 1"
  value body := (table.lookup body).map Prod.snd

section Table
variable {text : String} {envelope : WebhookEnvelope} {value : JsonValue}
  {rows : List (List UInt8 × WebhookEnvelope × JsonValue)}

theorem reads_first :
    (readsTable ((Utf8.encode text, envelope, value) :: rows)).envelope
      (Utf8.encode text) = .ok envelope := by
  simp only [readsTable, List.lookup_cons_self]

theorem reads_second {first : String} {row : WebhookEnvelope × JsonValue}
    (differ : text ≠ first) :
    (readsTable ((Utf8.encode first, row) :: (Utf8.encode text, envelope, value) ::
      rows)).envelope (Utf8.encode text) = .ok envelope := by
  have other : (Utf8.encode text == Utf8.encode first) = false := by
    apply beq_false_of_ne
    intro same
    exact differ (Utf8.encode_injective same)
  simp only [readsTable, List.lookup_cons, other, beq_self_eq_true]

end Table

def statusSerde : SerdeJson :=
  readsTable [(Utf8.encode statusBody, statusEnvelope, statusValue)]

theorem envelope_statusSerde :
    statusSerde.envelope (Utf8.encode statusBody) = .ok statusEnvelope := by
  rw [statusSerde, reads_first]

def claudeConfig : Config := ⟨[("cedar", "claude-code")]⟩

def statusQuery : PolicyQuery where
  agent := "claude-code"
  sessionId := "s1"
  caller := "session"
  callerKind := .session
  requestId := "r1"
  backend := "cedar"
  reason := none
  target := .command "git" ["/tmp/shims/git", "status"] "git" 42

theorem openSet_allows_status :
    ((packEngine openSet).evaluate packExternals statusQuery 7).1.allow = true := by
  rw [packEngine_allows_iff openSet rfl]
  have built := builtFor_pack statusQuery
  have session : sessionLaunchesOnly.outcome (packRequest statusQuery)
      (packEntities statusQuery) =
      .unsatisfied := by
    rw [Clauses.outcome_of_holds rfl (sessionLaunchesOnly_holds built), if_neg]
    simp [statusQuery]
  have known : noUnknownAgents.outcome (packRequest statusQuery)
      (packEntities statusQuery) =
      .unsatisfied := by
    rw [Clauses.outcome_of_holds rfl (noUnknownAgents_holds built), if_neg]
    simp [statusQuery]
  have permitted :
      permitAll.outcome (packRequest statusQuery) (packEntities statusQuery) =
      .satisfied := rfl
  simp [FailClosedAllow, Satisfied, Errs, openSet, sessionLaunchesOnlyPolicy,
    noUnknownAgentsPolicy, languageOutcome, session, known, permitted]

theorem parse_statusBody :
    parse statusSerde (Utf8.encode statusBody) claudeConfig = .ok statusQuery := by
  rw [parse, envelope_statusSerde]
  rfl

theorem baseline_survives_small :
    (∃ envelope agent, statusSerde.envelope (Utf8.encode statusBody) = .ok envelope ∧
        claudeConfig.agents.lookup envelope.backend = some agent ∧ agent ≠ "unknown") ∧
      statusQuery.caller = "session" := by
  have facts :=
    baseline_survives packExternals languageOutcome id languageSpec_packExternals
      uidGrammar_packExternals (packEngine openSet)
      ⟨_, List.mem_cons_self, rfl, rfl⟩
        ⟨_, List.mem_cons_of_mem _ List.mem_cons_self, rfl, rfl⟩
      statusSerde _ claudeConfig statusQuery parse_statusBody 7 openSet_allows_status
  exact ⟨facts.1, facts.2 _ _ _ _ rfl⟩

end NonoCedarPdp
