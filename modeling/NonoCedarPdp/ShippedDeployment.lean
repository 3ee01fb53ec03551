import NonoCedarPdp.GitPack
import NonoCedarPdp.OfflineCheck
import NonoCedarPdp.SchemaConformance
import NonoCedarPdp.TrailHistory

/-!
A daemon over the shipped policies, from the bytes of a request to the answer and to the
line in the trail. What it allows is told exactly: a launch of `git` by the session of the
agent `claude-code`, with a read-only subcommand and without the flags the pack forbids.
-/
namespace NonoCedarPdp
open Cedar Engine RustText Transition

/-! ## The queries the pack allows -/

/-- A command line the pack takes for read-only git. -/
structure ReadOnlyGit (command : String) (args : List String) : Prop where
  git : command = "git"
  subcommand : ∃ second, args[1]? = some second ∧
    ∃ sub ∈ readOnlySubcommands, firstToken second.toList = sub.toList
  keepsHistory : ∀ flag ∈ historyRewriteFlags, flag ∉ args
  noConfig : "-c" ∉ args
  noCode : ∀ flag ∈ codeExecutingFlags, ¬ flag.toList <:+: (argvTail args).toList

theorem token_argvTail_iff (args : List String) :
    (∃ sub ∈ readOnlySubcommands, firstToken (argvTail args).toList = sub.toList) ↔
      ∃ second, args[1]? = some second ∧
        ∃ sub ∈ readOnlySubcommands, firstToken second.toList = sub.toList := by
  constructor
  · rintro ⟨sub, known, token⟩
    obtain ⟨second, found⟩ := second_of_firstToken (token ▸ firstToken_ne_nil known)
    exact ⟨second, found, sub, known, (firstToken_argvTail found) ▸ token⟩
  · rintro ⟨second, found, sub, known, token⟩
    exact ⟨sub, known, (firstToken_argvTail found).trans token⟩

/-- A query the pack allows, with ids that uids can be read from. -/
structure Allowable (tables : UnicodeTables) (q : PolicyQuery) : Prop where
  agent : q.agent = "claude-code"
  caller : q.caller = "session"
  target : ∃ command args rule pid, q.target = .command command args rule pid ∧
    ReadOnlyGit command args
  session : Spellable tables q.sessionId
  request : Spellable tables q.requestId

theorem Allowable.spelled {tables : UnicodeTables} {q : PolicyQuery}
    (allowable : Allowable tables q) :
    ∀ id ∈ queryIds q, Spellable tables id := by
  simp only [queryIds, List.forall_mem_cons, allowable.agent, allowable.caller]
  exact ⟨spellable_of_ascii tables (by decide), allowable.session,
    spellable_of_ascii tables (by decide), allowable.request, by simp⟩

section Pack
variable {Schema β : Type} {x : Externals Schema β} {outcome : Semantics β}
  {denote : Clauses → β} {q : PolicyQuery} {request : Request} {entities : Entities}

theorem pack_allows_readOnlyGit_iff (spec : LanguageSpec x.crate outcome denote)
    {command rule : String} {args : List String} {pid : UInt32}
    (built : BuiltFor q request entities)
    (target : q.target = .command command args rule pid) :
    FailClosedAllow outcome (shippedPolicies denote) request entities ↔
      q.agent = "claude-code" ∧ q.caller = "session" ∧ ReadOnlyGit command args := by
  rw [pack_allows_iff spec built target, token_argvTail_iff]
  constructor
  · rintro ⟨⟨agent, git, token⟩, caller, history, flags⟩
    have ⟨config, code⟩ := not_or.mp flags
    exact ⟨agent, caller, git, token,
      fun flag known mem => history ⟨flag, known, mem⟩, config,
      fun flag known inTail => code ⟨flag, known, inTail⟩⟩
  · rintro ⟨agent, caller, line⟩
    refine ⟨⟨agent, line.git, line.subcommand⟩, caller, ?_, ?_⟩
    · rintro ⟨flag, known, mem⟩
      exact line.keepsHistory flag known mem
    · rintro (config | ⟨flag, known, inTail⟩)
      · exact line.noConfig config
      · exact line.noCode flag known inTail

theorem allow_of_shipped (spec : LanguageSpec x.crate outcome denote)
    (grammar : UidGrammar x.crate) {engine : Engine Schema β}
    (pack : engine.current.set.policies = shippedPolicies denote) {evalUs : Nat}
    (allowed : (engine.evaluate x q evalUs).1.allow = true) :
    q.agent = "claude-code" ∧ q.caller = "session" ∧
      ∃ command args rule pid, q.target = .command command args rule pid ∧
        ReadOnlyGit command args := by
  have only : ∀ p ∈ engine.current.set.policies, p.effect = .permit →
      p.body = denote gitReadOnly := by
    rw [pack]
    exact fun p => permit_of_shipped
  obtain ⟨request, entities, built, allow, permitted⟩ :=
    permitted_of_allow spec grammar only allowed
  obtain ⟨command, args, rule, pid, target⟩ := command_of_gitReadOnly built permitted
  rw [pack, pack_allows_readOnlyGit_iff spec built target] at allow
  obtain ⟨agent, caller, line⟩ := allow
  exact ⟨agent, caller, command, args, rule, pid, target, line⟩

/-- Exactly what an engine over the pack allows. -/
theorem evaluate_shipped_iff (spec : LanguageSpec x.crate outcome denote)
    (grammar : DisplayGrammar x.tables x.crate) {engine : Engine Schema β}
    (schema : SchemaSpec x.crate engine.schema schemaSrc)
    (pack : engine.current.set.policies = shippedPolicies denote) {evalUs : Nat} :
    (engine.evaluate x q evalUs).1.allow = true ↔ Allowable x.tables q := by
  constructor
  · intro allowed
    obtain ⟨agent, caller, target⟩ :=
      allow_of_shipped spec grammar.uidGrammar pack allowed
    obtain ⟨⟨request, entities⟩, passed, -⟩ :=
      (evaluate_allow_iff_reference x spec.authorizer).mp allowed
    have spelled :=
      ((build_eq_ok_iff grammar schema).mp ((asked_eq_some_iff x).mp passed).2).1
    simp only [queryIds, List.forall_mem_cons] at spelled
    exact ⟨agent, caller, target, spelled.2.1, spelled.2.2.2.1⟩
  · intro allowable
    obtain ⟨command, args, rule, pid, target, line⟩ := allowable.target
    have clear : pathAmbiguity q = none := by rw [pathAmbiguity, target]
    have built : build x.crate q engine.schema =
        .ok (requestFor q, ⟨slice (uidsOf q) q⟩) :=
      (build_eq_ok_iff grammar schema).mpr ⟨allowable.spelled, rfl⟩
    rw [evaluate_allow_iff_reference x spec.authorizer]
    refine ⟨_, (asked_eq_some_iff x).mpr ⟨clear, built⟩, ?_⟩
    rw [pack, pack_allows_readOnlyGit_iff spec
      (builtFor_of_build grammar.uidGrammar built) target]
    exact ⟨allowable.agent, allowable.caller, line⟩

end Pack

/-! ## The requests the daemon allows -/

/-- A command request as a query, under the agent its backend is mapped to. -/
def commandQuery (config : Config) (backend : String) (c : CommandRequest) :
    PolicyQuery where
  agent := config.agentFor backend
  sessionId := c.sessionId
  caller := c.caller
  callerKind := if c.caller = "session" then .session else .command
  requestId := c.requestId
  backend
  reason := c.reason
  target := .command c.command c.args c.interceptRule c.childPid

theorem parse_command_iff {serde : SerdeJson} {bytes : List UInt8} {config : Config}
    {q : PolicyQuery} : (parse serde bytes config = .ok q ∧
        ∃ command args rule pid, q.target = .command command args rule pid) ↔
      ∃ envelope c, serde.envelope bytes = .ok envelope ∧ envelope.request = .command c ∧
        q = commandQuery config envelope.backend c := by
  rw [parse]
  cases read : serde.envelope bytes with
  | error message => simp
  | ok envelope =>
      simp only [Except.ok.injEq, exists_and_left, exists_eq_left']
      cases form : envelope.request with
      | command c =>
          simp only [ApprovalRequest.command.injEq, exists_eq_left', Except.ok.injEq]
          constructor
          · rintro ⟨rfl, -⟩
            rfl
          · rintro rfl
            exact ⟨rfl, _, _, _, _, rfl⟩
      | endpoint e =>
          simp only [reduceCtorEq, false_and, exists_false, iff_false, Except.ok.injEq]
          rintro ⟨rfl, command, args, rule, pid, same⟩
          cases same
      | unsupported => simp

section Answer
variable {Schema β σ : Type} [ByteSink σ] (x : Externals Schema β) (serde : SerdeJson)
  (serialize : AuditLog.Serialize)

theorem approve_allows_iff {state : AppState Schema β σ}
    {headers : HeaderMap} {body : RequestBody} {now : Moment} :
    (approve x serde serialize state headers body now).response =
      ⟨.ok, .decision .allow⟩ ↔
      PassesGate headers ∧ x.crate.numOfPolicies state.engine.current.set ≠ 0 ∧
        state.engine.AllowsBody x serde state.config body now.evalUs := by
  constructor
  · intro answer
    cases ending_approve x serde serialize state headers body now with
    | refused gate status =>
        rw [answer] at status
        obtain ⟨-, other⟩ | ⟨-, -, other⟩ := status <;> cases other
    | unavailable gate empty status =>
        rw [answer] at status
        cases status
    | decided gate loaded status wire answers record recorded agrees allows =>
        rw [answer] at answers
        exact ⟨gate, loaded, allows (ResponseBody.decision.inj answers).symm⟩
  · rintro ⟨gate, loaded, bytes, query, read, parsed, allow⟩
    have passes := headerGate_eq_none_iff.mpr gate
    have wire := (Decision.toWire_eq_allow_iff _).mpr allow
    simp only [approve, passes, Engine.snapshot, if_neg loaded, read, parsed, wire]

end Answer

/-- From the bytes of a request to its answer: over the shipped policies it is allowed
exactly when it passes the header gate, arrives whole within the bound, and is a command
request whose query the pack allows. -/
theorem shipped_approve_iff {Schema β σ : Type} [ByteSink σ] (x : Externals Schema β)
    (outcome : Semantics β) (denote : Clauses → β)
    (spec : LanguageSpec x.crate outcome denote)
    (grammar : DisplayGrammar x.tables x.crate) (serde : SerdeJson)
    (serialize : AuditLog.Serialize) (state : AppState Schema β σ)
    (schema : SchemaSpec x.crate state.engine.schema schemaSrc)
    (pack : state.engine.current.set.policies = shippedPolicies denote)
    (headers : HeaderMap) (body : RequestBody) (now : Moment) :
    (approve x serde serialize state headers body now).response =
      ⟨.ok, .decision .allow⟩ ↔
      PassesGate headers ∧ body.failure = none ∧
      body.frames.flatten.length ≤ maxRequestBytes ∧
        ∃ envelope c, serde.envelope body.frames.flatten = .ok envelope ∧
          envelope.request = .command c ∧
          Allowable x.tables (commandQuery state.config envelope.backend c) := by
  have loaded : x.crate.numOfPolicies state.engine.current.set ≠ 0 := by
    rw [x.crate.numOfPolicies_eq, pack]
    exact Nat.succ_ne_zero _
  have allows (q : PolicyQuery) :
      (state.engine.evaluate x q now.evalUs).1.allow = true ↔ Allowable x.tables q :=
    evaluate_shipped_iff spec grammar schema pack
  rw [approve_allows_iff]
  constructor
  · rintro ⟨gate, -, bytes, q, read, parsed, allow⟩
    obtain ⟨whole, rfl, short⟩ := (x.toBytes_eq_ok_iff _ _ _).mp read
    have allowable := (allows q).mp allow
    obtain ⟨command, args, rule, pid, target, -⟩ := allowable.target
    obtain ⟨envelope, c, found, form, rfl⟩ :=
      parse_command_iff.mp ⟨parsed, command, args, rule, pid, target⟩
    exact ⟨gate, whole, short, envelope, c, found, form, allowable⟩
  · rintro ⟨gate, whole, short, envelope, c, found, form, allowable⟩
    obtain ⟨parsed, -⟩ := parse_command_iff.mpr ⟨envelope, c, found, form, rfl⟩
    exact ⟨gate, loaded, _, _,
      (x.toBytes_eq_ok_iff _ _ _).mpr ⟨whole, rfl, short⟩, parsed,
      (allows _).mpr allowable⟩

/-- Cedar with the language of the pack, over the schema. -/
def deploymentExternals : Externals Unit Clauses where
  crate := schemaCrate fun request set entities =>
    authorize languageOutcome set.policies request entities
  tables := asciiTables
  sha256 := smallSha256
  toBytes := joinFrames
  toBytes_eq_ok_iff := joinFrames_eq_ok_iff

theorem languageSpec_deployment :
    LanguageSpec deploymentExternals.crate languageOutcome id where
  authorizer := authorizerSpec_authorize rfl
  clauses p c body request entities := by
    rw [languageOutcome, body]
    rfl

def shippedState : AppState Unit Clauses MemorySink where
  engine := packEngine shippedSet
  config := claudeConfig
  audit := .withSink ⟨[], .none⟩ false
  lastReload := none

theorem allowable_status : Allowable asciiTables statusQuery where
  agent := rfl
  caller := rfl
  target := by
    refine ⟨"git", ["/tmp/shims/git", "status"], "git", 42, rfl, ?_⟩
    exact
      { git := rfl
        subcommand := ⟨"status", rfl, "status", by decide, by decide⟩
        keepsHistory := by decide
        noConfig := by decide
        noCode := by
          simp only [codeExecutingFlags, List.forall_mem_cons]
          decide }
  session := spellable_of_ascii asciiTables (by decide)
  request := spellable_of_ascii asciiTables (by decide)

/-- The status payload is allowed; broken off on its way it is not. -/
theorem shipped_approve_iff_small :
    (approve deploymentExternals statusSerde AuditLog.toJsonLine shippedState jsonHeaders
        ⟨[Utf8.encode statusBody], none⟩ ⟨"1970-01-01T00:00:00Z", 7⟩).response =
          ⟨.ok, .decision .allow⟩ ∧
      (approve deploymentExternals statusSerde AuditLog.toJsonLine
        shippedState jsonHeaders ⟨[Utf8.encode statusBody], some "connection reset"⟩
          ⟨"1970-01-01T00:00:00Z", 7⟩).response ≠
          ⟨.ok, .decision .allow⟩ := by
  have exact_answer :=
    fun body => shipped_approve_iff deploymentExternals languageOutcome id
      languageSpec_deployment
        (displayGrammar_schemaCrate _) statusSerde AuditLog.toJsonLine shippedState
      (schemaSpec_schemaCrate _) rfl jsonHeaders body ⟨"1970-01-01T00:00:00Z", 7⟩
  have bound := Utf8.length_encode_le statusBody
  have short : 4 * statusBody.toList.length ≤ maxRequestBytes := by decide +kernel
  constructor
  · refine (exact_answer _).mpr
      ⟨headerGate_eq_none_iff.mp gate_jsonHeaders, rfl, ?_, statusEnvelope, _, ?_, rfl,
        allowable_status⟩
    · rw [List.flatten_singleton]
      omega
    · rw [List.flatten_singleton]
      exact envelope_statusSerde
  · intro allowed
    obtain ⟨-, whole, -⟩ := (exact_answer _).mp allowed
    cases whole

/-! ## The lines of the trail -/

section Matched
variable {Schema β : Type} {x : Externals Schema β} {outcome : Semantics β}
  {denote : Clauses → β} {q : PolicyQuery}

/-- The pack permits by one policy only, so an allow names that one. -/
theorem matched_of_shipped (spec : LanguageSpec x.crate outcome denote)
    {engine : Engine Schema β}
    (pack : engine.current.set.policies = shippedPolicies denote) {evalUs : Nat}
    (allowed : (engine.evaluate x q evalUs).1.allow = true) :
    (engine.evaluate x q evalUs).1.matched = ["10-git:git-read-only"] := by
  obtain ⟨⟨request, entities⟩, passed, allow⟩ :=
    (evaluate_allow_iff_reference x spec.authorizer).mp allowed
  have satisfied := gitReadOnly_of_allow spec (fun p => permit_of_shipped) (pack ▸ allow)
  have permitted :
      satisfiedIds outcome (shippedPolicies denote) request entities .permit =
      ["10-git:git-read-only"] := by
    have means := spec.clauses (gitReadOnlyPolicy denote) gitReadOnly rfl request entities
    rw [satisfied, gitReadOnlyPolicy] at means
    simp [satisfiedIds, shippedPolicies, Satisfied, sessionLaunchesOnlyPolicy,
      noUnknownAgentsPolicy, gitReadOnlyPolicy, noHistoryRewritesPolicy,
      noCodeExecutingGitFlagsPolicy, means]
  have opposed :
      satisfiedIds outcome (shippedPolicies denote) request entities .forbid = [] :=
    satisfiedIds_eq_nil_iff.mpr (pack ▸ allow).2.1
  have named : determining outcome (shippedPolicies denote) request entities =
      ["10-git:git-read-only"] := by
    rw [determining, permitted, opposed]
    rfl
  rw [matched_evaluate x spec.authorizer, passed]
  simp only [pack, named, List.mergeSort_singleton]

end Matched

namespace Serving
variable {Schema β σ : Type} {x : Externals Schema β} {serialize : AuditLog.Serialize}
  {euid : UInt32} {engine : Engine Schema β}

variable (x engine) in
/-- The decision is what some set of these makes of the query. -/
def MadeBy (sets : List (LoadedPolicies β)) (q : PolicyQuery)
    (decision : Decision) : Prop :=
  ∃ set ∈ sets, ∃ evalUs,
    decision = (({ engine with current := set } : Engine Schema β).evaluate x q evalUs).1

variable (x engine) in
/-- Every decision so far was made by a set that has been active, or is a refusal. -/
structure Decided (s : Serving Schema β σ) : Prop where
  schema : s.daemon.engine.schema = engine.schema
  active : s.daemon.engine.current ∈ s.history
  pending : ∀ handler p, s.handlers handler = some p →
    MadeBy x engine s.history p.query p.decision
  entries : ∀ record set, .decision record set ∈ s.entries → ∃ ts q decision userAgent,
    record = AuditLog.decidedRecord x.tables ts q decision userAgent ∧
      MadeBy x engine s.history q decision
  refusals : ∀ record, .rejected record ∈ s.entries → record.decision = "deny"

theorem MadeBy.mono {sets more : List (LoadedPolicies β)} (kept : sets ⊆ more)
    {q : PolicyQuery} {decision : Decision} (made : MadeBy x engine sets q decision) :
    MadeBy x engine more q decision := by
  obtain ⟨set, mem, evaluated⟩ := made
  exact ⟨set, kept mem, evaluated⟩

theorem eq_of_mem_concat {α : Type} {before : List α} {last entry : α}
    (mem : entry ∈ before ++ [last]) : entry ∈ before ∨ entry = last :=
  (List.mem_append.mp mem).imp_right List.mem_singleton.mp

/-- A line on a load leaves what was decided as it was. -/
theorem Decided.policySet {s after : Serving Schema β σ} {record : PolicySetRecord}
    (decided : s.Decided x engine)
    (schema : after.daemon.engine.schema = s.daemon.engine.schema)
    (active : after.daemon.engine.current = s.daemon.engine.current)
    (history : after.history = s.history) (handlers : after.handlers = s.handlers)
    (entries : after.entries = s.entries ++ [.policySet record]) :
      after.Decided x engine where
  schema := schema.trans decided.schema
  active := by rw [active, history]; exact decided.active
  pending := by rw [history, handlers]; exact decided.pending
  entries record set mem := by
    rw [entries] at mem
    rw [history]
    exact decided.entries record set ((eq_of_mem_concat mem).resolve_right nofun)
  refusals record mem := by
    rw [entries] at mem
    exact decided.refusals record ((eq_of_mem_concat mem).resolve_right nofun)

section Steps
variable [ByteSink σ] {s : Serving Schema β σ}

omit [ByteSink σ] in
theorem decided_evaluate (decided : s.Decided x engine) (handler : Nat)
    (query : PolicyQuery) (userAgent : Option String) (evalUs : Nat) :
    (s.evaluate x handler query userAgent evalUs).Decided x engine := by
  refine { decided with pending := ?_ }
  intro other p waiting
  cases pending_of_evaluate waiting with
  | inl before => exact decided.pending other p before
  | inr new =>
      subst new
      refine ⟨_, decided.active, evalUs, ?_⟩
      simp only [Engine.evaluate, Engine.snapshot, decided.schema]

theorem decided_recordDecision (decided : s.Decided x engine) {handler : Nat}
    {p : Pending β} (waiting : s.handlers handler = some p) (ts : String) :
    (s.recordDecision x serialize handler p ts).Decided x engine := by
  refine { decided with pending := ?_, entries := ?_, refusals := ?_ }
  · intro other q stillWaiting
    exact decided.pending other q (pending_of_recordDecision stillWaiting)
  · intro record set mem
    cases eq_of_mem_concat mem with
    | inl old => exact decided.entries record set old
    | inr new =>
        cases new
        exact ⟨ts, p.query, p.decision, p.userAgent, rfl,
          decided.pending handler p waiting⟩
  · intro record mem
    exact decided.refusals record ((eq_of_mem_concat mem).resolve_right nofun)

theorem decided_reject (decided : s.Decided x engine) (ts : String)
    (context : RejectedContext) (reason : String) (userAgent : Option String) :
    (s.reject serialize ts context reason userAgent).Decided x engine := by
  refine { decided with entries := ?_, refusals := ?_ }
  · intro record set mem
    exact decided.entries record set ((eq_of_mem_concat mem).resolve_right nofun)
  · intro record mem
    cases eq_of_mem_concat mem with
    | inl old => exact decided.refusals record old
    | inr new =>
        cases new
        rfl

omit [ByteSink σ] in
theorem decided_swap (decided : s.Decided x engine) (loaded : LoadedPolicies β) :
    (s.swap loaded).Decided x engine where
  schema := decided.schema
  active := List.mem_append_right _ List.mem_cons_self
  pending handler p waiting :=
    (decided.pending handler p waiting).mono (List.subset_append_left _ _)
  entries record set mem := by
    obtain ⟨ts, q, decision, userAgent, same, made⟩ := decided.entries record set mem
    exact ⟨ts, q, decision, userAgent, same, made.mono (List.subset_append_left _ _)⟩
  refusals := decided.refusals

theorem decided_step (decided : s.Decided x engine) (a : ServingStep) :
    (s.step x serialize euid a).Decided x engine := by
  have moved := s.moved_step x serialize euid a
  generalize s.step x serialize euid a = after at moved
  cases moved with
  | disabled => exact decided
  | evaluated query userAgent evalUs =>
      exact decided_evaluate decided _ query userAgent evalUs
  | decided ts waiting => exact decided_recordDecision decided waiting ts
  | rejected ts context reason userAgent =>
      exact decided_reject decided ts context reason userAgent
  | refused | failed => exact decided.policySet rfl rfl rfl rfl rfl
  | trusted | published => exact { decided with }
  | swapped => exact decided_swap decided _
  | announced => exact decided.policySet rfl rfl rfl rfl rfl

theorem decided_run {config : Config} {bytes : σ}
    {unterminated atRisk : Bool} {ts : String} {steps : List ServingStep}
    (run : Run (total (step x serialize euid)) Always
      (start serialize engine config bytes unterminated atRisk ts) steps s) :
    s.Decided x engine := by
  apply run.invariant
  · intro s a t decided _ taken
    obtain rfl := total_eq_some_iff.mp taken
    exact decided_step decided a
  · exact
      { schema := rfl
        active := List.mem_singleton.mpr rfl
        pending := fun handler p waiting => by cases waiting
        entries := fun record set mem => by cases List.mem_singleton.mp mem
        refusals := fun record mem => by cases List.mem_singleton.mp mem }

end Steps

/-- What a line that allows says where the pack decides. -/
structure AllowLine (tables : UnicodeTables) (record : AuditRecord) : Prop where
  agent : record.agent = some "claude-code"
  principal : record.principal = some ("Nono::Caller::" ++ debugStr tables "session")
  action : record.action = some "launchCommand"
  resource : ∃ args, ReadOnlyGit "git" args ∧
    record.resource = some (controlEscape ("git [" ++ " ".intercalate args ++ "]"))
  matched : record.matched = ["10-git:git-read-only"]

theorem decision_decidedRecord (tables : UnicodeTables) (ts : String) (q : PolicyQuery)
    (decision : Decision) (userAgent : Option String) :
    (AuditLog.decidedRecord tables ts q decision userAgent).decision = "allow" ↔
      decision.allow = true := by
  cases allow : decision.allow
    <;> simp [AuditLog.decidedRecord, AuditLog.decisionName, allow]

theorem allowLine_of_allowable {tables : UnicodeTables} {q : PolicyQuery}
    (allowable : Allowable tables q) {decision : Decision}
    (matched : decision.matched = ["10-git:git-read-only"]) (ts : String)
    (userAgent : Option String) :
    AllowLine tables (AuditLog.decidedRecord tables ts q decision userAgent) := by
  obtain ⟨command, args, rule, pid, target, git⟩ := allowable.target
  obtain rfl := git.git
  have resource : q.resourceSummary =
      controlEscape ("git [" ++ " ".intercalate args ++ "]") := by
    rw [PolicyQuery.resourceSummary, target]
    rfl
  exact
    { agent := congrArg some allowable.agent
      principal := by rw [← allowable.caller]; rfl
      action := congrArg some (actionName_command target)
      resource := ⟨args, git, congrArg some resource⟩
      matched := matched }

/-- As long as every set that has been active is the pack, a handler's line allows exactly
the queries the pack allows, and whatever line of the trail says allow names what it
allowed, in every interleaving of handlers and reloads. -/
theorem shipped_trail [ByteSink σ] (x : Externals Schema β) (outcome : Semantics β)
    (denote : Clauses → β) (spec : LanguageSpec x.crate outcome denote)
    (grammar : DisplayGrammar x.tables x.crate) (serialize : AuditLog.Serialize)
    (euid : UInt32) (engine : Engine Schema β)
    (schema : SchemaSpec x.crate engine.schema schemaSrc) (config : Config) (bytes : σ)
    (unterminated atRisk : Bool) (ts : String) (steps : List ServingStep)
    (s : Serving Schema β σ) (run : Run (total (step x serialize euid)) Always
      (start serialize engine config bytes unterminated atRisk ts) steps s)
    (pack : ∀ set ∈ s.history, set.set.policies = shippedPolicies denote) :
    (∀ record, .decision record ∈ s.entries.map TrailEntry.line →
      record.decision = "allow" →
      AllowLine x.tables record) ∧
    ∀ record set, .decision record set ∈ s.entries → ∃ ts q decision userAgent,
      record = AuditLog.decidedRecord x.tables ts q decision userAgent ∧
        (record.decision = "allow" ↔ Allowable x.tables q) := by
  have decided : s.Decided x engine := decided_run run
  have shipped {active : LoadedPolicies β} (mem : active ∈ s.history) (q : PolicyQuery)
      (evalUs : Nat) :
      (({ engine with current := active } : Engine Schema β).evaluate x q
        evalUs).1.allow = true ↔
        Allowable x.tables q := by
    refine evaluate_shipped_iff spec grammar ?_ ?_
    · exact schema
    · exact pack active mem
  constructor
  · intro record line allowed
    obtain ⟨entry, mem, same⟩ := List.mem_map.mp line
    cases entry with
    | decision =>
        cases same
        obtain ⟨ts, q, decision, userAgent, rfl, active, inHistory, evalUs, made⟩ :=
          decided.entries _ _ mem
        rw [decision_decidedRecord, made] at allowed
        refine allowLine_of_allowable
          ((shipped inHistory q evalUs).mp allowed) ?_ ts userAgent
        rw [made]
        exact matched_of_shipped spec (pack active inHistory) allowed
    | rejected =>
        cases same
        rw [decided.refusals _ mem] at allowed
        exact absurd allowed (by decide)
    | policySet => cases same
  · intro record set line
    obtain ⟨ts, q, decision, userAgent, rfl, active, inHistory, evalUs, made⟩ :=
      decided.entries record set line
    refine ⟨ts, q, decision, userAgent, rfl, ?_⟩
    rw [decision_decidedRecord, made]
    exact shipped inHistory q evalUs

/-- A daemon over the pack that has answered one status request. -/
def shippedServing : Serving Unit Clauses MemorySink :=
  [.evaluate 0 statusQuery none 7, .recordDecision 0 "1970-01-01T00:00:01Z"].foldl
    (step deploymentExternals AuditLog.toJsonLine 501)
    (start AuditLog.toJsonLine (packEngine shippedSet) claudeConfig
      ⟨[], .none⟩ false false "1970-01-01T00:00:00Z")

theorem shippedServing_line : .decision (AuditLog.decidedRecord deploymentExternals.tables
      "1970-01-01T00:00:01Z" statusQuery
      ((packEngine shippedSet).evaluate deploymentExternals statusQuery 7).1 none)
      (packEngine shippedSet).current ∈ shippedServing.entries := by
  rw [shippedServing, List.foldl_cons, List.foldl_cons, List.foldl_nil]
  simp only [step, start, evaluate, recordDecision, Function.update_self]
  exact List.mem_append_right _ List.mem_cons_self

theorem shippedServing_history :
    ∀ set ∈ shippedServing.history, set.set.policies = shippedPolicies id := by
  rw [shippedServing, List.foldl_cons, List.foldl_cons, List.foldl_nil]
  simp only [step, start, evaluate, recordDecision, Function.update_self]
  intro set mem
  rw [List.mem_singleton.mp mem]
  rfl

theorem shipped_trail_small : ∃ record,
    .decision record ∈ shippedServing.entries.map TrailEntry.line ∧
    record.decision = "allow" ∧
      AllowLine deploymentExternals.tables record := by
  have told :=
    shipped_trail deploymentExternals languageOutcome id languageSpec_deployment
      (displayGrammar_schemaCrate _) AuditLog.toJsonLine 501 (packEngine shippedSet)
      (schemaSpec_schemaCrate _) claudeConfig (⟨[], .none⟩ : MemorySink) false false
      "1970-01-01T00:00:00Z" _ shippedServing (Run.of_foldl _ _ _) shippedServing_history
  obtain ⟨record, made⟩ :
      ∃ record, record = AuditLog.decidedRecord deploymentExternals.tables
      "1970-01-01T00:00:01Z" statusQuery
      ((packEngine shippedSet).evaluate deploymentExternals statusQuery 7).1 none :=
        ⟨_, rfl⟩
  have inTrail := shippedServing_line
  rw [← made] at inTrail
  have line : .decision record ∈ shippedServing.entries.map TrailEntry.line :=
    List.mem_map.mpr ⟨_, inTrail, rfl⟩
  have allows : record.decision = "allow" := by
    rw [made, decision_decidedRecord]
    exact (evaluate_shipped_iff languageSpec_deployment (displayGrammar_schemaCrate _)
      (schemaSpec_schemaCrate _) rfl).mpr allowable_status
  exact ⟨record, line, allows, told.1 record line allows⟩

end Serving

end NonoCedarPdp
