import NonoCedarPdp.Server

/-!
The contract of the approve handler: each request ends in a refusal of its
headers, in a 503, or in a 200 with exactly one decision record that says what the
response says. No ending depends on what the audit sink does.
-/
namespace NonoCedarPdp

def RefusedContentType (headers : HeaderMap) : Prop :=
  isJsonContentType (observed headers "content-type") = false

def CarriesOrigin (headers : HeaderMap) : Prop := (observed headers "origin").isSome

def PassesGate (headers : HeaderMap) : Prop :=
  ¬ RefusedContentType headers ∧ ¬ CarriesOrigin headers

/-- The record says what the response says. -/
structure Agrees (record : AuditRecord) (wire : WebhookResponse) : Prop where
  isDecision : record.kind = "decision"
  verdict : record.decision = "allow" ∧ wire = .allow ∨
    record.decision = "deny" ∧ wire = .deny record.reason

theorem headerGate_eq_none_iff {headers : HeaderMap} :
    headerGate headers = none ↔ PassesGate headers := by
  by_cases json : isJsonContentType (observed headers "content-type") = false
  · simp [headerGate, PassesGate, RefusedContentType, json]
  · cases origin : observed headers "origin" <;>
      simp [headerGate, PassesGate, RefusedContentType, CarriesOrigin, json, origin]

/-- A missing or foreign content type is a 415; with the right one, an `Origin` is a
403. -/
theorem headerGate_status {headers : HeaderMap} {refusal : Response} {event : Event}
    (h : headerGate headers = some (refusal, event)) :
    RefusedContentType headers ∧ refusal.status = .unsupportedMediaType ∨
      ¬ RefusedContentType headers ∧ CarriesOrigin headers ∧
      refusal.status = .forbidden := by
  by_cases json : isJsonContentType (observed headers "content-type") = false
  · left
    simp only [headerGate, if_pos json, Option.some.injEq, Prod.mk.injEq] at h
    exact ⟨json, by rw [← h.1]⟩
  · right
    simp only [headerGate, if_neg json] at h
    cases origin : observed headers "origin" with
    | none => simp [origin] at h
    | some value =>
        simp only [origin, Option.some.injEq, Prod.mk.injEq] at h
        exact ⟨json, by simp [CarriesOrigin, origin], by rw [← h.1]⟩

theorem agrees_decided (tables : RustText.UnicodeTables) (ts : String)
    (query : PolicyQuery) (decision : Decision) (userAgent : Option String) :
    Agrees (AuditLog.decidedRecord tables ts query decision userAgent)
      decision.toWire := by
  refine ⟨rfl, ?_⟩
  cases allow : decision.allow with
  | true => exact Or.inl ⟨by simp [AuditLog.decidedRecord, AuditLog.decisionName, allow],
      by simp [Decision.toWire, allow]⟩
  | false => exact Or.inr ⟨by simp [AuditLog.decidedRecord, AuditLog.decisionName, allow],
      by simp [AuditLog.decidedRecord, Decision.toWire, allow]⟩

theorem agrees_rejected (ts : String) (context : RejectedContext) (reason : String)
    (userAgent : Option String) :
    Agrees (AuditLog.rejectedRecord ts context (.deny reason) userAgent)
      (Decision.deny reason).toWire :=
  ⟨rfl, Or.inr ⟨rfl, rfl⟩⟩

section Contract
variable {Schema β : Type} (x : Externals Schema β) (serde : SerdeJson)

/-- The body was read whole, made a query, and the engine allowed it. -/
def Engine.AllowsBody (engine : Engine Schema β) (config : Config) (body : RequestBody)
    (evalUs : Nat) : Prop :=
  ∃ bytes query, x.toBytes body maxRequestBytes = .ok bytes ∧
    parse serde bytes config = .ok query ∧ (engine.evaluate x query evalUs).1.allow = true

/-- The three endings of a request. -/
inductive Ending {σ : Type} (state : AppState Schema β σ)
    (headers : HeaderMap) (body : RequestBody) (now : Moment) (reply : Approved σ) : Prop
  | refused (gate : ¬ PassesGate headers)
      (status : RefusedContentType headers ∧
        reply.response.status = .unsupportedMediaType ∨
        ¬ RefusedContentType headers ∧ CarriesOrigin headers ∧
        reply.response.status = .forbidden)
      (unevaluated : reply.evaluated = none)
      (unrecorded : reply.audit = state.audit)
  | unavailable (gate : PassesGate headers)
      (empty : x.crate.numOfPolicies state.engine.snapshot.set = 0)
      (status : reply.response.status = .serviceUnavailable)
      (unevaluated : reply.evaluated = none)
      (unrecorded : reply.audit = state.audit)
  | decided (gate : PassesGate headers)
      (loaded : x.crate.numOfPolicies state.engine.snapshot.set ≠ 0)
      (status : reply.response.status = .ok)
      (wire : WebhookResponse) (answers : reply.response.body = .decision wire)
      (record : AuditRecord)
      (recorded : reply.audit.attempted = state.audit.attempted ++ [.decision record])
      (agrees : Agrees record wire)
      (allows : wire = .allow →
        state.engine.AllowsBody x serde state.config body now.evalUs)

variable {σ : Type} [ByteSink σ] (serialize : AuditLog.Serialize)

theorem ending_refuseBody (state : AppState Schema β σ)
    {headers : HeaderMap} {body : RequestBody} {now : Moment} (gate : PassesGate headers)
    (loaded : x.crate.numOfPolicies state.engine.snapshot.set ≠ 0)
    (context : RejectedContext) (reason : String) (userAgent : Option String)
    (events : List Event) : Ending x serde state headers body now
      (refuseBody serialize state now.ts context (.deny reason) userAgent events) := by
  apply Ending.decided gate loaded rfl (Decision.deny reason).toWire rfl
  · exact AuditLog.attempted_append _ _ _
  · exact agrees_rejected now.ts context reason userAgent
  · intro allow
    cases allow

/-- Every request has one of the endings. -/
theorem ending_approve (state : AppState Schema β σ) (headers : HeaderMap)
    (body : RequestBody) (now : Moment) :
    Ending x serde state headers body now
      (approve x serde serialize state headers body now) := by
  cases gate : headerGate headers with
  | some refusal =>
      obtain ⟨response, event⟩ := refusal
      have shut : ¬ PassesGate headers := by
        rw [← headerGate_eq_none_iff, gate]
        simp
      simp only [approve, gate]
      exact .refused shut (headerGate_status gate) rfl rfl
  | none =>
      have passes := headerGate_eq_none_iff.mp gate
      simp only [approve, gate]
      by_cases empty : x.crate.numOfPolicies state.engine.snapshot.set = 0
      · rw [if_pos empty]
        exact .unavailable passes empty rfl rfl rfl
      · rw [if_neg empty]
        cases read : x.toBytes body maxRequestBytes with
        | error e => exact ending_refuseBody x serde serialize state passes empty _ _ _ _
        | ok bytes =>
            cases parsed : parse serde bytes state.config with
            | error e =>
                simp only [parsed]
                exact ending_refuseBody x serde serialize state passes empty _ _ _ _
            | ok query =>
                simp only [parsed]
                apply Ending.decided passes empty rfl
                  (state.engine.evaluate x query now.evalUs).1.toWire rfl
                · exact AuditLog.attempted_append _ _ _
                · exact agrees_decided _ _ _ _ _
                · intro allow
                  exact ⟨bytes, query, read, parsed,
                    (Decision.toWire_eq_allow_iff _).mp allow⟩

/-- Neither what the sink does nor what it holds shows in the response. -/
theorem response_approve {σ' : Type} [ByteSink σ'] (serialize' : AuditLog.Serialize)
    (state : AppState Schema β σ) (audit' : AuditLog σ')
    (headers : HeaderMap) (body : RequestBody) (now : Moment) :
    (approve x serde serialize' { state with audit := audit' } headers body
      now).response =
      (approve x serde serialize state headers body now).response := by
  simp only [approve]
  cases headerGate headers with
  | some refusal => rfl
  | none =>
      by_cases empty : x.crate.numOfPolicies state.engine.snapshot.set = 0
      · simp only [if_pos empty]
      · simp only [if_neg empty]
        cases x.toBytes body maxRequestBytes with
        | error e => rfl
        | ok bytes =>
            cases parsed : parse serde bytes state.config with
            | error e => simp only [parsed, refuseBody]
            | ok query => simp only [parsed]

end Contract

/-- Each request ends in exactly one of the three ways, told apart by the status, and
the response is the same whatever the audit sink does. -/
theorem approve_contract {Schema β σ : Type} [ByteSink σ] (x : Externals Schema β)
    (serde : SerdeJson) (serialize : AuditLog.Serialize) (state : AppState Schema β σ)
    (headers : HeaderMap) (body : RequestBody) (now : Moment) :
    Ending x serde state headers body now
      (approve x serde serialize state headers body now) ∧
      ((approve x serde serialize state headers body now).response.status =
        .unsupportedMediaType ↔
        RefusedContentType headers) ∧
      ((approve x serde serialize state headers body now).response.status = .forbidden ↔
        ¬ RefusedContentType headers ∧ CarriesOrigin headers) ∧
      ((approve x serde serialize state headers body now).response.status =
        .serviceUnavailable ↔
        PassesGate headers ∧ x.crate.numOfPolicies state.engine.snapshot.set = 0) ∧
      ((approve x serde serialize state headers body now).response.status = .ok ↔
        PassesGate headers ∧ x.crate.numOfPolicies state.engine.snapshot.set ≠ 0) ∧
      ∀ {σ' : Type} [ByteSink σ'] (serialize' : AuditLog.Serialize)
        (audit' : AuditLog σ'),
        (approve x serde serialize' { state with audit := audit' } headers body
          now).response =
          (approve x serde serialize state headers body now).response := by
  have ending := ending_approve x serde serialize state headers body now
  refine ⟨ending, ?_, ?_, ?_, ?_, fun serialize' audit' =>
    response_approve x serde serialize serialize' state audit' headers body now⟩
  all_goals cases ending with
    | refused gate status unevaluated unrecorded =>
        obtain ⟨foreign, status⟩ | ⟨json, origin, status⟩ := status
        · simp [status, PassesGate, foreign]
        · simp [status, PassesGate, json, origin]
    | unavailable gate empty status unevaluated unrecorded =>
        simp [status, gate, gate.1, gate.2, empty]
    | decided gate loaded status wire answers record recorded agrees allows =>
        simp [status, gate, gate.1, gate.2, loaded]

end NonoCedarPdp
