import NonoCedarPdp.Watcher

/-!
Handlers and the watcher side by side. A handler loads the active set and decides,
and appends its line later; the watcher judges the directory, stores a new set,
announces it in the trail and then in the health status, one after the other. The
appends come one at a time, in any order with the other steps.
-/
namespace NonoCedarPdp

/-- A line of the trail; a decision that a policy set produced comes with that set. -/
inductive TrailEntry (β : Type)
  | decision (record : AuditRecord) (producedBy : LoadedPolicies β)
  | rejected (record : AuditRecord)
  | policySet (record : PolicySetRecord)

def TrailEntry.line {β : Type} : TrailEntry β → TrailRecord
  | .decision record _ => .decision record
  | .rejected record => .decision record
  | .policySet record => .policySet record

/-- A handler between its evaluation and its audit line. `seen` counts the sets that
had been active when it loaded the active one. -/
structure Pending (β : Type) where
  query : PolicyQuery
  userAgent : Option String
  decision : Decision
  producedBy : LoadedPolicies β
  seen : Nat

/-- Where the watcher thread is in a load attempt: not in one, past the trust check, past
the swap, or past the line that records the attempt. -/
inductive Attempt
  | none
  | trusted
  | swapped
  | recorded (outcome : PolicySetOutcome)

/-- The daemon with its handlers in flight. `history` holds the sets that have been
active, `announced` counts the `loaded` lines in the trail. -/
structure Serving (Schema β σ : Type) where
  daemon : Daemon Schema β σ
  handlers : Nat → Option (Pending β)
  attempt : Attempt
  history : List (LoadedPolicies β)
  announced : Nat
  entries : List (TrailEntry β)

/-- The trust check and the reload each read the directory as it then is. -/
inductive ServingStep
  | evaluate (handler : Nat) (query : PolicyQuery) (userAgent : Option String)
      (evalUs : Nat)
  | recordDecision (handler : Nat) (ts : String)
  | reject (ts : String) (context : RejectedContext) (reason : String)
      (userAgent : Option String)
  | judge (fs : FsView) (ts : String)
  | reload (fs : FsView) (now : Nat) (ts : String)
  | announce (ts : String)
  | publish (atTime : String)

/-- The active set has no line yet. -/
def Attempt.unannounced : Attempt → Bool
  | .swapped => true
  | .none | .trusted | .recorded _ => false

/-- The last line has not reached the health status yet. -/
def Attempt.unpublished : Attempt → Bool
  | .recorded _ => true
  | .none | .trusted | .swapped => false

namespace Serving
variable {Schema β σ : Type} [ByteSink σ] (x : Externals Schema β)
  (serialize : AuditLog.Serialize) (euid : UInt32)

/-- After startup: the bootstrap load is active and announced. -/
def start (engine : Engine Schema β) (config : Config) (bytes : σ)
    (unterminated atRisk : Bool) (ts : String) : Serving Schema β σ where
  daemon := Daemon.recordBootstrap serialize
    ⟨⟨engine, config, .withSink bytes unterminated, none⟩, atRisk⟩ engine.snapshot ts
  handlers _ := none
  attempt := .none
  history := [engine.current]
  announced := 1
  entries := [.policySet (AuditLog.policySetRecord ts engine.current.generation atRisk
    (.loaded engine.current.contentHash engine.current.files))]

/-- A load attempt that adopts nothing is recorded at once. -/
def adoptNothing (s : Serving Schema β σ) (outcome : PolicySetOutcome) (ts : String) :
    Serving Schema β σ :=
  let generation := s.daemon.engine.snapshot.generation
  { s with
    daemon := s.daemon.recordPolicySet serialize generation outcome ts
    attempt := .recorded outcome
    entries := s.entries ++
      [.policySet (AuditLog.policySetRecord ts generation s.daemon.atRisk outcome)] }

/-- A handler loads the active set and decides. -/
def evaluate (s : Serving Schema β σ) (handler : Nat) (query : PolicyQuery)
    (userAgent : Option String) (evalUs : Nat) : Serving Schema β σ :=
  { s with
    handlers := Function.update s.handlers handler (some
      { query
        userAgent
        decision := (s.daemon.engine.evaluate x query evalUs).1
        producedBy := s.daemon.engine.snapshot
        seen := s.history.length }) }

/-- The handler's line. -/
def recordDecision (s : Serving Schema β σ) (handler : Nat) (p : Pending β)
    (ts : String) : Serving Schema β σ :=
  { s with
    daemon :=
      { s.daemon with
        state :=
          { s.daemon.state with
            audit := s.daemon.audit.record x.tables serialize ts p.query p.decision
              p.userAgent } }
    handlers := Function.update s.handlers handler none
    entries := s.entries ++
      [.decision (AuditLog.decidedRecord x.tables ts p.query p.decision p.userAgent)
        p.producedBy] }

/-- A request that never becomes a query is denied and recorded. -/
def reject (s : Serving Schema β σ) (ts : String) (context : RejectedContext)
    (reason : String) (userAgent : Option String) : Serving Schema β σ :=
  { s with
    daemon :=
      { s.daemon with
        state :=
          { s.daemon.state with
            audit :=
              s.daemon.audit.recordRejected serialize ts context
                (.deny reason) userAgent } }
    entries := s.entries ++
      [.rejected (AuditLog.rejectedRecord ts context (.deny reason) userAgent)] }

/-- A load that succeeds becomes the active set. -/
def swap (s : Serving Schema β σ) (loaded : LoadedPolicies β) : Serving Schema β σ :=
  { s with
    daemon :=
      { s.daemon with
        state :=
          { s.daemon.state with
            engine := { s.daemon.engine with current := loaded } } }
    attempt := .swapped
    history := s.history ++ [loaded] }

/-- `record_loaded`, up to the health status. -/
def announce (s : Serving Schema β σ) (ts : String) : Serving Schema β σ :=
  let loaded := s.daemon.engine.snapshot
  let outcome := PolicySetOutcome.loaded loaded.contentHash loaded.files
  { s with
    daemon := s.daemon.recordPolicySet serialize loaded.generation outcome ts
    attempt := .recorded outcome
    announced := s.announced + 1
    entries := s.entries ++
      [.policySet (AuditLog.policySetRecord ts loaded.generation
        s.daemon.atRisk outcome)] }

/-- A step that is not enabled changes nothing. -/
def step (s : Serving Schema β σ) : ServingStep → Serving Schema β σ
  | .evaluate handler query userAgent evalUs =>
      match s.handlers handler with
      | some _ => s
      | none => s.evaluate x handler query userAgent evalUs
  | .recordDecision handler ts =>
      match s.handlers handler with
      | none => s
      | some p => s.recordDecision x serialize handler p ts
  | .reject ts context reason userAgent => s.reject serialize ts context reason userAgent
  | .judge fs ts =>
      match s.attempt with
      | .none =>
          match refuseUntrustedPolicyDirAs fs s.daemon.engine.policyDir euid with
          | .error e => s.adoptNothing serialize (.refused e.text) ts
          | .ok () => { s with attempt := .trusted }
      | .trusted | .swapped | .recorded _ => s
  | .reload fs now ts =>
      match s.attempt with
      | .trusted =>
          match s.daemon.reload x fs now with
          | (daemon, .ok _) => s.swap daemon.engine.snapshot
          | (_, .error e) => s.adoptNothing serialize (.failed e.text) ts
      | .none | .swapped | .recorded _ => s
  | .announce ts =>
      match s.attempt with
      | .swapped => s.announce serialize ts
      | .none | .trusted | .recorded _ => s
  | .publish atTime =>
      match s.attempt with
      | .recorded outcome =>
          { s with daemon := s.daemon.storeLastReload outcome atTime, attempt := .none }
      | .none | .trusted | .swapped => s

/-- What a step comes to. -/
inductive Moved (s : Serving Schema β σ) : ServingStep → Serving Schema β σ → Prop
  | disabled {a : ServingStep} : Moved s a s
  | evaluated {handler : Nat} (query : PolicyQuery) (userAgent : Option String)
      (evalUs : Nat) (idle : s.handlers handler = none) :
      Moved s (.evaluate handler query userAgent evalUs)
        (s.evaluate x handler query userAgent evalUs)
  | decided {handler : Nat} {p : Pending β} (ts : String)
      (waiting : s.handlers handler = some p) :
      Moved s (.recordDecision handler ts) (s.recordDecision x serialize handler p ts)
  | rejected (ts : String) (context : RejectedContext) (reason : String)
      (userAgent : Option String) :
      Moved s (.reject ts context reason userAgent)
        (s.reject serialize ts context reason userAgent)
  | refused {fs : FsView} {e : IsolationError} (ts : String) (idle : s.attempt = .none)
      (refuses : refuseUntrustedPolicyDirAs fs s.daemon.engine.policyDir euid = .error e) :
      Moved s (.judge fs ts) (s.adoptNothing serialize (.refused e.text) ts)
  | trusted {fs : FsView} (ts : String) (idle : s.attempt = .none)
      (trusts : refuseUntrustedPolicyDirAs fs s.daemon.engine.policyDir euid = .ok ()) :
      Moved s (.judge fs ts) { s with attempt := .trusted }
  | failed {fs : FsView} {now : Nat} {e : PolicyLoadError} (ts : String)
      (judged : s.attempt = .trusted)
      (fails : loadDir x fs s.daemon.engine.policyDir s.daemon.engine.schema
        (s.daemon.engine.current.generation + 1) now = .error e) :
      Moved s (.reload fs now ts) (s.adoptNothing serialize (.failed e.text) ts)
  | swapped {fs : FsView} {now : Nat} {loaded : LoadedPolicies β} (ts : String)
      (judged : s.attempt = .trusted)
      (loads : loadDir x fs s.daemon.engine.policyDir s.daemon.engine.schema
        (s.daemon.engine.current.generation + 1) now = .ok loaded) :
      Moved s (.reload fs now ts) (s.swap loaded)
  | announced (ts : String) (owing : s.attempt = .swapped) :
      Moved s (.announce ts) (s.announce serialize ts)
  | published {outcome : PolicySetOutcome} (atTime : String)
      (owing : s.attempt = .recorded outcome) : Moved s (.publish atTime)
        { s with daemon := s.daemon.storeLastReload outcome atTime, attempt := .none }

theorem moved_step (s : Serving Schema β σ) (a : ServingStep) :
    s.Moved x serialize euid a (s.step x serialize euid a) := by
  cases a with
  | evaluate handler query userAgent evalUs =>
      cases idle : s.handlers handler with
      | some p => simpa only [step, idle] using .disabled
      | none => simpa only [step, idle] using .evaluated query userAgent evalUs idle
  | recordDecision handler ts =>
      cases waiting : s.handlers handler with
      | none => simpa only [step, waiting] using .disabled
      | some p => simpa only [step, waiting] using .decided ts waiting
  | reject ts context reason userAgent => exact .rejected ts context reason userAgent
  | judge fs ts =>
      cases stage : s.attempt with
      | trusted | swapped | recorded => simpa only [step, stage] using .disabled
      | none =>
          cases judged : refuseUntrustedPolicyDirAs fs s.daemon.engine.policyDir euid with
          | error e => simpa only [step, stage, judged] using .refused ts stage judged
          | ok done => simpa only [step, stage, judged] using .trusted ts stage judged
  | reload fs now ts =>
      cases stage : s.attempt with
      | none | swapped | recorded => simpa only [step, stage] using .disabled
      | trusted =>
          cases loads : loadDir x fs s.daemon.engine.policyDir s.daemon.engine.schema
              (s.daemon.engine.current.generation + 1) now with
          | error e =>
              simpa only [step, stage, Daemon.reload_of_fails loads] using .failed
                ts stage loads
          | ok loaded =>
              simpa only [step, stage, Daemon.reload_of_loads loads] using .swapped
                ts stage loads
  | announce ts =>
      cases stage : s.attempt with
      | none | trusted | recorded => simpa only [step, stage] using .disabled
      | swapped => simpa only [step, stage] using .announced ts stage
  | publish atTime =>
      cases stage : s.attempt with
      | none | trusted | swapped => simpa only [step, stage] using .disabled
      | recorded outcome => simpa only [step, stage] using .published atTime stage

/-! ## The handlers that wait -/

section
variable {x serialize} {s : Serving Schema β σ} {handler other : Nat} {p q : Pending β}

omit [ByteSink σ] in
theorem pending_of_evaluate {query : PolicyQuery} {userAgent : Option String}
    {evalUs : Nat}
    (waiting : (s.evaluate x handler query userAgent evalUs).handlers other = some p) :
    s.handlers other = some p ∨
      p = ⟨query, userAgent, (s.daemon.engine.evaluate x query evalUs).1,
        s.daemon.engine.snapshot, s.history.length⟩ := by
  dsimp only [evaluate] at waiting
  by_cases same : other = handler
  · subst same
    rw [Function.update_self] at waiting
    exact .inr (Option.some.inj waiting).symm
  · rw [Function.update_of_ne same] at waiting
    exact .inl waiting

theorem pending_of_recordDecision {ts : String}
    (waiting : (s.recordDecision x serialize handler q ts).handlers other = some p) :
    s.handlers other = some p := by
  dsimp only [recordDecision] at waiting
  by_cases same : other = handler
  · subst same
    rw [Function.update_self] at waiting
    cases waiting
  · rwa [Function.update_of_ne same] at waiting

end

/-! ## Without interruption -/

/-- A handler whose two steps nothing comes between leaves the trail that `approve`
leaves. -/
theorem audit_of_uninterrupted_handler (serde : SerdeJson) {s : Serving Schema β σ}
    {handler : Nat} (idle : s.handlers handler = none) {headers : HeaderMap}
    {body : RequestBody} {bytes : List UInt8} {query : PolicyQuery} (now : Moment)
    (passes : headerGate headers = none)
    (loaded : x.crate.numOfPolicies s.daemon.engine.snapshot.set ≠ 0)
    (read : x.toBytes body maxRequestBytes = .ok bytes)
    (parsed : parse serde bytes s.daemon.state.config = .ok query) :
    ((s.step x serialize euid
        (.evaluate handler query (observed headers "user-agent") now.evalUs)).step x
          serialize euid
        (.recordDecision handler now.ts)).daemon.audit =
      (approve x serde serialize s.daemon.state headers body now).audit := by
  have loadedState : x.crate.numOfPolicies s.daemon.state.engine.snapshot.set ≠ 0 :=
    loaded
  simp only [approve, passes, loadedState, read, parsed, ↓reduceIte]
  simp only [step, idle, evaluate, recordDecision, Function.update_self]
  rfl

/-- A load attempt whose steps nothing comes between is the watcher's. -/
theorem daemon_of_uninterrupted_attempt {s : Serving Schema β σ}
    (idle : s.attempt = .none) (fs : FsView) (times : Times) :
    ((((s.step x serialize euid (.judge fs times.ts)).step x serialize euid
        (.reload fs times.loadedAt times.ts)).step x serialize euid
        (.announce times.ts)).step x serialize euid (.publish times.atTime)).daemon =
      s.daemon.afterBurst x serialize fs euid times := by
  cases trusted : refuseUntrustedPolicyDirAs fs s.daemon.engine.policyDir euid with
  | error e =>
      simp only [step, idle, trusted, adoptNothing, Daemon.afterBurst]
      rfl
  | ok done =>
      cases loads : loadDir x fs s.daemon.engine.policyDir s.daemon.engine.schema
          (s.daemon.engine.current.generation + 1) times.loadedAt with
      | error e =>
          simp only [step, idle, trusted, adoptNothing, Daemon.afterBurst,
            Daemon.reload_of_fails loads]
          rfl
      | ok loaded =>
          simp only [step, idle, trusted, swap, announce, Daemon.afterBurst,
            Daemon.reload_of_loads loads]
          rfl

end Serving

end NonoCedarPdp
