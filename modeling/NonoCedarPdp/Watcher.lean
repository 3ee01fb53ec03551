import NonoCedarPdp.Isolation
import NonoCedarPdp.Server

/-!
The policy watcher (`watcher.rs`): what it records, and what one burst of watch
events makes it do. It shares the engine, the audit log and the reload status with
the request handlers. The log lines and the clock of the drain are left out.
-/
namespace NonoCedarPdp

/-- The shared state and the startup flag that every provenance line carries. -/
structure Daemon (Schema β σ : Type) where
  state : AppState Schema β σ
  atRisk : Bool

/-- The clock readings of one iteration: the load time, the audit line's and the
status'. -/
structure Times where
  loadedAt : Nat
  ts : String
  atTime : String
  deriving DecidableEq, Repr

namespace Daemon
variable {Schema β σ : Type} [ByteSink σ] (x : Externals Schema β)
  (serialize : AuditLog.Serialize)

def engine (d : Daemon Schema β σ) : Engine Schema β := d.state.engine

def audit (d : Daemon Schema β σ) : AuditLog σ := d.state.audit

/-- What `Provenance::record` does first: the line of the trail. -/
def recordPolicySet (d : Daemon Schema β σ) (generation : UInt64)
    (outcome : PolicySetOutcome) (ts : String) : Daemon Schema β σ :=
  { d with
    state :=
      { d.state with
        audit := d.audit.recordPolicySet serialize ts generation d.atRisk outcome } }

/-- What it does next: the health status. -/
def storeLastReload (d : Daemon Schema β σ) (outcome : PolicySetOutcome)
    (atTime : String) : Daemon Schema β σ :=
  { d with state := { d.state with lastReload := some ⟨outcome.name, atTime⟩ } }

/-- `Provenance::record`, when nobody looks in between. -/
def record (d : Daemon Schema β σ) (generation : UInt64) (outcome : PolicySetOutcome)
    (times : Times) : Daemon Schema β σ :=
  (d.recordPolicySet serialize generation outcome times.ts).storeLastReload
    outcome times.atTime

def recordLoaded (d : Daemon Schema β σ) (loaded : LoadedPolicies β) (times : Times) :
    Daemon Schema β σ :=
  d.record serialize loaded.generation (.loaded loaded.contentHash loaded.files) times

/-- `Provenance::record_bootstrap`: the trail only. -/
def recordBootstrap (d : Daemon Schema β σ) (loaded : LoadedPolicies β) (ts : String) :
    Daemon Schema β σ :=
  d.recordPolicySet serialize loaded.generation
    (.loaded loaded.contentHash loaded.files) ts

/-- `Engine::reload` on the shared engine. -/
def reload (fs : FsView) (d : Daemon Schema β σ) (now : Nat) :
    Daemon Schema β σ × Except PolicyLoadError UInt64 :=
  let (engine, result) := d.engine.reload x fs now
  ({ d with state := { d.state with engine } }, result)

section
omit [ByteSink σ]
variable {x} {fs : FsView} {d : Daemon Schema β σ} {now : Nat}

theorem reload_of_fails {e : PolicyLoadError}
    (fails : loadDir x fs d.engine.policyDir d.engine.schema
      (d.engine.current.generation + 1) now =
      .error e) : d.reload x fs now = (d, .error e) := by
  simp only [reload, Engine.reload, Engine.snapshot, fails]
  rfl

theorem reload_of_loads {loaded : LoadedPolicies β}
    (loads : loadDir x fs d.engine.policyDir d.engine.schema
      (d.engine.current.generation + 1) now =
      .ok loaded) :
    d.reload x fs now =
      ({ d with state := { d.state with engine := { d.engine with current := loaded } } },
        .ok (d.engine.current.generation + 1)) := by
  simp only [reload, Engine.reload, Engine.snapshot, loads]

end

/-- What follows a drained burst: the trust check, the reload, the record. -/
def afterBurst (fs : FsView) (euid : UInt32) (d : Daemon Schema β σ) (times : Times) :
    Daemon Schema β σ :=
  match refuseUntrustedPolicyDirAs fs d.engine.policyDir euid with
  | .error e => d.record serialize d.engine.snapshot.generation (.refused e.text) times
  | .ok () =>
      match d.reload x fs times.loadedAt with
      | (d, .ok _) => d.recordLoaded serialize d.engine.snapshot times
      | (d, .error e) =>
          d.record serialize d.engine.snapshot.generation (.failed e.text) times

end Daemon

/-- What a `recv` that returns gives the loop: an error, or the first event of a burst
that is then drained. -/
inductive Wake
  | watchError (e : String)
  | burst (fs : FsView) (times : Times)

/-- One turn of the watch loop. -/
def Daemon.turn {Schema β σ : Type} [ByteSink σ] (x : Externals Schema β)
    (serialize : AuditLog.Serialize) (euid : UInt32) (d : Daemon Schema β σ) :
    Wake → Daemon Schema β σ
  | .watchError _ => d
  | .burst fs times => d.afterBurst x serialize fs euid times

end NonoCedarPdp
