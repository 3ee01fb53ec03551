import NonoCedarPdp.Watcher

/-!
Startup and the watch loop against a policy directory that changes under them
(`run_serve` in `main.rs`, `spawn` in `watcher.rs`). Changes, deliveries of the
notifier and the daemon's own steps come in any order. Handlers only read the active
set, and are left out.
-/
namespace NonoCedarPdp

/-- What the notifier puts into the channel. -/
inductive WatchEvent
  | changed
  | error (e : String)
  deriving DecidableEq, Repr

/-- Where the watcher thread is: in `recv`, in the drain, or at a step of a load
attempt. -/
inductive WatcherThread (β : Type)
  | receiving
  | draining
  | judging
  | reloading
  | storing (loaded : LoadedPolicies β)

/-- Where `run_serve` is, with what it holds by then. -/
inductive Phase (Schema β σ : Type)
  | bootstrap
  | auditOpen (engine : Engine Schema β)
  | provenance (engine : Engine Schema β) (audit : AuditLog σ)
  | registration (daemon : Daemon Schema β σ)
  | watching (daemon : Daemon Schema β σ) (thread : WatcherThread β)
  | stopped

/-- What `run_serve` knows before it loads anything. -/
structure ServeConfig (Schema : Type) where
  schema : Schema
  policyDir : Path
  config : Config
  atRisk : Bool
  euid : UInt32

/-- The daemon and its directory. `edits` counts the changes since the start of the
bootstrap load, `loadBegan` is that count when the latest load attempt began, and
`undelivered` counts the changes the notifier has yet to put into the channel. -/
structure RunServe (Schema β σ : Type) where
  directory : FsView
  edits : Nat
  undelivered : Nat
  channel : List WatchEvent
  loadBegan : Nat
  phase : Phase Schema β σ

inductive RunServeStep (σ : Type)
  | edit (directory : FsView)
  | deliver
  | notify (event : WatchEvent)
  | bootstrapRead (seen : FsView) (now : Nat)
  | openAudit (opened : Option (σ × Bool))
  | recordBootstrap (ts : String)
  | watch (registered : Bool)
  | receive
  | drain
  | drained
  | judgeTrust (seen : FsView) (times : Times)
  | reloadRead (seen : FsView) (times : Times)
  | store (times : Times)

section Phases
variable {Schema β σ : Type}

/-- From the start of the bootstrap load to the registration of the watch. -/
def Phase.starting : Phase Schema β σ → Bool
  | .bootstrap | .auditOpen _ | .provenance .. | .registration _ => true
  | .watching .. | .stopped => false

def Phase.watched : Phase Schema β σ → Bool
  | .watching .. => true
  | _ => false

end Phases

namespace RunServe
variable {Schema β σ : Type} [ByteSink σ] (x : Externals Schema β)
  (serialize : AuditLog.Serialize) (serve : ServeConfig Schema)

def start (directory : FsView) : RunServe Schema β σ where
  directory
  edits := 0
  undelivered := 0
  channel := []
  loadBegan := 0
  phase := .bootstrap

/-- What a read of the current load attempt finds: the directory, if that has not
changed since the attempt began, and anything at all otherwise. -/
def view (w : RunServe Schema β σ) (seen : FsView) : FsView :=
  if w.edits = w.loadBegan then w.directory else seen

def bootstrapRead (w : RunServe Schema β σ) (fs : FsView) (now : Nat) :
    RunServe Schema β σ :=
  match Engine.bootstrap x fs serve.schema serve.policyDir now with
  | .ok engine => { w with phase := .auditOpen engine }
  | .error _ => { w with phase := .stopped }

def openAudit (w : RunServe Schema β σ) (engine : Engine Schema β)
    (opened : Option (σ × Bool)) : RunServe Schema β σ :=
  match opened with
  | some (bytes, unterminated) =>
      { w with phase := .provenance engine (.withSink bytes unterminated) }
  | none => { w with phase := .stopped }

def recordBootstrap (w : RunServe Schema β σ) (engine : Engine Schema β)
    (audit : AuditLog σ) (ts : String) : RunServe Schema β σ :=
  { w with
    phase := .registration (Daemon.recordBootstrap serialize
      ⟨⟨engine, serve.config, audit, none⟩, serve.atRisk⟩ engine.snapshot ts) }

/-- An error is logged and skipped; any other event starts a burst. -/
def receive (w : RunServe Schema β σ) (daemon : Daemon Schema β σ) (event : WatchEvent)
    (rest : List WatchEvent) : RunServe Schema β σ :=
  match event with
  | .error _ => { w with channel := rest }
  | .changed => { w with channel := rest, phase := .watching daemon .draining }

def judgeTrust (w : RunServe Schema β σ) (daemon : Daemon Schema β σ) (fs : FsView)
    (times : Times) : RunServe Schema β σ :=
  match refuseUntrustedPolicyDirAs fs daemon.engine.policyDir serve.euid with
  | .error e =>
      { w with
        phase := .watching
          (daemon.record serialize daemon.engine.snapshot.generation
            (.refused e.text) times)
          .receiving }
  | .ok () => { w with phase := .watching daemon .reloading }

def reloadRead (w : RunServe Schema β σ) (daemon : Daemon Schema β σ) (fs : FsView)
    (times : Times) : RunServe Schema β σ :=
  match loadDir x fs daemon.engine.policyDir daemon.engine.schema
      (daemon.engine.snapshot.generation + 1) times.loadedAt with
  | .error e =>
      { w with
        phase := .watching
          (daemon.record serialize daemon.engine.snapshot.generation
            (.failed e.text) times)
          .receiving }
  | .ok loaded => { w with phase := .watching daemon (.storing loaded) }

def store (w : RunServe Schema β σ) (daemon : Daemon Schema β σ)
    (loaded : LoadedPolicies β) (times : Times) : RunServe Schema β σ :=
  let swapped : Daemon Schema β σ :=
    { daemon with
      state :=
        { daemon.state with engine := { daemon.engine with current := loaded } } }
  { w with
    phase := .watching
      (swapped.recordLoaded serialize swapped.engine.snapshot times) .receiving }

/-- The steps that the daemon takes itself, where it is. -/
def daemonStep (w : RunServe Schema β σ) :
    Phase Schema β σ → RunServeStep σ → Option (RunServe Schema β σ)
  | .bootstrap, .bootstrapRead seen now =>
      some (w.bootstrapRead x serve (w.view seen) now)
  | .auditOpen engine, .openAudit opened => some (w.openAudit engine opened)
  | .provenance engine audit, .recordBootstrap ts =>
      some (w.recordBootstrap serialize serve engine audit ts)
  | .registration daemon, .watch registered =>
      some { w with phase := if registered then .watching daemon .receiving
        else .stopped }
  | .watching daemon .receiving, .receive =>
      match w.channel with
      | [] => none
      | event :: rest => some (w.receive daemon event rest)
  | .watching _ .draining, .drain =>
      match w.channel with
      | [] => none
      | _ :: rest => some { w with channel := rest }
  -- quiet for the debounce, or the ceiling: events may still be in the channel
  | .watching daemon .draining, .drained =>
      some { w with loadBegan := w.edits, phase := .watching daemon .judging }
  | .watching daemon .judging, .judgeTrust seen times =>
      some (w.judgeTrust serialize serve daemon (w.view seen) times)
  | .watching daemon .reloading, .reloadRead seen times =>
      some (w.reloadRead x serialize daemon (w.view seen) times)
  | .watching daemon (.storing loaded), .store times =>
      some (w.store serialize daemon loaded times)
  | _, _ => none

def step (w : RunServe Schema β σ) (a : RunServeStep σ) : Option (RunServe Schema β σ) :=
  match a with
  | .edit directory =>
      some
        { w with
          directory
          edits := w.edits + 1
          undelivered := if w.phase.watched then w.undelivered + 1 else w.undelivered }
  | .deliver =>
      if w.undelivered = 0 then none
      else some { w with undelivered := w.undelivered - 1, channel := w.channel ++ [.changed] }
  | .notify event =>
      if w.phase.watched then some { w with channel := w.channel ++ [event] } else none
  | own => w.daemonStep x serialize serve w.phase own

end RunServe

end NonoCedarPdp
