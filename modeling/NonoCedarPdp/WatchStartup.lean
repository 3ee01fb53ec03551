import NonoCedarPdp.AuditLines
import NonoCedarPdp.EngineReload
import NonoCedarPdp.RunServe

/-!
Which edits of the policy directory the daemon notices: all of them, from the moment
the watch is registered on, and none that land between the start of the bootstrap load
and that moment.
-/
namespace NonoCedarPdp
open Transition

/-- Where every change since the latest load attempt began must still be noticed. In the
drain the attempt that will see the changes has not begun. -/
def Phase.alert {Schema β σ : Type} : Phase Schema β σ → Bool
  | .watching _ .draining | .stopped => false
  | _ => true

/-- No change of the directory while the daemon starts. -/
def RunServe.QuietStart {Schema β σ : Type} (w : RunServe Schema β σ) :
    RunServeStep σ → Prop
  | .edit _ => w.phase.starting = false
  | _ => True

/-! ## What a settled daemon holds -/

section Settled
variable {Schema β σ : Type} (x : Externals Schema β) (euid : UInt32)

/-- The last line of the trail is the provenance line of this outcome. -/
def LastRecorded (daemon : Daemon Schema β σ) (outcome : PolicySetOutcome) : Prop :=
  ∃ ts, daemon.audit.attempted.getLast? = some (.policySet (AuditLog.policySetRecord ts
    daemon.engine.current.generation daemon.atRisk outcome))

/-- The active set is what the directory loads to, or the trail says why it is not. -/
inductive Settled (directory : FsView) (daemon : Daemon Schema β σ) : Prop
  | loaded (now : Nat)
      (loads : loadDir x directory daemon.engine.policyDir daemon.engine.schema
        daemon.engine.current.generation now = .ok daemon.engine.current)
      (recorded : LastRecorded daemon
        (.loaded daemon.engine.current.contentHash daemon.engine.current.files))
  | refused (e : IsolationError)
      (distrusted : refuseUntrustedPolicyDirAs directory daemon.engine.policyDir euid = .error e)
      (recorded : LastRecorded daemon (.refused e.text))
  | failed (e : PolicyLoadError) (now : Nat)
      (fails : loadDir x directory daemon.engine.policyDir daemon.engine.schema
        (daemon.engine.current.generation + 1) now = .error e)
      (recorded : LastRecorded daemon (.failed e.text))

/-- What a phase owes to the directory, while that is as it was when the load began. -/
def Phase.AsOf (directory : FsView) : Phase Schema β σ → Prop
  | .auditOpen engine | .provenance engine _ =>
      ∃ now, loadDir x directory engine.policyDir engine.schema
        engine.current.generation now =
        .ok engine.current
  | .registration daemon | .watching daemon .receiving => Settled x euid directory daemon
  | .watching daemon (.storing loaded) =>
      ∃ now, loadDir x directory daemon.engine.policyDir daemon.engine.schema
        (daemon.engine.current.generation + 1) now = .ok loaded
  | _ => True

theorem lastRecorded_record [ByteSink σ] (serialize : AuditLog.Serialize)
    (daemon : Daemon Schema β σ) (outcome : PolicySetOutcome) (times : Times) :
    LastRecorded
      (daemon.record serialize daemon.engine.snapshot.generation outcome times) outcome :=
  ⟨times.ts, List.getLast?_concat⟩

end Settled

namespace RunServe
variable {Schema β σ : Type} {x : Externals Schema β} {serialize : AuditLog.Serialize}
  {serve : ServeConfig Schema}

theorem view_of_unchanged {w : RunServe Schema β σ} (unchanged : w.edits = w.loadBegan)
    (seen : FsView) : w.view seen = w.directory :=
  if_pos unchanged

variable (x serve) in
/-- What every step of a quiet start preserves. -/
structure Noticed (w : RunServe Schema β σ) : Prop where
  began : w.loadBegan ≤ w.edits
  quiet : w.phase.starting = true → w.edits = w.loadBegan
  owed : w.phase.alert = true →
    w.edits ≤ w.loadBegan + w.undelivered + w.channel.count .changed
  asOf : w.edits = w.loadBegan → w.phase.AsOf x serve.euid w.directory

theorem noticed_start (directory : FsView) :
    (start (σ := σ) directory).Noticed x serve where
  began := Nat.le_refl 0
  quiet _ := rfl
  owed _ := Nat.zero_le _
  asOf _ := trivial

/-- A step that only moves on. -/
theorem noticed_move {w : RunServe Schema β σ} (noticed : w.Noticed x serve)
    {next : Phase Schema β σ} (starting : next.starting = true → w.phase.starting = true)
    (alert : next.alert = true → w.phase.alert = true)
    (asOf : w.edits = w.loadBegan → next.AsOf x serve.euid w.directory) :
    ({ w with phase := next } : RunServe Schema β σ).Noticed x serve where
  began := noticed.began
  quiet early := noticed.quiet (starting early)
  owed awake := noticed.owed (alert awake)
  asOf := asOf

theorem noticed_edit {w : RunServe Schema β σ} (noticed : w.Noticed x serve)
    (directory : FsView) (quietStart : w.phase.starting = false) :
    ({ w with
        directory
        edits := w.edits + 1
        undelivered := if w.phase.watched then w.undelivered + 1 else w.undelivered } :
      RunServe Schema β σ).Noticed x serve where
  began := Nat.le_succ_of_le noticed.began
  quiet early := by
    have late : w.phase.starting = true := early
    rw [quietStart] at late
    cases late
  owed awake := by
    have watched : w.phase.watched = true := by
      cases phase : w.phase with
      | watching daemon thread => rfl
      | stopped => simp only [phase] at awake; cases awake
      | bootstrap | auditOpen | provenance | registration =>
          rw [phase] at quietStart; cases quietStart
    have before := noticed.owed awake
    simp only [watched, ↓reduceIte]
    omega
  asOf unchanged := by
    have began := noticed.began
    simp only at unchanged
    omega

theorem noticed_deliver {w : RunServe Schema β σ} (noticed : w.Noticed x serve) :
    ({ w with undelivered := w.undelivered - 1, channel := w.channel ++ [.changed] } :
      RunServe Schema β σ).Noticed x serve where
  began := noticed.began
  quiet := noticed.quiet
  owed awake := by
    have before := noticed.owed awake
    simp only [List.count_append, List.count_singleton_self]
    omega
  asOf := noticed.asOf

theorem noticed_notify {w : RunServe Schema β σ} (noticed : w.Noticed x serve)
    (event : WatchEvent) :
    ({ w with channel := w.channel ++ [event] } : RunServe Schema β σ).Noticed x serve where
  began := noticed.began
  quiet := noticed.quiet
  owed awake := by
    have before := noticed.owed awake
    simp only [List.count_append]
    omega
  asOf := noticed.asOf

theorem noticed_receive {w : RunServe Schema β σ} (noticed : w.Noticed x serve)
    {event : WatchEvent} {rest : List WatchEvent} (channel : w.channel = event :: rest)
    (daemon : Daemon Schema β σ) :
    (w.receive daemon event rest).Noticed x serve := by
  cases event with
  | error e =>
      refine ⟨noticed.began, noticed.quiet, fun awake => ?_, noticed.asOf⟩
      have before := noticed.owed awake
      rw [channel, List.count_cons_of_ne (by simp)] at before
      exact before
  | changed =>
      refine ⟨noticed.began, fun early => ?_, fun awake => ?_, fun _ => trivial⟩
      · cases early
      · cases awake

theorem noticed_drain {w : RunServe Schema β σ} (noticed : w.Noticed x serve)
    {daemon : Daemon Schema β σ} (phase : w.phase = .watching daemon .draining)
    (rest : List WatchEvent) :
    ({ w with channel := rest } : RunServe Schema β σ).Noticed x serve where
  began := noticed.began
  quiet := noticed.quiet
  owed awake := by
    simp only [phase] at awake
    cases awake
  asOf := noticed.asOf

/-- When the drain is over a load attempt begins: nothing it will not see is owed. -/
theorem noticed_drained (w : RunServe Schema β σ) (daemon : Daemon Schema β σ) :
    ({ w with loadBegan := w.edits, phase := .watching daemon .judging } :
      RunServe Schema β σ).Noticed x serve where
  began := Nat.le_refl _
  quiet _ := rfl
  owed _ := by
    show w.edits ≤ w.edits + w.undelivered + w.channel.count .changed
    omega
  asOf _ := trivial

theorem noticed_bootstrapRead {w : RunServe Schema β σ} (noticed : w.Noticed x serve)
    (phase : w.phase = .bootstrap) (seen : FsView) (now : Nat) :
    (w.bootstrapRead x serve (w.view seen) now).Noticed x serve := by
  cases made : Engine.bootstrap x (w.view seen) serve.schema serve.policyDir now with
  | error e =>
      simp only [bootstrapRead, made]
      exact noticed_move noticed (fun early => by cases early)
        (fun awake => by cases awake) (fun _ => trivial)
  | ok engine =>
      simp only [bootstrapRead, made]
      apply noticed_move noticed (fun _ => by rw [phase]; rfl)
        (fun _ => by rw [phase]; rfl)
      intro unchanged
      rw [view_of_unchanged unchanged] at made
      obtain ⟨schema, policyDir, loads⟩ := Engine.bootstrap_eq_ok x made
      refine ⟨now, ?_⟩
      rw [schema, policyDir, (loadDir_eq_ok x loads).2]
      exact loads

theorem noticed_openAudit [ByteSink σ] {w : RunServe Schema β σ}
    (noticed : w.Noticed x serve) {engine : Engine Schema β}
    (phase : w.phase = .auditOpen engine) (opened : Option (σ × Bool)) :
    (w.openAudit engine opened).Noticed x serve := by
  cases opened with
  | none =>
      exact noticed_move noticed (fun early => by cases early)
        (fun awake => by cases awake) (fun _ => trivial)
  | some sink =>
      apply noticed_move noticed (fun _ => by rw [phase]; rfl)
        (fun _ => by rw [phase]; rfl)
      intro unchanged
      have loaded := noticed.asOf unchanged
      rw [phase] at loaded
      exact loaded

section
variable [ByteSink σ]

theorem noticed_recordBootstrap {w : RunServe Schema β σ} (noticed : w.Noticed x serve)
    {engine : Engine Schema β} {audit : AuditLog σ}
    (phase : w.phase = .provenance engine audit) (ts : String) :
      (w.recordBootstrap serialize serve engine audit ts).Noticed x serve := by
  apply noticed_move noticed (fun _ => by rw [phase]; rfl) (fun _ => by rw [phase]; rfl)
  intro unchanged
  have loaded := noticed.asOf unchanged
  rw [phase] at loaded
  obtain ⟨now, loads⟩ := loaded
  exact .loaded now loads ⟨ts, List.getLast?_concat⟩

theorem noticed_judgeTrust {w : RunServe Schema β σ} (noticed : w.Noticed x serve)
    {daemon : Daemon Schema β σ} (phase : w.phase = .watching daemon .judging)
    (seen : FsView) (times : Times) :
    (w.judgeTrust serialize serve daemon (w.view seen) times).Noticed x serve := by
  cases judged : refuseUntrustedPolicyDirAs
    (w.view seen) daemon.engine.policyDir serve.euid with
  | ok done =>
      simp only [judgeTrust, judged]
      exact noticed_move noticed (fun early => by cases early)
        (fun _ => by rw [phase]; rfl) (fun _ => trivial)
  | error e =>
      simp only [judgeTrust, judged]
      apply noticed_move noticed (fun early => by cases early)
        (fun _ => by rw [phase]; rfl)
      intro unchanged
      rw [view_of_unchanged unchanged] at judged
      exact .refused e judged (lastRecorded_record serialize daemon _ times)

theorem noticed_reloadRead {w : RunServe Schema β σ} (noticed : w.Noticed x serve)
    {daemon : Daemon Schema β σ} (phase : w.phase = .watching daemon .reloading)
    (seen : FsView) (times : Times) :
    (w.reloadRead x serialize daemon (w.view seen) times).Noticed x serve := by
  cases loads : loadDir x (w.view seen) daemon.engine.policyDir daemon.engine.schema
      (daemon.engine.snapshot.generation + 1) times.loadedAt with
  | ok loaded =>
      simp only [reloadRead, loads]
      apply noticed_move noticed (fun early => by cases early)
        (fun _ => by rw [phase]; rfl)
      intro unchanged
      rw [view_of_unchanged unchanged] at loads
      exact ⟨times.loadedAt, loads⟩
  | error e =>
      simp only [reloadRead, loads]
      apply noticed_move noticed (fun early => by cases early)
        (fun _ => by rw [phase]; rfl)
      intro unchanged
      rw [view_of_unchanged unchanged] at loads
      exact .failed e times.loadedAt loads (lastRecorded_record serialize daemon _ times)

theorem noticed_store {w : RunServe Schema β σ} (noticed : w.Noticed x serve)
    {daemon : Daemon Schema β σ} {loaded : LoadedPolicies β}
    (phase : w.phase = .watching daemon (.storing loaded)) (times : Times) :
    (w.store serialize daemon loaded times).Noticed x serve := by
  apply noticed_move noticed (fun early => by cases early) (fun _ => by rw [phase]; rfl)
  intro unchanged
  have read := noticed.asOf unchanged
  rw [phase] at read
  obtain ⟨now, loads⟩ := read
  have generation : loaded.generation = daemon.engine.current.generation + 1 :=
    (loadDir_eq_ok x loads).2
  refine .loaded now ?_ ⟨times.ts, List.getLast?_concat⟩
  show loadDir x w.directory daemon.engine.policyDir daemon.engine.schema
    loaded.generation now =
    .ok loaded
  rw [generation]
  exact loads

theorem noticed_daemonStep {w t : RunServe Schema β σ} (noticed : w.Noticed x serve)
    {a : RunServeStep σ} {phase : Phase Schema β σ} (here : w.phase = phase)
    (taken : w.daemonStep x serialize serve phase a = some t) : t.Noticed x serve := by
  simp only [daemonStep] at taken
  split at taken
  · cases taken
    exact noticed_bootstrapRead noticed here _ _
  · cases taken
    exact noticed_openAudit noticed here _
  · cases taken
    exact noticed_recordBootstrap noticed here _
  · next daemon registered =>
    cases taken
    cases registered with
    | false =>
        exact noticed_move noticed (fun early => by cases early)
          (fun awake => by cases awake) (fun _ => trivial)
    | true =>
        apply noticed_move noticed (fun early => by cases early)
          (fun _ => by rw [here]; rfl)
        intro unchanged
        have settled := noticed.asOf unchanged
        rw [here] at settled
        exact settled
  · cases channel : w.channel with
    | nil => rw [channel] at taken; cases taken
    | cons event rest =>
        rw [channel] at taken
        cases taken
        exact noticed_receive noticed channel _
  · cases channel : w.channel with
    | nil => rw [channel] at taken; cases taken
    | cons event rest =>
        rw [channel] at taken
        cases taken
        exact noticed_drain noticed here rest
  · cases taken
    exact noticed_drained w _
  · cases taken
    exact noticed_judgeTrust noticed here _ _
  · cases taken
    exact noticed_reloadRead noticed here _ _
  · cases taken
    exact noticed_store noticed here _
  · cases taken

theorem noticed_step {w t : RunServe Schema β σ} (noticed : w.Noticed x serve)
    {a : RunServeStep σ} (quiet : w.QuietStart a)
    (taken : w.step x serialize serve a = some t) : t.Noticed x serve := by
  cases a with
  | edit directory =>
      cases taken
      exact noticed_edit noticed directory quiet
  | deliver =>
      by_cases none_left : w.undelivered = 0
      · simp [step, none_left] at taken
      · simp only [step, none_left, ↓reduceIte] at taken
        cases taken
        exact noticed_deliver noticed
  | notify event =>
      cases watched : w.phase.watched with
      | false => simp [step, watched] at taken
      | true =>
          simp only [step, watched, ↓reduceIte] at taken
          cases taken
          exact noticed_notify noticed event
  | bootstrapRead | openAudit | recordBootstrap | watch | receive | drain | drained
  | judgeTrust | reloadRead | store => exact noticed_daemonStep noticed rfl taken

variable (x serialize serve)

/-- In every run without a change during startup: where the watcher waits on an empty
channel and the notifier has put the event of every change there, the latest load attempt
began after the last change, and the daemon is settled on the directory. -/
theorem no_missed_edit (directory : FsView) (steps : List (RunServeStep σ))
    (w : RunServe Schema β σ)
    (run : Run (step x serialize serve) QuietStart (start directory) steps w)
    (daemon : Daemon Schema β σ) (waiting : w.phase = .watching daemon .receiving)
    (empty : w.channel = []) (delivered : w.undelivered = 0) :
    w.loadBegan = w.edits ∧ Settled x serve.euid w.directory daemon := by
  have noticed : w.Noticed x serve := by
    apply run.invariant
    · intro s a t noticed quiet taken
      exact noticed_step noticed quiet taken
    · exact noticed_start directory
  have unchanged : w.edits = w.loadBegan := by
    have owed := noticed.owed (by rw [waiting]; rfl)
    rw [delivered, empty] at owed
    exact Nat.le_antisymm owed noticed.began
  have settled := noticed.asOf unchanged
  rw [waiting] at settled
  exact ⟨unchanged.symm, settled⟩

/-- A burst that nothing comes between is one turn of the watch loop. -/
theorem run_of_uninterrupted_burst (w : RunServe Schema β σ) {daemon : Daemon Schema β σ}
    (waiting : w.phase = .watching daemon .receiving) (channel : w.channel = [.changed])
    (times : Times) :
    ∃ steps, Run (step x serialize serve) QuietStart w steps
      { w with
        channel := []
        loadBegan := w.edits
        phase := .watching
          (daemon.turn x serialize serve.euid (.burst w.directory times)) .receiving } := by
  have received : w.step x serialize serve .receive =
      some { w with channel := [], phase := .watching daemon .draining } := by
    simp [step, daemonStep, receive, waiting, channel]
  have begun : Run (step x serialize serve) QuietStart w ([] ++ [.receive] ++ [.drained])
      { w with channel := [], loadBegan := w.edits, phase := .watching daemon .judging } :=
    .snoc (.snoc .nil trivial received) trivial rfl
  cases trusted : refuseUntrustedPolicyDirAs w.directory daemon.engine.policyDir serve.euid with
  | error e =>
      refine ⟨_, .snoc begun trivial (a := RunServeStep.judgeTrust w.directory times) ?_⟩
      simp [step, daemonStep, view, judgeTrust, trusted, Daemon.turn, Daemon.afterBurst]
  | ok done =>
      have judged : Run (step x serialize serve) QuietStart w
          ([] ++ [.receive] ++ [.drained] ++ [.judgeTrust w.directory times])
          { w with channel := [], loadBegan := w.edits, phase := .watching daemon .reloading } := by
        refine .snoc begun trivial ?_
        simp [step, daemonStep, view, judgeTrust, trusted]
      cases loads : loadDir x w.directory daemon.engine.policyDir daemon.engine.schema
          (daemon.engine.current.generation + 1) times.loadedAt with
      | error e =>
          refine ⟨_, .snoc judged trivial
            (a := RunServeStep.reloadRead w.directory times) ?_⟩
          simp [step, daemonStep, view, reloadRead, Engine.snapshot, loads, Daemon.turn,
            Daemon.afterBurst, trusted, Daemon.reload_of_fails loads]
      | ok loaded =>
          have read : Run (step x serialize serve) QuietStart w
              ([] ++ [.receive] ++ [.drained] ++ [.judgeTrust w.directory times] ++
                [.reloadRead w.directory times])
              { w with
                channel := []
                loadBegan := w.edits
                phase := .watching daemon (.storing loaded) } := by
            refine .snoc judged trivial ?_
            simp [step, daemonStep, view, reloadRead, Engine.snapshot, loads]
          refine ⟨_, .snoc read trivial (a := RunServeStep.store times) ?_⟩
          simp [step, daemonStep, store, Daemon.turn, Daemon.afterBurst, trusted,
            Daemon.reload_of_loads loads]

/-! ## The window -/

/-- Before the watch is registered nothing is noticed. -/
def Unwatched (w : RunServe Schema β σ) : Prop :=
  w.phase.starting = true → w.loadBegan = 0 ∧ w.undelivered = 0 ∧ w.channel = []

/-- Until the watch is registered the daemon's own steps neither begin another load nor
touch the channel. -/
theorem daemonStep_starting {w t : RunServe Schema β σ} {phase : Phase Schema β σ}
    (here : w.phase = phase) {a : RunServeStep σ}
    (taken : w.daemonStep x serialize serve phase a = some t)
    (early : t.phase.starting = true) :
    phase.starting = true ∧ t.loadBegan = w.loadBegan ∧ t.undelivered = w.undelivered ∧
      t.channel = w.channel := by
  simp only [daemonStep] at taken
  split at taken
  · cases taken
    rw [bootstrapRead]
    split <;> exact ⟨rfl, rfl, rfl, rfl⟩
  · cases taken
    simp only [openAudit]
    split <;> exact ⟨rfl, rfl, rfl, rfl⟩
  · cases taken
    exact ⟨rfl, rfl, rfl, rfl⟩
  -- from here on the step leads to a watching or a stopped daemon
  · next daemon registered =>
    cases taken
    cases registered <;> cases early
  · cases channel : w.channel with
    | nil => rw [channel] at taken; cases taken
    | cons event rest =>
        rw [channel] at taken
        cases taken
        cases event with
        | error e =>
            simp only [receive, here] at early
            cases early
        | changed => cases early
  · cases channel : w.channel with
    | nil => rw [channel] at taken; cases taken
    | cons event rest =>
        rw [channel] at taken
        cases taken
        simp only [here] at early
        cases early
  · cases taken
    cases early
  · cases taken
    rw [judgeTrust] at early
    split at early <;> cases early
  · cases taken
    rw [reloadRead] at early
    split at early <;> cases early
  · cases taken
    cases early
  · cases taken

theorem unwatched_step {w t : RunServe Schema β σ} (unwatched : w.Unwatched)
    {a : RunServeStep σ} (taken : w.step x serialize serve a = some t) : t.Unwatched := by
  intro early
  cases a with
  | edit directory =>
      cases taken
      have before := unwatched early
      have unseen : w.phase.watched = false := by
        cases phase : w.phase with
        | watching => simp only [phase] at early; cases early
        | bootstrap | auditOpen | provenance | registration | stopped => rfl
      simp only [unseen, Bool.false_eq_true, ↓reduceIte]
      exact before
  | deliver =>
      by_cases none_left : w.undelivered = 0
      · simp [step, none_left] at taken
      · simp only [step, none_left, ↓reduceIte] at taken
        cases taken
        exact absurd (unwatched early).2.1 none_left
  | notify event =>
      cases watched : w.phase with
      | watching daemon thread =>
          simp only [step, watched, Phase.watched, ↓reduceIte] at taken
          cases taken
          dsimp only at early
          cases early
      | bootstrap | auditOpen | provenance | registration | stopped =>
          simp [step, watched, Phase.watched] at taken
  | bootstrapRead | openAudit | recordBootstrap | watch | receive | drain | drained
  | judgeTrust | reloadRead | store =>
      obtain ⟨before, began, undelivered, channel⟩ :=
        daemonStep_starting x serialize serve rfl taken early
      rw [began, undelivered, channel]
      exact unwatched before

/-- A change between the start of the bootstrap load and the registration of the watch is
missed: the watcher then waits, nothing is on its way, and no load began after the
change. -/
theorem edit_in_window_is_missed {directory : FsView} {steps : List (RunServeStep σ)}
    {w : RunServe Schema β σ}
    (run : Run (step x serialize serve) Always (start directory) steps w)
    {daemon : Daemon Schema β σ} (registering : w.phase = .registration daemon)
    (edited : 0 < w.edits) :
    ∃ t, w.step x serialize serve (.watch true) = some t ∧
      t.phase = .watching daemon .receiving ∧ t.channel = [] ∧ t.undelivered = 0 ∧
      t.loadBegan < t.edits := by
  have unwatched : w.Unwatched := by
    apply run.invariant
    · intro s a t unwatched _ taken
      exact unwatched_step x serialize serve unwatched taken
    · exact fun _ => ⟨rfl, rfl, rfl⟩
  obtain ⟨began, undelivered, channel⟩ := unwatched (by rw [registering]; rfl)
  refine ⟨{ w with phase := .watching daemon .receiving }, ?_, rfl, channel,
    undelivered, ?_⟩
  · simp [step, daemonStep, registering]
  · show w.loadBegan < w.edits
    rw [began]
    exact edited

end

/-! ## Runs on the small deployment -/

def smallServe : ServeConfig Unit :=
  ⟨(), smallDir, ⟨[("cedar", "claude-code")]⟩, false, 501⟩

def smallRunStep : RunServe Unit Unit MemorySink → RunServeStep MemorySink →
    Option (RunServe Unit Unit MemorySink) :=
  step smallExternals AuditLog.toJsonLine smallServe

def smallStarting : RunServe Unit Unit MemorySink := start smallView

/-- The directory after an edit that turns its permit into a forbid. -/
def forbidView : FsView :=
  { smallView with
    readToString := fun p =>
      if p = smallDir.push (Utf8.encode "base.cedar") then
        .ok "forbid (principal, action, resource);"
      else .error ⟨.notFound, "No such file or directory (os error 2)"⟩ }

theorem bootstrapRead_small :
    ∃ engine : Engine Unit Unit, smallRunStep smallStarting (.bootstrapRead smallView 0) =
      some { smallStarting with phase := .auditOpen engine } := by
  obtain ⟨engine, started⟩ := Engine.bootstrap_small
  refine ⟨engine, ?_⟩
  simp [smallRunStep, step, daemonStep, smallStarting, start, bootstrapRead, view,
    smallServe, started]

/-- A quiet start, and an edit whose event is in the channel. -/
theorem quiet_start_small :
    ∃ (steps : List (RunServeStep MemorySink)) (w : RunServe Unit Unit MemorySink)
      (daemon : Daemon Unit Unit MemorySink),
      Run smallRunStep QuietStart smallStarting steps w ∧
      w.phase = .watching daemon .receiving ∧
        w.channel = [.changed] ∧ w.undelivered = 0 ∧ w.edits = 1 := by
  obtain ⟨engine, read⟩ := bootstrapRead_small
  exact ⟨_, _, _, .snoc (.snoc (.snoc (.snoc (.snoc (.snoc
    .nil (a := RunServeStep.bootstrapRead smallView 0) trivial read)
    (a := RunServeStep.openAudit (some (⟨[], .none⟩, false))) trivial rfl)
    (a := RunServeStep.recordBootstrap "1970-01-01T00:00:00Z") trivial rfl)
    (a := RunServeStep.watch true) trivial rfl)
    (a := RunServeStep.edit smallView) rfl rfl)
    (a := RunServeStep.deliver) trivial rfl, rfl, rfl, rfl, rfl⟩

/-- The burst that the edit sets off. -/
theorem no_missed_edit_small :
    ∃ (w : RunServe Unit Unit MemorySink) (daemon : Daemon Unit Unit MemorySink),
      w.phase = .watching daemon .receiving ∧ w.edits = 1 ∧ w.loadBegan = w.edits ∧
        Settled smallExternals 501 w.directory daemon := by
  obtain ⟨steps, w, daemon, edited, waiting, channel, delivered, once⟩ :=
    quiet_start_small
  obtain ⟨later, burst⟩ :=
    run_of_uninterrupted_burst smallExternals AuditLog.toJsonLine smallServe
      w waiting channel ⟨1, "1970-01-01T00:00:01Z", "1970-01-01T00:00:01Z"⟩
  have settled :=
    no_missed_edit smallExternals AuditLog.toJsonLine smallServe smallView _ _
      (edited.append burst) _ rfl rfl delivered
  refine ⟨_, _, ?_, ?_, settled⟩
  · rfl
  · exact once

/-- A bootstrap load with an edit before the audit log is opened. -/
theorem edited_start_small :
    ∃ (steps : List (RunServeStep MemorySink)) (w : RunServe Unit Unit MemorySink)
      (daemon : Daemon Unit Unit MemorySink),
      Run smallRunStep Always smallStarting steps w ∧ w.phase = .registration daemon ∧
        w.edits = 1 := by
  obtain ⟨engine, read⟩ := bootstrapRead_small
  exact ⟨_, _, _, .snoc (.snoc (.snoc (.snoc .nil trivial read)
    (a := RunServeStep.edit forbidView) trivial rfl)
    (a := RunServeStep.openAudit (some (⟨[], .none⟩, false))) trivial rfl)
    (a := RunServeStep.recordBootstrap "1970-01-01T00:00:00Z") trivial rfl, rfl, rfl⟩

/-- The policy is edited after it was read and before the watch is registered: the daemon
waits for an event that never comes. -/
theorem edit_during_startup_is_missed :
    ∃ (steps : List (RunServeStep MemorySink)) (w : RunServe Unit Unit MemorySink)
      (daemon : Daemon Unit Unit MemorySink),
      Run smallRunStep Always smallStarting steps w ∧
      w.phase = .watching daemon .receiving ∧
        w.channel = [] ∧ w.undelivered = 0 ∧ ¬ w.loadBegan = w.edits := by
  obtain ⟨steps, w, daemon, run, registering, edited⟩ := edited_start_small
  obtain ⟨t, taken, waiting, empty, delivered, missed⟩ :=
    edit_in_window_is_missed _ _ _ run registering (by rw [edited]; exact Nat.one_pos)
  exact ⟨_, t, daemon, .snoc run trivial taken, waiting, empty, delivered,
    Nat.ne_of_lt missed⟩

end RunServe

end NonoCedarPdp
