import NonoCedarPdp.WatchStartup

/-!
What becomes of the daemon when its directory is left alone. Watch events may go on: the
watcher's own reads raise some. But the first load attempt that begins after the last
change settles the daemon, and no later one unsettles it.
-/
namespace NonoCedarPdp
open Transition

/-- No change of the directory. What the notifier reports is left open. -/
def RunServe.LeftAlone {Schema β σ : Type} (_ : RunServe Schema β σ) :
    RunServeStep σ → Prop
  | .edit _ => False
  | _ => True

/-- The daemon's own steps and the deliveries of the changes there were: no change, and no
further event. -/
def RunServe.Due {Schema β σ : Type} (_ : RunServe Schema β σ) :
    RunServeStep σ → Prop
  | .edit _ | .notify _ => False
  | _ => True

def RunServeStep.isNotify {σ : Type} : RunServeStep σ → Bool
  | .notify _ => true
  | _ => false

section Work
variable {Schema β σ : Type}

def WatcherThread.work : WatcherThread β → Nat
  | .receiving => 0
  | .draining => 4
  | .judging => 3
  | .reloading => 2
  | .storing _ => 1

def Phase.work : Phase Schema β σ → Nat
  | .bootstrap => 4
  | .auditOpen _ => 3
  | .provenance .. => 2
  | .registration _ => 1
  | .watching _ thread => thread.work
  | .stopped => 0

theorem Phase.work_le (phase : Phase Schema β σ) : phase.work ≤ 4 := by
  cases phase with
  | watching daemon thread =>
      cases thread with
      | receiving | draining | judging | reloading | storing =>
          simp [work, WatcherThread.work]
  | bootstrap | auditOpen | provenance | registration | stopped => simp [work]

/-- An event that is not yet delivered must be put into the channel, and one in the
channel starts at most one burst. -/
def RunServe.work (w : RunServe Schema β σ) : Nat :=
  6 * w.undelivered + 5 * w.channel.length + w.phase.work

end Work

namespace RunServe
variable {Schema β σ : Type} {x : Externals Schema β} {serialize : AuditLog.Serialize}
  {serve : ServeConfig Schema}

/-- What a step that is due leaves: less work, the same directory, and a watcher where
there was one. -/
structure Progress (w t : RunServe Schema β σ) : Prop where
  spent : t.work < w.work
  directory : t.directory = w.directory
  watched : w.phase.watched = true → t.phase.watched = true

/-- A step that only moves on. -/
theorem progress_move {w : RunServe Schema β σ} {next : Phase Schema β σ}
    (spent : next.work < w.phase.work)
    (watched : w.phase.watched = true → next.watched = true) :
    w.Progress { w with phase := next } where
  spent := by
    simp only [work]
    omega
  directory := rfl
  watched := watched

theorem progress_receive {w : RunServe Schema β σ} {daemon : Daemon Schema β σ}
    (phase : w.phase = .watching daemon .receiving) {event : WatchEvent}
    {rest : List WatchEvent} (channel : w.channel = event :: rest) :
      w.Progress (w.receive daemon event rest) := by
  cases event with
  | error e =>
      refine ⟨?_, rfl, id⟩
      simp only [receive, work, channel, List.length_cons]
      omega
  | changed =>
      refine ⟨?_, rfl, fun _ => rfl⟩
      simp only [receive, work, channel, phase, Phase.work, WatcherThread.work,
        List.length_cons]
      omega

theorem progress_drain {w : RunServe Schema β σ} {event : WatchEvent}
    {rest : List WatchEvent} (channel : w.channel = event :: rest) :
      w.Progress { w with channel := rest } where
  spent := by
    simp only [work, channel, List.length_cons]
    omega
  directory := rfl
  watched := id

theorem progress_drained {w : RunServe Schema β σ} {daemon : Daemon Schema β σ}
    (phase : w.phase = .watching daemon .draining) :
    w.Progress { w with loadBegan := w.edits, phase := .watching daemon .judging } where
  spent := by
    simp only [work, phase, Phase.work, WatcherThread.work]
    omega
  directory := rfl
  watched _ := rfl

section
variable [ByteSink σ]

theorem progress_daemonStep {w t : RunServe Schema β σ} {a : RunServeStep σ}
    {phase : Phase Schema β σ} (here : w.phase = phase)
    (taken : w.daemonStep x serialize serve phase a = some t) : w.Progress t := by
  simp only [daemonStep] at taken
  split at taken
  · cases taken
    rw [bootstrapRead]
    split <;> exact progress_move (by simp [here, Phase.work])
      (by simp [here, Phase.watched])
  · cases taken
    rw [openAudit.eq_def]
    split <;> exact progress_move (by simp [here, Phase.work])
      (by simp [here, Phase.watched])
  · cases taken
    exact progress_move (by simp [here, Phase.work]) (by simp [here, Phase.watched])
  · next registered =>
    cases taken
    cases registered with
    | false | true =>
        exact progress_move (by simp [here, Phase.work, WatcherThread.work])
          (by simp [here, Phase.watched])
  · cases channel : w.channel with
    | nil => rw [channel] at taken; cases taken
    | cons event rest =>
        rw [channel] at taken
        cases taken
        exact progress_receive here channel
  · cases channel : w.channel with
    | nil => rw [channel] at taken; cases taken
    | cons event rest =>
        rw [channel] at taken
        cases taken
        exact progress_drain channel
  · cases taken
    exact progress_drained here
  · cases taken
    rw [judgeTrust]
    split <;> exact progress_move (by simp [here, Phase.work, WatcherThread.work])
      (fun _ => rfl)
  · cases taken
    rw [reloadRead]
    split <;> exact progress_move (by simp [here, Phase.work, WatcherThread.work])
      (fun _ => rfl)
  · cases taken
    exact progress_move (by simp [here, Phase.work, WatcherThread.work])
      (fun _ => rfl)
  · cases taken

theorem progress_step {w t : RunServe Schema β σ} {a : RunServeStep σ}
    (due : w.Due a)
    (taken : w.step x serialize serve a = some t) : w.Progress t := by
  cases a with
  | edit directory => cases due
  | notify event => cases due
  | deliver =>
      by_cases none_left : w.undelivered = 0
      · simp [step, none_left] at taken
      · simp only [step, none_left, ↓reduceIte] at taken
        cases taken
        refine ⟨?_, rfl, id⟩
        simp only [work, List.length_append, List.length_singleton]
        omega
  | bootstrapRead | openAudit | recordBootstrap | watch | receive | drain | drained
  | judgeTrust | reloadRead | store => exact progress_daemonStep rfl taken

/-- A daemon that has no step due has stopped, or waits for an event when none is on its
way. -/
theorem waiting_of_stuck {w : RunServe Schema β σ}
    (stuck : Stuck (step x serialize serve) Due w) :
    w.undelivered = 0 ∧ (w.phase = .stopped ∨
      ∃ daemon, w.phase = .watching daemon .receiving ∧ w.channel = []) := by
  constructor
  · by_contra some_left
    have taken : w.step x serialize serve .deliver = none := stuck _ trivial
    simp [step, some_left] at taken
  · have own (a : RunServeStep σ) (due : w.Due a)
        (isOwn : w.step x serialize serve a = w.daemonStep x serialize serve w.phase a) :
        w.daemonStep x serialize serve w.phase a = none :=
      isOwn.symm.trans (stuck a due)
    have times : Times := ⟨0, "", ""⟩
    cases phase : w.phase with
    | stopped => exact .inl rfl
    | bootstrap =>
        have taken := own (.bootstrapRead w.directory 0) trivial rfl
        rw [phase] at taken
        cases taken
    | auditOpen engine =>
        have taken := own (.openAudit none) trivial rfl
        rw [phase] at taken
        cases taken
    | provenance engine audit =>
        have taken := own (.recordBootstrap "") trivial rfl
        rw [phase] at taken
        cases taken
    | registration daemon =>
        have taken := own (.watch false) trivial rfl
        rw [phase] at taken
        cases taken
    | watching daemon thread =>
        cases thread with
        | receiving =>
            refine .inr ⟨daemon, rfl, ?_⟩
            cases channel : w.channel with
            | nil => rfl
            | cons event rest =>
                have taken := own .receive trivial rfl
                simp [phase, daemonStep, channel] at taken
        | draining =>
            have taken := own .drained trivial rfl
            rw [phase] at taken
            cases taken
        | judging =>
            have taken := own (.judgeTrust w.directory times) trivial rfl
            rw [phase] at taken
            cases taken
        | reloading =>
            have taken := own (.reloadRead w.directory times) trivial rfl
            rw [phase] at taken
            cases taken
        | storing loaded =>
            have taken := own (.store times) trivial rfl
            rw [phase] at taken
            cases taken

/-- A step that changes nothing in the directory is due or a further event. -/
theorem leftAlone_cases {w t : RunServe Schema β σ} {a : RunServeStep σ}
    (alone : w.LeftAlone a) (taken : w.step x serialize serve a = some t) :
    w.Due a ∨ ∃ event,
      a = .notify event ∧ t = { w with channel := w.channel ++ [event] } := by
  cases a with
  | edit directory => cases alone
  | notify event =>
      cases watched : w.phase.watched with
      | false => simp [step, watched] at taken
      | true =>
          simp only [step, watched, ↓reduceIte] at taken
          cases taken
          exact .inr ⟨event, rfl, rfl⟩
  | deliver | bootstrapRead | openAudit | recordBootstrap | watch | receive | drain
  | drained | judgeTrust | reloadRead | store => exact .inl trivial

/-- With events that are not due, the work grows: each brings itself and the burst it may
start. -/
theorem work_step {w t : RunServe Schema β σ} {a : RunServeStep σ} (alone : w.LeftAlone a)
    (taken : w.step x serialize serve a = some t) :
    t.work < w.work + if a.isNotify then 6 else 0 := by
  obtain due | ⟨event, rfl, rfl⟩ := leftAlone_cases alone taken
  · have spent := (progress_step due taken).spent
    omega
  · simp only [work, List.length_append, List.length_singleton, RunServeStep.isNotify,
      ↓reduceIte]
    omega

theorem directory_step {w t : RunServe Schema β σ} {a : RunServeStep σ}
    (alone : w.LeftAlone a) (taken : w.step x serialize serve a = some t) :
      t.directory = w.directory := by
  obtain due | ⟨event, rfl, rfl⟩ := leftAlone_cases alone taken
  · exact (progress_step due taken).directory
  · rfl

omit [ByteSink σ] in
theorem quietStart_of_leftAlone {w : RunServe Schema β σ} {a : RunServeStep σ}
    (alone : w.LeftAlone a) : w.QuietStart a := by
  cases a with
  | edit directory => cases alone
  | notify | deliver | bootstrapRead | openAudit | recordBootstrap | watch | receive
  | drain | drained | judgeTrust | reloadRead | store => trivial

/-! ## Settled for good -/

variable (x serve) in
/-- The latest load attempt began after the last change, and an earlier one has settled
the daemon already. -/
structure SettledSince (w : RunServe Schema β σ) : Prop where
  noticed : w.Noticed x serve
  began : w.edits = w.loadBegan
  settled : ∃ daemon thread, w.phase = .watching daemon thread ∧
    Settled x serve.euid w.directory daemon

omit [ByteSink σ] in
/-- An attempt that is over has found the directory as it was left. -/
theorem settledSince_waiting {w : RunServe Schema β σ} (noticed : w.Noticed x serve)
    (began : w.edits = w.loadBegan) {daemon : Daemon Schema β σ}
    (waiting : w.phase = .watching daemon .receiving) : w.SettledSince x serve := by
  have settled := noticed.asOf began
  rw [waiting] at settled
  exact ⟨noticed, began, daemon, .receiving, waiting, settled⟩

theorem settledSince_daemonStep {w t : RunServe Schema β σ}
    (since : w.SettledSince x serve) {a : RunServeStep σ} {phase : Phase Schema β σ}
    (here : w.phase = phase) (taken : w.daemonStep x serialize serve phase a = some t) :
      t.SettledSince x serve := by
  have noticed : t.Noticed x serve := noticed_daemonStep since.noticed here taken
  obtain ⟨noticed₀, began, daemon, thread, watching, settled⟩ := since
  rw [here] at watching
  subst watching
  simp only [daemonStep] at taken
  split at taken
  · next same => cases same
  · next same => cases same
  · next same => cases same
  · next same => cases same
  · next daemon' same =>
    cases same
    cases channel : w.channel with
    | nil => rw [channel] at taken; cases taken
    | cons event rest =>
        rw [channel] at taken
        cases taken
        cases event with
        | error e => exact ⟨noticed, began, daemon, _, here, settled⟩
        | changed => exact ⟨noticed, began, daemon, _, rfl, settled⟩
  · next daemon' same =>
    cases same
    cases channel : w.channel with
    | nil => rw [channel] at taken; cases taken
    | cons event rest =>
        rw [channel] at taken
        cases taken
        exact ⟨noticed, began, daemon, _, here, settled⟩
  · next daemon' same =>
    cases same
    cases taken
    exact ⟨noticed, rfl, daemon, _, rfl, settled⟩
  · next daemon' seen times same =>
    cases same
    cases taken
    cases judged : refuseUntrustedPolicyDirAs
      (w.view seen) daemon.engine.policyDir serve.euid with
    | error e =>
        simp only [judgeTrust, judged] at noticed ⊢
        exact settledSince_waiting noticed began rfl
    | ok done =>
        simp only [judgeTrust, judged] at noticed ⊢
        exact ⟨noticed, began, daemon, _, rfl, settled⟩
  · next daemon' seen times same =>
    cases same
    cases taken
    cases loads : loadDir x (w.view seen) daemon.engine.policyDir daemon.engine.schema
        (daemon.engine.snapshot.generation + 1) times.loadedAt with
    | error e =>
        simp only [reloadRead, loads] at noticed ⊢
        exact settledSince_waiting noticed began rfl
    | ok loaded =>
        simp only [reloadRead, loads] at noticed ⊢
        exact ⟨noticed, began, daemon, _, rfl, settled⟩
  · next daemon' loaded times same =>
    cases same
    cases taken
    exact settledSince_waiting noticed began rfl
  · cases taken

theorem settledSince_step {w t : RunServe Schema β σ} (since : w.SettledSince x serve)
    {a : RunServeStep σ} (alone : w.LeftAlone a)
    (taken : w.step x serialize serve a = some t) : t.SettledSince x serve := by
  have noticed : t.Noticed x serve :=
    noticed_step since.noticed (quietStart_of_leftAlone alone) taken
  cases a with
  | edit directory => cases alone
  | notify event =>
      obtain due | ⟨_, -, rfl⟩ := leftAlone_cases alone taken
      · cases due
      · exact ⟨noticed, since.began, since.settled⟩
  | deliver =>
      by_cases none_left : w.undelivered = 0
      · simp [step, none_left] at taken
      · simp only [step, none_left, ↓reduceIte] at taken
        cases taken
        exact ⟨noticed, since.began, since.settled⟩
  | bootstrapRead | openAudit | recordBootstrap | watch | receive | drain | drained
  | judgeTrust | reloadRead | store => exact settledSince_daemonStep since rfl taken

/-- Without a change, an attempt that sees the directory as it is is followed by such
attempts only, and the end of a drain begins one. -/
theorem began_step {w t : RunServe Schema β σ} {a : RunServeStep σ}
    (alone : w.LeftAlone a) (taken : w.step x serialize serve a = some t)
    (began : w.edits = w.loadBegan ∨ a = .drained) : t.edits = t.loadBegan := by
  have own {phase : Phase Schema β σ}
      (stepped : w.daemonStep x serialize serve phase a = some t) :
        t.edits = t.loadBegan := by
    simp only [daemonStep] at stepped
    split at stepped
    case h_7 =>
      cases stepped
      rfl
    case h_11 => cases stepped
    all_goals have unchanged : w.edits = w.loadBegan := by simpa using began
    · cases stepped
      rw [bootstrapRead]
      split <;> exact unchanged
    · cases stepped
      rw [openAudit.eq_def]
      split <;> exact unchanged
    · cases stepped
      exact unchanged
    · cases stepped
      exact unchanged
    · cases channel : w.channel with
      | nil => rw [channel] at stepped; cases stepped
      | cons event rest =>
          rw [channel] at stepped
          cases stepped
          cases event <;> exact unchanged
    · cases channel : w.channel with
      | nil => rw [channel] at stepped; cases stepped
      | cons event rest =>
          rw [channel] at stepped
          cases stepped
          exact unchanged
    · cases stepped
      rw [judgeTrust]
      split <;> exact unchanged
    · cases stepped
      rw [reloadRead]
      split <;> exact unchanged
    · cases stepped
      exact unchanged
  cases a with
  | edit directory => cases alone
  | notify event =>
      obtain due | ⟨_, -, rfl⟩ := leftAlone_cases alone taken
      · cases due
      · simpa using began
  | deliver =>
      by_cases none_left : w.undelivered = 0
      · simp [step, none_left] at taken
      · simp only [step, none_left, ↓reduceIte] at taken
        cases taken
        simpa using began
  | bootstrapRead | openAudit | recordBootstrap | watch | receive | drain | drained
  | judgeTrust | reloadRead | store => exact own taken

/-- What a continuation of a quiet start keeps. -/
theorem noticed_run {w t : RunServe Schema β σ} (noticed : w.Noticed x serve)
    {later : List (RunServeStep σ)}
    (run : Run (step x serialize serve) LeftAlone w later t) :
    t.Noticed x serve ∧ t.directory = w.directory ∧
      (RunServeStep.drained ∈ later → t.edits = t.loadBegan) := by
  induction run with
  | nil => exact ⟨noticed, rfl, fun mem => by cases mem⟩
  | @snoc later s t a _ alone taken ih =>
      obtain ⟨before, same, began⟩ := ih
      refine ⟨noticed_step before (quietStart_of_leftAlone alone) taken,
        (directory_step alone taken).trans same, fun mem => ?_⟩
      apply began_step alone taken
      obtain earlier | last := List.mem_append.mp mem
      · exact .inl (began earlier)
      · exact .inr (List.mem_singleton.mp last).symm

/-- A daemon that watches goes on to. -/
theorem watched_run {w t : RunServe Schema β σ} (watched : w.phase.watched = true)
    {later : List (RunServeStep σ)}
    (run : Run (step x serialize serve) LeftAlone w later t) :
      t.phase.watched = true := by
  apply run.invariant (I := fun t => t.phase.watched = true)
  · intro s a t before alone taken
    obtain due | ⟨event, -, rfl⟩ := leftAlone_cases alone taken
    · exact (progress_step due taken).watched before
    · exact before
  · exact watched

variable (x serialize serve)

/-- Without further events the daemon comes to a stand. -/
theorem exists_stuck_run (w : RunServe Schema β σ) :
    ∃ own t, Run (step x serialize serve) LeftAlone w own t ∧
      Stuck (step x serialize serve) Due t := by
  obtain ⟨own, t, settles, stuck⟩ :=
    exists_stuck (fun _ _ _ due taken => (progress_step due taken).spent) w
  refine ⟨own, t, settles.mono fun _ a due => ?_, stuck⟩
  cases a with
  | edit | notify => cases due
  | deliver | bootstrapRead | openAudit | recordBootstrap | watch | receive | drain
  | drained | judgeTrust | reloadRead | store => trivial

/-- Once the directory is left alone. The daemon takes boundedly many steps, but for what
further watch events bring, and comes to a stand only where startup has stopped before the
watch or the watcher waits and no event is due. Where the watcher waits, and has drained a
burst since or has no event before it, the daemon is settled on the directory as it was
left, and it stays so through every reload that further events start. -/
theorem settles_when_left_alone (directory : FsView)
    (steps later : List (RunServeStep σ)) (w t : RunServe Schema β σ)
    (run : Run (step x serialize serve) QuietStart (start directory) steps w)
    (continued : Run (step x serialize serve) LeftAlone w later t) :
    later.length ≤ 6 * w.undelivered + 5 * w.channel.length + 4 +
        6 * later.countP RunServeStep.isNotify ∧
      (Stuck (step x serialize serve) Due t →
        t.phase = .stopped ∧ w.phase.watched = false ∨
          ∃ daemon, t.phase = .watching daemon .receiving ∧ t.channel = [] ∧
            t.undelivered = 0) ∧
      ∀ daemon, t.phase = .watching daemon .receiving →
        .drained ∈ later ∨ t.channel = [] ∧ t.undelivered = 0 →
        ∀ further u, Run (step x serialize serve) LeftAlone t further u →
          ∃ daemon thread, u.phase = .watching daemon thread ∧
            Settled x serve.euid w.directory daemon := by
  have noticed : w.Noticed x serve :=
    run.invariant (fun _ _ _ noticed quiet taken => noticed_step noticed quiet taken)
      (noticed_start directory)
  obtain ⟨noticed', same, began⟩ := noticed_run noticed continued
  refine ⟨?_, ?_, ?_⟩
  · have bound :=
      Run.length_le_add (fun _ _ _ alone taken => work_step alone taken) continued
    have here := w.phase.work_le
    simp only [work] at bound
    omega
  · intro stuck
    obtain ⟨delivered, stopped | ⟨daemon, waiting, empty⟩⟩ := waiting_of_stuck stuck
    · refine .inl ⟨stopped, ?_⟩
      cases was : w.phase.watched with
      | false => rfl
      | true =>
          have still := watched_run was continued
          rw [stopped] at still
          cases still
    · exact .inr ⟨daemon, waiting, empty, delivered⟩
  · intro daemon waiting reason further u goesOn
    have unchanged : t.edits = t.loadBegan := by
      obtain drained | ⟨empty, delivered⟩ := reason
      · exact began drained
      · have owed := noticed'.owed (by rw [waiting]; rfl)
        rw [delivered, empty] at owed
        exact Nat.le_antisymm owed noticed'.began
    have since : u.SettledSince x serve ∧ u.directory = t.directory :=
      goesOn.invariant
        (I := fun u => u.SettledSince x serve ∧ u.directory = t.directory)
        (fun _ _ _ ⟨since, kept⟩ alone taken =>
          ⟨settledSince_step since alone taken,
            (directory_step alone taken).trans kept⟩)
        ⟨settledSince_waiting noticed' unchanged waiting, rfl⟩
    obtain ⟨⟨-, -, daemon', thread, watching, settled⟩, kept⟩ := since
    exact ⟨daemon', thread, watching, same ▸ kept ▸ settled⟩

end

/-- After an edit whose event is in the channel the small daemon comes to a stand, is woken
by a read of its own, and comes to a stand again: settled. -/
theorem settles_when_left_alone_small :
    ∃ (w t u : RunServe Unit Unit MemorySink) (own more : List (RunServeStep MemorySink))
      (daemon : Daemon Unit Unit MemorySink),
      w.edits = 1 ∧ Run smallRunStep LeftAlone w own t ∧ t.channel = [] ∧
        Run smallRunStep LeftAlone t ([.notify .changed] ++ more) u ∧
        u.phase = .watching daemon .receiving ∧ u.channel = [] ∧
        Settled smallExternals 501 w.directory daemon := by
  obtain ⟨steps, w, watcher, edited, waiting, channel, delivered, once⟩ :=
    quiet_start_small
  have isWatched : w.phase.watched = true := by rw [waiting]; rfl
  obtain ⟨own, t, settles, stuck⟩ := exists_stuck_run smallExternals
    AuditLog.toJsonLine smallServe w
  have watched := watched_run isWatched settles
  obtain ⟨-, stopped | ⟨-, -, empty⟩⟩ := waiting_of_stuck stuck
  · rw [stopped] at watched
    cases watched
  have notified : smallRunStep t (.notify .changed) =
      some { t with channel := t.channel ++ [.changed] } := by
    simp [smallRunStep, step, watched]
  obtain ⟨more, u, again, stuck'⟩ := exists_stuck_run smallExternals
    AuditLog.toJsonLine smallServe { t with channel := t.channel ++ [.changed] }
  have goesOn : Run smallRunStep LeftAlone t ([.notify .changed] ++ more) u :=
    (Run.single trivial notified).append again
  obtain ⟨-, ends, stays⟩ := settles_when_left_alone smallExternals AuditLog.toJsonLine
    smallServe smallView steps _ w u edited (settles.append goesOn)
  obtain ⟨-, unwatched⟩ | ⟨daemon, receiving, empty', delivered'⟩ := ends stuck'
  · rw [isWatched] at unwatched
    cases unwatched
  · obtain ⟨daemon', thread, watching, settled⟩ :=
      stays daemon receiving (.inr ⟨empty', delivered'⟩) [] u .nil
    rw [receiving] at watching
    cases watching
    exact ⟨w, t, u, own, more, daemon, once, settles, empty, goesOn, receiving, empty',
      settled⟩

end RunServe

end NonoCedarPdp
