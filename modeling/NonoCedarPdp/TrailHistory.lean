import NonoCedarPdp.TrailAttribution

/-!
The history of the active policy set, as the trail and the health endpoint tell it. The
`loaded` lines are the sets that have been active, in order and under consecutive
generations, whatever the handlers and the watcher interleave.
-/
namespace NonoCedarPdp
open Transition

/-- What a `loaded` line says of its set. -/
abbrev Announcement : Type := UInt64 × Option String × Option (List String)

def LoadedPolicies.announcement {β : Type} (set : LoadedPolicies β) : Announcement :=
  (set.generation, some set.contentHash,
    some (set.files.map fun p => controlEscape p.display))

section Trail
variable {β : Type}

def TrailEntry.announcement : TrailEntry β → Option Announcement
  | .decision .. | .rejected _ => none
  | .policySet record =>
      if record.outcome = "loaded" then
        some (record.generation, record.contentHash, record.files)
      else none

/-- The outcome of the load attempt that an entry records. -/
def TrailEntry.attempt : TrailEntry β → Option String
  | .decision .. | .rejected _ => none
  | .policySet record => some record.outcome

def announcements (entries : List (TrailEntry β)) : List Announcement :=
  entries.filterMap TrailEntry.announcement

def attempts (entries : List (TrailEntry β)) : List String :=
  entries.filterMap TrailEntry.attempt

theorem attempts_snoc_none {entries : List (TrailEntry β)} {entry : TrailEntry β}
    (idle : entry.attempt = none) : attempts (entries ++ [entry]) = attempts entries := by
  simp [attempts, idle]

theorem dropLast_tail_attempts_snoc {entries : List (TrailEntry β)} {entry : TrailEntry β}
    {outcome : String} (started : attempts entries ≠ [])
    (attempted : entry.attempt = some outcome) :
    (attempts (entries ++ [entry])).tail.dropLast = (attempts entries).tail := by
  have snoc : attempts (entries ++ [entry]) = attempts entries ++ [outcome] := by
    simp [attempts, attempted]
  rw [snoc, List.tail_append_of_ne_nil started, List.dropLast_concat]

theorem getLast?_tail_attempts_snoc {entries : List (TrailEntry β)} {entry : TrailEntry β}
    {outcome : String} (started : attempts entries ≠ [])
    (attempted : entry.attempt = some outcome) :
    (attempts (entries ++ [entry])).tail.getLast? = some outcome := by
  have snoc : attempts (entries ++ [entry]) = attempts entries ++ [outcome] := by
    simp [attempts, attempted]
  rw [snoc, List.tail_append_of_ne_nil started, List.getLast?_concat]

/-- What an entry says about those before it. The set of a decision is the next to be
announced at the latest; an attempt that adopted nothing names the last announcement. -/
def TrailEntry.Follows (history : List (LoadedPolicies β))
    (before : List (TrailEntry β)) : TrailEntry β → Prop
  | .decision _ producedBy =>
      ∃ i, history[i]? = some producedBy ∧ i ≤ (announcements before).length
  | .rejected _ => True
  | .policySet record =>
      record.outcome ≠ "loaded" →
        ∃ last, (announcements before).getLast? = some last ∧ last.1 = record.generation

theorem TrailEntry.Follows.longer {history : List (LoadedPolicies β)}
    {before : List (TrailEntry β)} {entry : TrailEntry β}
    (follows : entry.Follows history before) (next : LoadedPolicies β) :
    entry.Follows (history ++ [next]) before := by
  cases entry with
  | decision record producedBy =>
      obtain ⟨i, produced, early⟩ := follows
      exact ⟨i, getElem?_of_earlier produced next, early⟩
  | rejected | policySet => exact follows

end Trail

/-! ## What every step preserves -/

section
variable {Schema β : Type} (x : Externals Schema β) (euid : UInt32)

/-- How a set came to be the `i`-th after the bootstrap load of `engine`. -/
structure Adopted (engine : Engine Schema β) (i : Nat)
    (set : LoadedPolicies β) : Prop where
  generation : set.generation = engine.current.generation + UInt64.ofNat i
  accepted : Accepted x engine.schema set
  loaded : 0 < i → ∃ judged seen now,
    refuseUntrustedPolicyDirAs judged engine.policyDir euid = .ok () ∧
      loadDir x seen engine.policyDir engine.schema set.generation now = .ok set

variable {x euid} {engine : Engine Schema β}

/-- A trusted load on top of the `i`-th set adopts the next one. -/
theorem Adopted.next {i : Nat} {set loaded : LoadedPolicies β}
    (before : Adopted x euid engine i set) {judged seen : FsView} {now : Nat}
    (trusted : refuseUntrustedPolicyDirAs judged engine.policyDir euid = .ok ())
    (loads : loadDir x seen engine.policyDir engine.schema (set.generation + 1) now =
      .ok loaded) :
    Adopted x euid engine (i + 1) loaded := by
  obtain ⟨accepted, generation⟩ := loadDir_eq_ok x loads
  refine ⟨?_, accepted, fun _ => ⟨judged, seen, now, trusted, ?_⟩⟩
  · rw [generation, before.generation, UInt64.ofNat_add, UInt64.add_assoc]
    rfl
  · rw [generation]
    exact loads

theorem adopted_snoc {sets : List (LoadedPolicies β)} {next : LoadedPolicies β}
    (adopted : ∀ i set, sets[i]? = some set → Adopted x euid engine i set)
    (last : Adopted x euid engine sets.length next) {i : Nat} {set : LoadedPolicies β}
    (inHistory : (sets ++ [next])[i]? = some set) : Adopted x euid engine i set := by
  by_cases old : i < sets.length
  · rw [List.getElem?_append_left old] at inHistory
    exact adopted i set inHistory
  · rw [List.getElem?_append_right (Nat.le_of_not_lt old),
      List.getElem?_singleton] at inHistory
    split at inHistory
    · cases inHistory
      have first : i = sets.length := by omega
      rw [first]
      exact last
    · cases inHistory

end

namespace Serving
variable {Schema β σ : Type} {x : Externals Schema β} {serialize : AuditLog.Serialize}
  {euid : UInt32} {engine : Engine Schema β}

/-- The outcome that the health status repeats: that of the last attempt in the trail
after the bootstrap load, or, before an attempt's line is followed up, of the one
before. -/
def lastPublished (s : Serving Schema β σ) : Option String :=
  (if s.attempt.unpublished then (attempts s.entries).tail.dropLast
    else (attempts s.entries).tail).getLast?

variable (x euid engine) in
/-- The trail, the history and the health status of a daemon that started from
`engine`. -/
structure Chronicle (s : Serving Schema β σ) : Prop where
  trail : s.daemon.audit.attempted = s.entries.map TrailEntry.line
  schema : s.daemon.engine.schema = engine.schema
  policyDir : s.daemon.engine.policyDir = engine.policyDir
  active : s.history.getLast? = some s.daemon.engine.current
  counts : s.announced + (if s.attempt.unannounced then 1 else 0) = s.history.length
  started : 0 < s.announced
  judged : s.attempt = .trusted →
    ∃ fs, refuseUntrustedPolicyDirAs fs engine.policyDir euid = .ok ()
  recorded : ∀ outcome, s.attempt = .recorded outcome →
    (attempts s.entries).tail.getLast? = some outcome.name
  announced : announcements s.entries =
    (s.history.take s.announced).map LoadedPolicies.announcement
  adopted : ∀ i set, s.history[i]? = some set → Adopted x euid engine i set
  pending : ∀ handler p, s.handlers handler = some p →
    ∃ i, s.history[i]? = some p.producedBy ∧ i ≤ s.announced
  follows : EachAfter (fun before entry => entry.Follows s.history before) s.entries
  status : s.daemon.state.lastReload.map LastReload.outcome = s.lastPublished

theorem Chronicle.length_announcements {s : Serving Schema β σ}
    (told : s.Chronicle x euid engine) :
    (announcements s.entries).length = s.announced := by
  have counts := told.counts
  rw [told.announced, List.length_map, List.length_take]
  omega

/-- The active set is the last of the history. -/
theorem Chronicle.getElem?_active {s : Serving Schema β σ}
    (told : s.Chronicle x euid engine) :
    s.history[s.announced + (if s.attempt.unannounced then 1 else 0) - 1]? =
      some s.daemon.engine.current := by
  rw [told.counts, ← List.getLast?_eq_getElem?]
  exact told.active

/-- The first attempt in the trail is the bootstrap load. -/
theorem Chronicle.attempts_ne_nil {s : Serving Schema β σ}
    (told : s.Chronicle x euid engine) : attempts s.entries ≠ [] := by
  intro none_yet
  have counted := told.length_announcements
  have unannounced : announcements s.entries = [] := by
    rw [announcements, List.filterMap_eq_nil_iff]
    intro entry mem
    have quiet := List.filterMap_eq_nil_iff.mp none_yet entry mem
    cases entry with
    | decision | rejected => rfl
    | policySet record => cases quiet
  rw [unannounced] at counted
  exact absurd told.started (by rw [← counted]; exact Nat.lt_irrefl 0)

/-- A line is appended, and no more is changed than the handlers and the attempt. -/
structure LineAdded (s after : Serving Schema β σ) (entry : TrailEntry β) : Prop where
  trail : after.daemon.audit.attempted = s.daemon.audit.attempted ++ [entry.line]
  engine : after.daemon.engine = s.daemon.engine
  lastReload : after.daemon.state.lastReload = s.daemon.state.lastReload
  history : after.history = s.history
  announced : after.announced = s.announced
  entries : after.entries = s.entries ++ [entry]

/-- A line that announces nothing. -/
theorem Chronicle.snoc {s after : Serving Schema β σ} (told : s.Chronicle x euid engine)
    {entry : TrailEntry β} (added : LineAdded s after entry)
    (quiet : entry.announcement = none) (follows : entry.Follows s.history s.entries)
    (sameUnannounced : after.attempt.unannounced = s.attempt.unannounced)
    (judged : after.attempt = .trusted →
      ∃ fs, refuseUntrustedPolicyDirAs fs engine.policyDir euid = .ok ())
    (recorded : ∀ outcome, after.attempt = .recorded outcome →
      (attempts after.entries).tail.getLast? = some outcome.name)
    (pending : ∀ handler p, after.handlers handler = some p →
      ∃ i, s.history[i]? = some p.producedBy ∧ i ≤ s.announced)
    (status : after.daemon.state.lastReload.map LastReload.outcome =
      after.lastPublished) :
    after.Chronicle x euid engine where
  trail := by rw [added.trail, added.entries, List.map_append, told.trail]; rfl
  schema := by rw [added.engine]; exact told.schema
  policyDir := by rw [added.engine]; exact told.policyDir
  active := by rw [added.history, added.engine]; exact told.active
  counts := by rw [added.announced, sameUnannounced, added.history]; exact told.counts
  started := by rw [added.announced]; exact told.started
  judged := judged
  recorded := recorded
  announced := by
    rw [added.entries, added.history, added.announced, ← told.announced]
    simp [announcements, quiet]
  adopted := by rw [added.history]; exact told.adopted
  pending := by rw [added.history, added.announced]; exact pending
  follows := by rw [added.entries, added.history]; exact told.follows.snoc follows
  status := status

/-- A line that is about no load attempt. -/
theorem Chronicle.snoc_decided {s after : Serving Schema β σ}
    (told : s.Chronicle x euid engine) {entry : TrailEntry β}
    (added : LineAdded s after entry) (quiet : entry.announcement = none)
    (aside : entry.attempt = none) (follows : entry.Follows s.history s.entries)
    (sameAttempt : after.attempt = s.attempt)
    (pending : ∀ handler p, after.handlers handler = some p →
      ∃ i, s.history[i]? = some p.producedBy ∧ i ≤ s.announced) :
    after.Chronicle x euid engine := by
  have sameAttempts : attempts after.entries = attempts s.entries := by
    rw [added.entries, attempts_snoc_none aside]
  apply told.snoc added quiet follows (by rw [sameAttempt])
  · rw [sameAttempt]
    exact told.judged
  · rw [sameAttempt, sameAttempts]
    exact told.recorded
  · exact pending
  · rw [added.lastReload, told.status, lastPublished, lastPublished,
      sameAttempt, sameAttempts]

section
variable [ByteSink σ]

theorem chronicle_start (made : engine.Made x) (config : Config) (bytes : σ)
    (unterminated atRisk : Bool) (ts : String) :
    (start serialize engine config bytes unterminated atRisk ts).Chronicle x
      euid engine where
  trail := rfl
  schema := rfl
  policyDir := rfl
  active := rfl
  counts := rfl
  started := Nat.one_pos
  judged stage := by cases stage
  recorded outcome stage := by cases stage
  announced := rfl
  adopted i set inHistory := by
    obtain ⟨rfl, rfl⟩ : i = 0 ∧ engine.current = set := by
      simpa [start, List.getElem?_singleton] using inHistory
    exact ⟨by simp, Engine.accepted_of_made x made,
      fun later => absurd later (Nat.lt_irrefl 0)⟩
  pending handler p waiting := by cases waiting
  follows := by
    have first := eachAfter_nil fun before (entry : TrailEntry β) =>
      entry.Follows [engine.current] before
    exact first.snoc fun other => absurd rfl other
  status := rfl

omit [ByteSink σ] in
theorem chronicle_evaluate {s : Serving Schema β σ} (told : s.Chronicle x euid engine)
    (handler : Nat) (query : PolicyQuery) (userAgent : Option String) (evalUs : Nat) :
    (s.evaluate x handler query userAgent evalUs).Chronicle x euid engine := by
  refine { told with pending := ?_ }
  intro other p waiting
  obtain old | rfl := pending_of_evaluate waiting
  · exact told.pending other p old
  · refine ⟨_, told.getElem?_active, ?_⟩
    show _ ≤ s.announced
    split <;> simp

theorem chronicle_recordDecision {s : Serving Schema β σ}
    (told : s.Chronicle x euid engine) {handler : Nat} {p : Pending β}
    (waiting : s.handlers handler = some p) (ts : String) :
    (s.recordDecision x serialize handler p ts).Chronicle x euid engine := by
  obtain ⟨i, produced, early⟩ := told.pending handler p waiting
  have added : LineAdded s (s.recordDecision x serialize handler p ts) (.decision
      (AuditLog.decidedRecord x.tables ts p.query p.decision p.userAgent) p.producedBy) :=
    ⟨rfl, rfl, rfl, rfl, rfl, rfl⟩
  refine told.snoc_decided added rfl rfl ⟨i, produced, ?_⟩ rfl fun other q stillWaiting =>
    ?_
  · rw [told.length_announcements]
    exact early
  · exact told.pending other q (pending_of_recordDecision stillWaiting)

theorem chronicle_adoptNothing {s : Serving Schema β σ} (told : s.Chronicle x euid engine)
    (announced : s.attempt.unannounced = false)
    (published : s.attempt.unpublished = false) {outcome : PolicySetOutcome}
    (other : outcome.name ≠ "loaded") (ts : String) :
    (s.adoptNothing serialize outcome ts).Chronicle x euid engine := by
  have current := told.getElem?_active
  simp only [announced, Bool.false_eq_true, ↓reduceIte, Nat.add_zero] at current
  have added : LineAdded s (s.adoptNothing serialize outcome ts) (.policySet
      (AuditLog.policySetRecord ts s.daemon.engine.snapshot.generation
        s.daemon.atRisk outcome)) :=
    ⟨rfl, rfl, rfl, rfl, rfl, rfl⟩
  refine told.snoc added (if_neg other) ?_ announced.symm (fun stage => by cases stage) ?_
    told.pending ?_
  · intro _
    refine ⟨s.daemon.engine.current.announcement, ?_, rfl⟩
    have started := told.started
    rw [told.announced, List.getLast?_map, List.getLast?_take]
    rw [if_neg (by omega), current]
    rfl
  · rintro _ ⟨⟩
    exact getLast?_tail_attempts_snoc told.attempts_ne_nil rfl
  · have status := told.status
    rw [lastPublished, published] at status
    show s.daemon.state.lastReload.map LastReload.outcome =
      (attempts (s.entries ++ [_])).tail.dropLast.getLast?
    rw [dropLast_tail_attempts_snoc told.attempts_ne_nil rfl]
    exact status

omit [ByteSink σ] in
theorem chronicle_swap {s : Serving Schema β σ} (told : s.Chronicle x euid engine)
    (judged : s.attempt = .trusted) {fs : FsView} {now : Nat} {loaded : LoadedPolicies β}
    (loads : loadDir x fs s.daemon.engine.policyDir s.daemon.engine.schema
      (s.daemon.engine.current.generation + 1) now = .ok loaded) :
    (s.swap loaded).Chronicle x euid engine := by
  obtain ⟨trustedView, trusted⟩ := told.judged judged
  have counts := told.counts
  have current := told.getElem?_active
  have status := told.status
  simp only [lastPublished, judged, Attempt.unannounced, Attempt.unpublished,
    Bool.false_eq_true, ↓reduceIte, Nat.add_zero] at counts current status
  rw [told.schema, told.policyDir] at loads
  have next := (told.adopted _ _ current).next trusted loads
  rw [Nat.sub_add_cancel told.started, counts] at next
  refine
    { trail := told.trail
      schema := told.schema
      policyDir := told.policyDir
      active := List.getLast?_concat
      counts := by simpa [swap, Attempt.unannounced] using counts
      started := told.started
      judged := fun stage => by cases stage
      recorded := fun outcome stage => by cases stage
      announced := ?_
      adopted := ?_
      pending := ?_
      follows := ?_
      status := status }
  · rw [swap, List.take_append_of_le_length (Nat.le_of_eq counts)]
    exact told.announced
  · intro i set inHistory
    exact adopted_snoc told.adopted next inHistory
  · intro handler p waiting
    obtain ⟨i, produced, early⟩ := told.pending handler p waiting
    exact ⟨i, getElem?_of_earlier produced _, early⟩
  · exact told.follows.mono fun before entry follows => follows.longer _

theorem chronicle_announce {s : Serving Schema β σ} (told : s.Chronicle x euid engine)
    (owing : s.attempt = .swapped) (ts : String) :
    (s.announce serialize ts).Chronicle x euid engine := by
  have counts := told.counts
  have current := told.getElem?_active
  have status := told.status
  simp only [lastPublished, owing, Attempt.unannounced, Attempt.unpublished,
    Bool.false_eq_true, ↓reduceIte, Nat.add_sub_cancel] at counts current status
  refine
    { trail := ?_
      schema := told.schema
      policyDir := told.policyDir
      active := told.active
      counts := by simpa [announce, Attempt.unannounced] using counts
      started := Nat.succ_pos _
      judged := fun stage => by cases stage
      recorded := ?_
      announced := ?_
      adopted := told.adopted
      pending := ?_
      follows := ?_
      status := ?_ }
  · rw [announce, List.map_append, ← told.trail]
    rfl
  · rintro _ ⟨⟩
    exact getLast?_tail_attempts_snoc told.attempts_ne_nil rfl
  · dsimp only [announce]
    rw [announcements, List.filterMap_append, List.take_add_one, current, List.map_append,
      ← told.announced]
    rfl
  · intro handler p waiting
    obtain ⟨i, produced, early⟩ := told.pending handler p waiting
    exact ⟨i, produced, Nat.le_succ_of_le early⟩
  · apply told.follows.snoc
    intro other
    exact absurd rfl other
  · show s.daemon.state.lastReload.map LastReload.outcome =
      (attempts (s.entries ++ [_])).tail.dropLast.getLast?
    rw [dropLast_tail_attempts_snoc told.attempts_ne_nil rfl]
    exact status

omit [ByteSink σ] in
theorem chronicle_publish {s : Serving Schema β σ} (told : s.Chronicle x euid engine)
    {outcome : PolicySetOutcome} (owing : s.attempt = .recorded outcome)
    (atTime : String) :
    ({ s with daemon := s.daemon.storeLastReload outcome atTime, attempt := .none } :
      Serving Schema β σ).Chronicle x euid engine :=
  { told with
    counts := by simpa [owing, Attempt.unannounced] using told.counts
    judged := fun stage => by cases stage
    recorded := fun outcome stage => by cases stage
    status := (told.recorded outcome owing).symm }

theorem chronicle_moved {s after : Serving Schema β σ} (told : s.Chronicle x euid engine)
    {a : ServingStep} (moved : s.Moved x serialize euid a after) :
    after.Chronicle x euid engine := by
  cases moved with
  | disabled => exact told
  | evaluated query userAgent evalUs idle =>
      exact chronicle_evaluate told _ query userAgent evalUs
  | decided ts waiting => exact chronicle_recordDecision told waiting ts
  | rejected ts context reason userAgent =>
      have added : LineAdded s (s.reject serialize ts context reason userAgent)
          (.rejected (AuditLog.rejectedRecord ts context (.deny reason) userAgent)) :=
        ⟨rfl, rfl, rfl, rfl, rfl, rfl⟩
      exact told.snoc_decided added rfl rfl trivial rfl told.pending
  | refused ts idle refuses =>
      exact chronicle_adoptNothing told (by rw [idle]; rfl) (by rw [idle]; rfl)
        (by simp [PolicySetOutcome.name]) ts
  | trusted ts idle trusts =>
      rw [told.policyDir] at trusts
      exact
        { told with
          counts := by simpa [idle, Attempt.unannounced] using told.counts
          judged := fun _ => ⟨_, trusts⟩
          recorded := fun outcome stage => by cases stage
          status := by
            have status := told.status
            rwa [lastPublished, idle] at status }
  | failed ts judged fails =>
      exact chronicle_adoptNothing told (by rw [judged]; rfl) (by rw [judged]; rfl)
        (by simp [PolicySetOutcome.name]) ts
  | swapped ts judged loads => exact chronicle_swap told judged loads
  | announced ts owing => exact chronicle_announce told owing ts
  | published atTime owing => exact chronicle_publish told owing atTime

theorem chronicle_step {s : Serving Schema β σ} (told : s.Chronicle x euid engine)
    (a : ServingStep) : (s.step x serialize euid a).Chronicle x euid engine :=
  chronicle_moved told (moved_step x serialize euid s a)

theorem chronicle_run (made : engine.Made x) {config : Config} {bytes : σ}
    {unterminated atRisk : Bool} {ts : String} {steps : List ServingStep}
    {s : Serving Schema β σ} (run : Run (total (step x serialize euid)) Always
      (start serialize engine config bytes unterminated atRisk ts) steps s) :
    s.Chronicle x euid engine := by
  apply run.invariant
  · intro s a t told _ taken
    obtain rfl := total_eq_some_iff.mp taken
    exact chronicle_step told a
  · exact chronicle_start made config bytes unterminated atRisk ts

/-- No step takes a set out of the history. -/
theorem history_step (s : Serving Schema β σ) (a : ServingStep) :
    s.history <+: (s.step x serialize euid a).history := by
  have moved := moved_step x serialize euid s a
  generalize s.step x serialize euid a = after at moved
  cases moved with
  | swapped ts judged loads => exact List.prefix_append _ _
  | disabled | evaluated | decided | rejected | refused | trusted | failed | announced
  | published => exact List.prefix_refl _

variable (x serialize euid)

/-- What the health endpoint says agrees with the trail. When it takes the snapshot, it is
of a set with a policy, under the generation of the last `loaded` line or, between a swap
and its line, the next one. When it then reads the status, that is the outcome of the last
attempt after the bootstrap load or, between an attempt's line and the status that follows
it, of the attempt before. -/
theorem health_agrees_with_trail (engine : Engine Schema β) (made : engine.Made x)
    (config : Config) (bytes : σ) (unterminated atRisk : Bool) (ts : String)
    (steps between : List ServingStep) (s t : Serving Schema β σ)
    (run : Run (total (step x serialize euid)) Always
      (start serialize engine config bytes unterminated atRisk ts) steps s)
    (meanwhile : Run (total (step x serialize euid)) Always s between t) :
    let health := healthzAcross x s.daemon.state t.daemon.state
    health.status = .ok ∧ 0 < health.policies ∧
      (∃ last, (announcements s.entries).getLast? = some last ∧
        health.generation = if s.attempt.unannounced then last.1 + 1 else last.1) ∧
      health.lastReload.map LastReload.outcome =
        (if t.attempt.unpublished then (attempts t.entries).tail.dropLast
          else (attempts t.entries).tail).getLast? := by
  have told : s.Chronicle x euid engine := chronicle_run made run
  have later : t.Chronicle x euid engine := chronicle_run made (run.append meanwhile)
  have current := told.getElem?_active
  have loaded : x.crate.numOfPolicies s.daemon.engine.current.set ≠ 0 :=
    (told.adopted _ _ current).accepted.nonempty
  refine ⟨if_neg loaded, Nat.pos_of_ne_zero loaded, ?_, later.status⟩
  obtain ⟨i, next⟩ : ∃ i, s.announced = i + 1 :=
    ⟨_, (Nat.sub_add_cancel told.started).symm⟩
  have inHistory : i < s.history.length := by
    have counts := told.counts
    omega
  have announcedSet := List.getElem?_eq_getElem inHistory
  refine ⟨s.history[i].announcement, ?_, ?_⟩
  · rw [told.announced, List.getLast?_map, List.getLast?_take, next,
      if_neg (Nat.succ_ne_zero i), Nat.add_sub_cancel, announcedSet]
    rfl
  · have last := told.adopted _ _ announcedSet
    have active := told.adopted _ _ current
    show s.daemon.engine.current.generation = _
    cases owing : s.attempt.unannounced with
    | false =>
        rw [next, owing] at current
        have same : s.history[i]? = some s.daemon.engine.current := current
        rw [announcedSet] at same
        rw [← Option.some.inj same]
        rfl
    | true =>
        rw [next, owing] at active
        have generation := active.generation
        show _ = s.history[i].generation + 1
        rw [last.generation, generation, UInt64.add_assoc]
        congr 1
        exact UInt64.ofNat_add i 1

end

/-! ## A run on the small deployment -/

/-- A decision made under the first set is appended between the swap and the second
set's line. -/
def smallOvertaking : List ServingStep :=
  [.evaluate 0 (endpointQuery "/repos") none 12, .judge smallView "1970-01-01T00:00:01Z",
    .reload smallView 1 "1970-01-01T00:00:01Z", .recordDecision 0 "1970-01-01T00:00:02Z",
    .announce "1970-01-01T00:00:02Z"]

/-- The status of the second set is stored between the two reads of a health request. -/
theorem health_agrees_with_trail_small :
    ∃ (engine : Engine Unit Unit) (s t : Serving Unit Unit MemorySink),
      Engine.bootstrap smallExternals smallView () smallDir 0 = .ok engine ∧
        t = s.step smallExternals AuditLog.toJsonLine 501
          (.publish "1970-01-01T00:00:03Z") ∧
        let health := healthzAcross smallExternals s.daemon.state t.daemon.state
        health.status = .ok ∧ health.lastReload.map LastReload.outcome =
          (if t.attempt.unpublished then (attempts t.entries).tail.dropLast
            else (attempts t.entries).tail).getLast? := by
  obtain ⟨engine, started⟩ := Engine.bootstrap_small
  have told := health_agrees_with_trail smallExternals AuditLog.toJsonLine 501 engine
    (.bootstrap smallView () smallDir 0 started) ⟨[("cedar", "claude-code")]⟩
    (⟨[], .none⟩ : MemorySink) false false "1970-01-01T00:00:00Z" smallOvertaking
    [.publish "1970-01-01T00:00:03Z"] _ _ (Run.of_foldl _ _ _) (Run.of_foldl _ _ _)
  exact ⟨engine, _, _, started, rfl, told.1, told.2.2.2⟩

end Serving

end NonoCedarPdp
