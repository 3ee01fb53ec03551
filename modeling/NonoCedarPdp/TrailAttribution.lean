import NonoCedarPdp.AuditLines
import NonoCedarPdp.EngineReload
import NonoCedarPdp.Serving

/-!
Which policy set made a decision, read off the trail: the most recent `loaded` line
before a decision names the set that produced it, as long as the decision is appended
after its own set is announced and before the next one is.
-/
namespace NonoCedarPdp
open Transition

/-- The most recent `loaded` line, after this entry. -/
def TrailEntry.latest {β : Type} (last : Option PolicySetRecord) :
    TrailEntry β → Option PolicySetRecord
  | .decision .. | .rejected _ => last
  | .policySet record => if record.outcome = "loaded" then some record else last

section Attribution
variable {β : Type}

def lastLoadedFrom (last : Option PolicySetRecord) (entries : List (TrailEntry β)) :
    Option PolicySetRecord :=
  entries.foldl TrailEntry.latest last

def lastLoaded (entries : List (TrailEntry β)) : Option PolicySetRecord :=
  lastLoadedFrom none entries

/-- The line names the generation and the content hash of the set. -/
def Names (last : Option PolicySetRecord) (set : LoadedPolicies β) : Prop :=
  last.map (fun line => (line.generation, line.contentHash)) =
    some (set.generation, some set.contentHash)

instance (last : Option PolicySetRecord) (set : LoadedPolicies β) :
    Decidable (Names last set) :=
  inferInstanceAs (Decidable (_ = _))

/-- The most recent `loaded` line before a decision line names the set that produced
it. -/
def TrailEntry.Attributed (before : List (TrailEntry β)) : TrailEntry β → Prop
  | .decision _ producedBy => Names (lastLoaded before) producedBy
  | .rejected _ | .policySet _ => True

/-- So it is for every decision line. -/
def Attributed (entries : List (TrailEntry β)) : Prop :=
  EachAfter (fun before entry => entry.Attributed before) entries

theorem getElem?_of_earlier {sets : List (LoadedPolicies β)} {i : Nat}
    {set : LoadedPolicies β} (earlier : sets[i]? = some set) (next : LoadedPolicies β) :
    (sets ++ [next])[i]? = some set := by
  rw [List.getElem?_append_left (List.getElem?_eq_some_iff.mp earlier).1]
  exact earlier

theorem lastLoaded_snoc (entries : List (TrailEntry β)) (entry : TrailEntry β) :
    lastLoaded (entries ++ [entry]) = entry.latest (lastLoaded entries) := by
  simp [lastLoaded, lastLoadedFrom]

/-- The line of a set names it, whatever stood before. -/
theorem names_announcement (ts : String) (atRisk : Bool) (set : LoadedPolicies β)
    (last : Option PolicySetRecord) :
    Names ((TrailEntry.policySet (β := β)
      (AuditLog.policySetRecord ts set.generation atRisk
        (.loaded set.contentHash set.files))).latest last) set := rfl

/-- The line of an attempt that adopted nothing leaves the last announcement. -/
theorem latest_of_adoptsNothing (ts : String) (generation : UInt64) (atRisk : Bool)
    {outcome : PolicySetOutcome} (other : outcome.name ≠ "loaded")
    (last : Option PolicySetRecord) :
    (TrailEntry.policySet (β := β)
      (AuditLog.policySetRecord ts generation atRisk outcome)).latest last = last :=
  if_neg other

/-- One pass over the trail that checks attribution. -/
def attributedFrom (last : Option PolicySetRecord) : List (TrailEntry β) → Bool
  | [] => true
  | .decision _ producedBy :: rest =>
      decide (Names last producedBy) && attributedFrom last rest
  | entry :: rest => attributedFrom (entry.latest last) rest

theorem attributedFrom_of_names {entries : List (TrailEntry β)}
    {last : Option PolicySetRecord} (h : ∀ pre record producedBy post,
      entries = pre ++ .decision record producedBy :: post →
      Names (lastLoadedFrom last pre) producedBy) :
        attributedFrom last entries = true := by
  induction entries generalizing last with
  | nil => rfl
  | cons entry rest ih =>
      have later : ∀ pre record producedBy post,
          rest = pre ++ .decision record producedBy :: post →
          Names (lastLoadedFrom (entry.latest last) pre) producedBy := by
        intro pre record producedBy post split
        exact h (entry :: pre) record producedBy post (by rw [split]; rfl)
      cases entry with
      | rejected | policySet => exact ih later
      | decision record producedBy =>
          have first : Names last producedBy := h [] record producedBy rest rfl
          simp only [attributedFrom, decide_eq_true first, Bool.true_and]
          exact ih later

theorem attributedFrom_of_attributed {entries : List (TrailEntry β)}
    (attributed : Attributed entries) : attributedFrom none entries = true :=
  attributedFrom_of_names fun pre record producedBy post split =>
    attributed pre (.decision record producedBy) post split

end Attribution

/-! ## Runs in step -/

namespace Serving
variable {Schema β σ : Type}

/-- A decision line is appended while the last announcement is that of the set the
handler loaded: as many sets were announced by then as had been active when it loaded. -/
def InStep (s : Serving Schema β σ) : ServingStep → Prop
  | .recordDecision handler _ => ∀ p, s.handlers handler = some p → p.seen = s.announced
  | _ => True

instance (s : Serving Schema β σ) (a : ServingStep) : Decidable (s.InStep a) :=
  match a with
  | .recordDecision handler _ =>
      inferInstanceAs
        (Decidable (∀ p, s.handlers handler = some p → p.seen = s.announced))
  | .evaluate .. | .reject .. | .judge .. | .reload .. | .announce _ | .publish _ =>
      inferInstanceAs (Decidable True)

/-- What every step in step preserves. -/
structure Coherent (s : Serving Schema β σ) : Prop where
  trail : s.daemon.audit.attempted = s.entries.map TrailEntry.line
  active : s.history.getLast? = some s.daemon.engine.current
  counts : s.announced + (if s.attempt.unannounced then 1 else 0) = s.history.length
  started : 0 < s.announced
  latest : ∃ set, s.history[s.announced - 1]? = some set ∧
    Names (lastLoaded s.entries) set
  pending : ∀ handler p, s.handlers handler = some p →
    0 < p.seen ∧ s.history[p.seen - 1]? = some p.producedBy
  attributed : Attributed s.entries

section
variable [ByteSink σ] {x : Externals Schema β} {serialize : AuditLog.Serialize}
  {euid : UInt32}

theorem coherent_start (engine : Engine Schema β) (config : Config) (bytes : σ)
    (unterminated atRisk : Bool) (ts : String) :
    (start serialize engine config bytes unterminated atRisk ts).Coherent where
  trail := rfl
  active := rfl
  counts := rfl
  started := Nat.one_pos
  latest := ⟨engine.current, rfl, names_announcement ts atRisk engine.current none⟩
  pending handler p waiting := by cases waiting
  attributed := (eachAfter_nil _).snoc trivial

omit [ByteSink σ] in
theorem coherent_evaluate {s : Serving Schema β σ} (coherent : s.Coherent) (handler : Nat)
    (query : PolicyQuery) (userAgent : Option String) (evalUs : Nat) :
    (s.evaluate x handler query userAgent evalUs).Coherent := by
  refine { coherent with pending := ?_ }
  intro other p waiting
  obtain old | rfl := pending_of_evaluate waiting
  · exact coherent.pending other p old
  · have last := coherent.active
    rw [List.getLast?_eq_getElem?] at last
    refine ⟨?_, last⟩
    have counts := coherent.counts
    have started := coherent.started
    show 0 < s.history.length
    omega

theorem coherent_recordDecision {s : Serving Schema β σ} (coherent : s.Coherent)
    {handler : Nat} {p : Pending β} (waiting : s.handlers handler = some p)
    (inStep : p.seen = s.announced) (ts : String) :
      (s.recordDecision x serialize handler p ts).Coherent := by
  obtain ⟨set, announcedSet, names⟩ := coherent.latest
  have named : Names (lastLoaded s.entries) p.producedBy := by
    have produced := (coherent.pending handler p waiting).2
    rw [inStep, announcedSet] at produced
    cases produced
    exact names
  refine
    { trail := ?_
      active := coherent.active
      counts := coherent.counts
      started := coherent.started
      latest := ?_
      pending := ?_
      attributed := coherent.attributed.snoc named }
  · rw [recordDecision, List.map_append, ← coherent.trail]
    rfl
  · rw [recordDecision, lastLoaded_snoc]
    exact ⟨set, announcedSet, names⟩
  · exact fun other q stillWaiting =>
      coherent.pending other q (pending_of_recordDecision stillWaiting)

omit [ByteSink σ] in
/-- A line that is no decision and announces nothing. -/
theorem coherent_of_snoc {s after : Serving Schema β σ} (coherent : s.Coherent)
    (entry : TrailEntry β)
    (trail : after.daemon.audit.attempted = s.daemon.audit.attempted ++ [entry.line])
    (entries : after.entries = s.entries ++ [entry])
    (quiet : entry.latest (lastLoaded s.entries) = lastLoaded s.entries)
    (undecided : entry.Attributed s.entries)
    (current : after.daemon.engine.current = s.daemon.engine.current)
    (handlers : after.handlers = s.handlers)
    (unannounced : after.attempt.unannounced = s.attempt.unannounced)
    (history : after.history = s.history) (announced : after.announced = s.announced) :
    after.Coherent where
  trail := by rw [trail, entries, List.map_append, coherent.trail]; rfl
  active := by rw [history, current]; exact coherent.active
  counts := by rw [announced, unannounced, history]; exact coherent.counts
  started := by rw [announced]; exact coherent.started
  latest := by rw [history, announced, entries, lastLoaded_snoc, quiet]; exact coherent.latest
  pending := by rw [handlers, history]; exact coherent.pending
  attributed := by rw [entries]; exact coherent.attributed.snoc undecided

theorem coherent_adoptNothing {s : Serving Schema β σ} (coherent : s.Coherent)
    (announced : s.attempt.unannounced = false) {outcome : PolicySetOutcome}
    (other : outcome.name ≠ "loaded") (ts : String) :
    (s.adoptNothing serialize outcome ts).Coherent :=
  coherent_of_snoc coherent _ rfl rfl
    (latest_of_adoptsNothing _ _ _ other _) trivial rfl rfl announced.symm rfl rfl

omit [ByteSink σ] in
theorem coherent_swap {s : Serving Schema β σ} (coherent : s.Coherent)
    (announced : s.attempt.unannounced = false) (loaded : LoadedPolicies β) :
    (s.swap loaded).Coherent := by
  have counts := coherent.counts
  rw [announced] at counts
  refine
    { trail := coherent.trail
      active := List.getLast?_concat
      counts := ?_
      started := coherent.started
      latest := ?_
      pending := ?_
      attributed := coherent.attributed }
  · simpa [swap, Attempt.unannounced] using counts
  · obtain ⟨set, announcedSet, names⟩ := coherent.latest
    exact ⟨set, getElem?_of_earlier announcedSet _, names⟩
  · intro handler p waiting
    have before := coherent.pending handler p waiting
    exact ⟨before.1, getElem?_of_earlier before.2 _⟩

theorem coherent_announce {s : Serving Schema β σ} (coherent : s.Coherent)
    (owing : s.attempt = .swapped) (ts : String) :
      (s.announce serialize ts).Coherent := by
  have counts := coherent.counts
  rw [owing] at counts
  have last := coherent.active
  rw [List.getLast?_eq_getElem?, ← counts] at last
  refine
    { trail := ?_
      active := coherent.active
      counts := by simpa [announce, Attempt.unannounced] using counts
      started := Nat.succ_pos _
      latest := ⟨s.daemon.engine.current, last, ?_⟩
      pending := coherent.pending
      attributed := coherent.attributed.snoc trivial }
  · rw [announce, List.map_append, ← coherent.trail]
    rfl
  · rw [announce, lastLoaded_snoc]
    exact names_announcement _ _ _ _

theorem coherent_moved {s after : Serving Schema β σ} (coherent : s.Coherent)
    {a : ServingStep} (inStep : s.InStep a) (moved : s.Moved x serialize euid a after) :
      after.Coherent := by
  cases moved with
  | disabled => exact coherent
  | evaluated query userAgent evalUs idle =>
      exact coherent_evaluate coherent _ query userAgent evalUs
  | decided ts waiting =>
      exact coherent_recordDecision coherent waiting (inStep _ waiting) ts
  | rejected ts context reason userAgent =>
      exact coherent_of_snoc coherent
        (.rejected _) rfl rfl rfl trivial rfl rfl rfl rfl rfl
  | refused ts idle refuses =>
      exact coherent_adoptNothing coherent (by rw [idle]; rfl)
        (by simp [PolicySetOutcome.name]) ts
  | trusted ts idle trusts =>
      exact { coherent with counts := by simpa [idle,
        Attempt.unannounced] using coherent.counts }
  | failed ts judged fails =>
      exact coherent_adoptNothing coherent (by rw [judged]; rfl)
        (by simp [PolicySetOutcome.name]) ts
  | swapped ts judged loads => exact coherent_swap coherent (by rw [judged]; rfl) _
  | announced ts owing => exact coherent_announce coherent owing ts
  | published atTime owing =>
      exact { coherent with counts := by simpa [owing,
        Attempt.unannounced] using coherent.counts }

/-- With any number of handlers, reloads and interleavings: as long as every decision line
is appended after its own set is announced and before the next one is, the most recent
`loaded` line before it names the set that produced the decision. -/
theorem trail_attribution (engine : Engine Schema β) (config : Config) (bytes : σ)
    (unterminated atRisk : Bool) (ts : String) (steps : List ServingStep)
    (s : Serving Schema β σ) (run : Run (total (step x serialize euid)) InStep
      (start serialize engine config bytes unterminated atRisk ts) steps s) :
    s.daemon.audit.attempted = s.entries.map TrailEntry.line ∧ Attributed s.entries := by
  have coherent : s.Coherent := by
    apply run.invariant
    · intro s a t coherent inStep taken
      obtain rfl := total_eq_some_iff.mp taken
      exact coherent_moved coherent inStep (moved_step x serialize euid s a)
    · exact coherent_start engine config bytes unterminated atRisk ts
  exact ⟨coherent.trail, coherent.attributed⟩

end

/-! ## Runs on the small deployment -/

def smallStart : Serving Unit Unit MemorySink :=
  start AuditLog.toJsonLine smallEngine ⟨[("cedar", "claude-code")]⟩
    ⟨[], .none⟩ false false "1970-01-01T00:00:00Z"

def smallStep : Serving Unit Unit MemorySink → ServingStep →
    Serving Unit Unit MemorySink :=
  step smallExternals AuditLog.toJsonLine 501

/-- Two handlers, one on either side of a reload. -/
theorem trail_attribution_small :
    ∃ s : Serving Unit Unit MemorySink, s.entries.length = 4 ∧
      s.daemon.audit.attempted = s.entries.map TrailEntry.line ∧
      Attributed s.entries := by
  have run : Run (total smallStep) InStep smallStart _ _ :=
    .snoc (.snoc (.snoc (.snoc (.snoc (.snoc (.snoc (.snoc
      .nil (a := ServingStep.evaluate 0 (endpointQuery "/repos") none 12) trivial rfl)
      (a := ServingStep.recordDecision 0 "1970-01-01T00:00:01Z") (by decide +kernel) rfl)
      (a := ServingStep.judge smallView "1970-01-01T00:00:01Z") trivial rfl)
      (a := ServingStep.reload smallView 1 "1970-01-01T00:00:01Z") trivial rfl)
      (a := ServingStep.announce "1970-01-01T00:00:01Z") trivial rfl)
      (a := ServingStep.publish "1970-01-01T00:00:01Z") trivial rfl)
      (a := ServingStep.evaluate 1 (endpointQuery "/repos") none 12) trivial rfl)
      (a := ServingStep.recordDecision 1 "1970-01-01T00:00:02Z") (by decide +kernel) rfl
  exact ⟨_, by decide +kernel, trail_attribution _ _ _ _ _ _ _ _ run⟩

/-- A handler evaluates under the first set, the second one is stored and announced, and
only then is the decision appended. -/
theorem overtaken_decision_is_misattributed :
    ∃ (steps : List ServingStep) (s : Serving Unit Unit MemorySink),
      Run (total smallStep) Always smallStart steps s ∧ ¬ Attributed s.entries := by
  refine ⟨[.evaluate 0 (endpointQuery "/repos") none 12,
    .judge smallView "1970-01-01T00:00:01Z", .reload smallView 1 "1970-01-01T00:00:01Z",
    .announce "1970-01-01T00:00:01Z",
    .recordDecision 0 "1970-01-01T00:00:02Z"], _, Run.of_foldl _ _ _,
      fun attributed => ?_⟩
  have passes := attributedFrom_of_attributed attributed
  revert passes
  decide +kernel

end Serving

end NonoCedarPdp
