import Mathlib.Algebra.Group.Nat.Defs
import NonoCedarPdp.ApproveContract
import NonoCedarPdp.Lib.Transition

/-!
The reload state machine. Every set an engine holds passed the loader's guards; a
reload that fails leaves the engine as it was, and one that succeeds installs what
was loaded under the next generation.
-/
namespace NonoCedarPdp

section Loader
variable {Schema β : Type} (x : Externals Schema β)

/-- The set has a policy and passed strict validation. -/
structure Accepted (schema : Schema) (loaded : LoadedPolicies β) : Prop where
  nonempty : x.crate.numOfPolicies loaded.set ≠ 0
  valid : x.crate.validationErrors schema loaded.set = []

/-- What the guards let through is accepted, and is otherwise as it was given. -/
theorem checked_eq_ok {set : Cedar.PolicySet β} {schema : Schema} {source : Path}
    {generation : UInt64} {files : List Path} {contentHash : String} {now : Nat}
    {loaded : LoadedPolicies β}
    (h : checked x set schema source generation files contentHash now = .ok loaded) :
    Accepted x schema loaded ∧ loaded = ⟨set, generation, now, files, contentHash⟩ := by
  rw [checked] at h
  split at h
  · cases h
  · next nonempty =>
    cases errors : x.crate.validationErrors schema set with
    | nil =>
        rw [errors] at h
        cases h
        exact ⟨⟨nonempty, errors⟩, rfl⟩
    | cons e rest => rw [errors] at h; cases h

/-- The stages a load that succeeds went through. -/
theorem loadDir_stages {fs : FsView} {dir : Path} {schema : Schema}
    {generation : UInt64} {now : Nat} {loaded : LoadedPolicies β}
    (h : loadDir x fs dir schema generation now = .ok loaded) :
    ∃ listing entries set digest, fs.listing dir = .ok listing ∧
      classify fs dir listing = .ok entries ∧
      (entries.mergeSort Path.le).foldlM (loadFile x fs) (.new, .new) =
        .ok (set, digest) ∧
      checked x set schema dir generation (entries.mergeSort Path.le)
        (digest.finish x.sha256) now =
        .ok loaded := by
  cases listed : fs.listing dir with
  | error source => simp only [loadDir, listed] at h; cases h
  | ok listing =>
      cases classified : classify fs dir listing with
      | error e => simp only [loadDir, listed, loadEntries, classified] at h; cases h
      | ok entries =>
          cases read : (entries.mergeSort Path.le).foldlM (loadFile x fs)
            (.new, .new) with
          | error e =>
              simp only [loadDir, listed, loadEntries, classified, read] at h; cases h
          | ok parsed =>
              simp only [loadDir, listed, loadEntries, classified, read] at h
              exact ⟨listing, entries, parsed.1, parsed.2, rfl, classified, read, h⟩

theorem loadDir_eq_ok {fs : FsView} {dir : Path} {schema : Schema}
    {generation : UInt64} {now : Nat} {loaded : LoadedPolicies β}
    (h : loadDir x fs dir schema generation now = .ok loaded) :
    Accepted x schema loaded ∧ loaded.generation = generation := by
  obtain ⟨listing, entries, set, digest, -, -, -, guarded⟩ := loadDir_stages x h
  obtain ⟨accepted, rfl⟩ := checked_eq_ok x guarded
  exact ⟨accepted, rfl⟩

end Loader

namespace Engine
variable {Schema β : Type} (x : Externals Schema β)

/-- The two ways production code makes an engine. -/
inductive Made (engine : Engine Schema β) : Prop
  | bootstrap (fs : FsView) (schema : Schema) (policyDir : Path) (now : Nat)
      (made : Engine.bootstrap x fs schema policyDir now = .ok engine)
  | fromPolicySet (schema : Schema) (policyDir : Path) (set : Cedar.PolicySet β)
      (generation : UInt64) (now : Nat)
      (made : Engine.fromPolicySet x schema policyDir set generation now = .ok engine)

/-- What a bootstrap that succeeds holds is what its load produced. -/
theorem bootstrap_eq_ok {fs : FsView} {schema : Schema} {policyDir : Path} {now : Nat}
    {engine : Engine Schema β}
    (made : Engine.bootstrap x fs schema policyDir now = .ok engine) :
    engine.schema = schema ∧ engine.policyDir = policyDir ∧
      loadDir x fs policyDir schema 1 now = .ok engine.current := by
  cases loads : loadDir x fs policyDir schema 1 now with
  | error e => simp only [Engine.bootstrap, loads] at made; cases made
  | ok initial =>
      simp only [Engine.bootstrap, loads] at made
      cases made
      exact ⟨rfl, rfl, rfl⟩

theorem accepted_of_made {engine : Engine Schema β} (made : engine.Made x) :
    Accepted x engine.schema engine.current := by
  cases made with
  | bootstrap fs schema policyDir now made =>
      obtain ⟨rfl, -, loads⟩ := bootstrap_eq_ok x made
      exact (loadDir_eq_ok x loads).1
  | fromPolicySet schema policyDir set generation now made =>
      cases checks : checked x set schema policyDir generation []
          (ContentDigest.new.finish x.sha256) now with
      | error e => simp only [Engine.fromPolicySet, checks] at made; cases made
      | ok loaded =>
          simp only [Engine.fromPolicySet, checks] at made
          cases made
          exact (checked_eq_ok x checks).1

/-- The two things a reload can do. -/
inductive Reloaded (fs : FsView) (now : Nat) (engine after : Engine Schema β)
    (result : Except PolicyLoadError UInt64) : Prop
  | adopted (loaded : LoadedPolicies β)
      (loads : loadDir x fs engine.policyDir engine.schema
        (engine.current.generation + 1) now = .ok loaded)
      (swapped : after = { engine with current := loaded })
      (returned : result = .ok loaded.generation)
  | kept (e : PolicyLoadError)
      (fails : loadDir x fs engine.policyDir engine.schema
        (engine.current.generation + 1) now = .error e)
      (same : after = engine) (returned : result = .error e)

theorem reload_cases (fs : FsView) (engine : Engine Schema β) (now : Nat) :
    Reloaded x fs now engine (engine.reload x fs now).1 (engine.reload x fs now).2 := by
  cases loads : loadDir x fs engine.policyDir engine.schema
    (engine.current.generation + 1) now with
  | error e =>
      apply Reloaded.kept e loads
      · simp only [reload, snapshot, loads]
      · simp only [reload, snapshot, loads]
  | ok loaded =>
      apply Reloaded.adopted loaded loads
      · simp only [reload, snapshot, loads]
      · simp only [reload, snapshot, loads, (loadDir_eq_ok x loads).2]

/-- One reload: what the directory holds then, and the time. -/
def reloadStep (engine : Engine Schema β) (call : FsView × Nat) : Engine Schema β :=
  (engine.reload x call.1 call.2).1

theorem accepted_reload {engine : Engine Schema β}
    (accepted : Accepted x engine.schema engine.current) (fs : FsView) (now : Nat) :
    Accepted x (engine.reload x fs now).1.schema (engine.reload x fs now).1.current := by
  cases reload_cases x fs engine now with
  | adopted loaded loads swapped returned => rw [swapped]; exact (loadDir_eq_ok x loads).1
  | kept e fails same returned => rw [same]; exact accepted

theorem generation_reload_le (fs : FsView) (engine : Engine Schema β) (now : Nat) :
    (engine.reload x fs now).1.current.generation.toNat ≤
      engine.current.generation.toNat + 1 := by
  cases reload_cases x fs engine now with
  | adopted loaded loads swapped returned =>
      rw [swapped]
      simp only [(loadDir_eq_ok x loads).2, UInt64.toNat_add]
      exact Nat.mod_le _ _
  | kept e fails same returned => rw [same]; exact Nat.le_succ _

theorem generation_run_le {engine₀ engine : Engine Schema β} {calls : List (FsView × Nat)}
    {guard : Engine Schema β → FsView × Nat → Prop}
    (run : Transition.Run (Transition.total (reloadStep x)) guard engine₀ calls engine) :
    engine.current.generation.toNat ≤
      engine₀.current.generation.toNat + calls.length := by
  induction run with
  | nil => exact Nat.le_refl _
  | @snoc _ s _ call _ _ taken ih =>
      obtain rfl := Transition.total_eq_some_iff.mp taken
      have step := generation_reload_le x call.1 s call.2
      rw [List.length_append, List.length_singleton]
      exact Nat.le_trans step (Nat.succ_le_succ ih)

/-- With a policy in the active set the handler never answers 503. -/
theorem status_ne_unavailable {σ : Type} [ByteSink σ] {state : AppState Schema β σ}
    (nonempty : x.crate.numOfPolicies state.engine.current.set ≠ 0) (serde : SerdeJson)
    (serialize : AuditLog.Serialize) (headers : HeaderMap) (body : RequestBody)
    (now : Moment) :
    (approve x serde serialize state headers body now).response.status ≠
      .serviceUnavailable := by
  intro status
  cases ending_approve x serde serialize state headers body now with
  | refused gate refusal unevaluated unrecorded =>
      obtain ⟨-, refusal⟩ | ⟨-, -, refusal⟩ := refusal <;> rw [refusal] at status
        <;> cases status
  | unavailable gate empty unavailable unevaluated unrecorded => exact nonempty empty
  | decided gate loaded ok wire answers record recorded agrees allows =>
      rw [ok] at status
      cases status

open Transition in
/-- Over any sequence of reloads: the active set is accepted, a reload that returns `Ok`
installs what it loaded under the next generation, one that fails changes nothing, and
the handler never answers 503. -/
theorem reload_contract (engine₀ engine : Engine Schema β) (made : engine₀.Made x)
    (calls : List (FsView × Nat))
    (run : Run (total (reloadStep x)) Always engine₀ calls engine)
    (fs : FsView) (now : Nat)
    (room : engine₀.current.generation.toNat + (calls.length + 1) < 2 ^ 64) :
    (Accepted x engine.schema engine.current ∧
      Accepted x (engine.reload x fs now).1.schema (engine.reload x fs now).1.current) ∧
    (∀ generation, (engine.reload x fs now).2 = .ok generation →
      generation.toNat = engine.current.generation.toNat + 1 ∧
      ∃ loaded, loadDir x fs engine.policyDir engine.schema
        (engine.current.generation + 1) now =
          .ok loaded ∧ loaded.generation = generation ∧
        (engine.reload x fs now).1 = { engine with current := loaded }) ∧
    (∀ e, (engine.reload x fs now).2 = .error e → (engine.reload x fs now).1 = engine) ∧
    ∀ {σ : Type} [ByteSink σ] (serde : SerdeJson) (serialize : AuditLog.Serialize)
      (state : AppState Schema β σ) (headers : HeaderMap) (body : RequestBody)
      (moment : Moment),
      state.engine = engine ∨ state.engine = (engine.reload x fs now).1 →
      (approve x serde serialize state headers body moment).response.status ≠
        .serviceUnavailable := by
  have accepted : Accepted x engine.schema engine.current := by
    apply run.invariant (I := fun engine => Accepted x engine.schema engine.current)
    · intro s call t accepted _ taken
      obtain rfl := total_eq_some_iff.mp taken
      exact accepted_reload x accepted call.1 call.2
    · exact accepted_of_made x made
  have after := accepted_reload x accepted fs now
  have bounded := generation_run_le x run
  refine ⟨⟨accepted, after⟩, ?_, ?_, ?_⟩
  · intro generation returned
    cases reload_cases x fs engine now with
    | kept e fails same failed => rw [failed] at returned; cases returned
    | adopted loaded loads swapped adopted =>
        obtain rfl := Except.ok.inj (adopted.symm.trans returned)
        refine ⟨?_, loaded, loads, rfl, swapped⟩
        rw [(loadDir_eq_ok x loads).2, UInt64.toNat_add, UInt64.toNat_one]
        exact Nat.mod_eq_of_lt (by omega)
  · intro e returned
    cases reload_cases x fs engine now with
    | adopted loaded loads swapped adopted => rw [adopted] at returned; cases returned
    | kept e fails same failed => exact same
  · intro σ _ serde serialize state headers body moment engineOf
    apply status_ne_unavailable
    obtain same | same := engineOf
    · rw [same]; exact accepted.nonempty
    · rw [same]; exact after.nonempty

theorem bootstrap_small :
    ∃ engine, Engine.bootstrap smallExternals smallView () smallDir 0 = .ok engine := by
  cases started : Engine.bootstrap smallExternals smallView () smallDir 0 with
  | ok engine => exact ⟨engine, rfl⟩
  | error e =>
      have loads :
          (Engine.bootstrap smallExternals smallView () smallDir 0).isOk = true := by
        decide +kernel
      rw [started] at loads
      cases loads

/-- The small deployment, reloaded twice. -/
theorem reload_contract_small :
    ∃ engine, Engine.bootstrap smallExternals smallView () smallDir 0 = .ok engine ∧
      Accepted smallExternals
        ((engine.reload smallExternals smallView 1).1.reload smallExternals smallView
          2).1.schema ((engine.reload smallExternals smallView 1).1.reload smallExternals
        smallView 2).1.current := by
  obtain ⟨engine, started⟩ := bootstrap_small
  have first : engine.current.generation = 1 := by
    obtain ⟨-, -, loads⟩ := bootstrap_eq_ok smallExternals started
    exact (loadDir_eq_ok smallExternals loads).2
  refine ⟨engine, started, ?_⟩
  exact (reload_contract smallExternals engine
    (engine.reload smallExternals smallView 1).1
      (.bootstrap smallView () smallDir 0 started) ([] ++ [(smallView, 1)])
    (.snoc .nil trivial rfl) smallView 2 (by rw [first]; decide)).1.2

end Engine

end NonoCedarPdp
