import NonoCedarPdp.ContentHash
import NonoCedarPdp.EngineVerdict
import NonoCedarPdp.HostedDecisions

/-!
What the content hash of a `loaded` line stands for. The names and the texts of the files
determine the policies a load makes of them, wherever the directory lies, so two sets
announced under one hash decide alike, up to a collision of SHA-256.
-/
namespace NonoCedarPdp
open RustText Transition UnixFs

section Files
variable {Schema β : Type} (x : Externals Schema β)

/-- The policies a file adds, by its name and its text. -/
def policiesOfText (file : OsString × String) : List (Cedar.Policy β) :=
  match x.crate.parsePolicies file.2 with
  | .error _ => []
  | .ok parsed =>
      numbered x (((Path.empty.push file.1).fileStem.map fromUtf8Lossy).getD "policy") 0 parsed

theorem policiesOf_eq {fs : FsView} {p : Path} {file : OsString × String}
    (named : p.fileName = some file.1) (read : fs.readToString p = .ok file.2) :
    policiesOf x fs p = policiesOfText x file := by
  have stem : p.fileStem = (Path.empty.push file.1).fileStem := by
    rw [Path.fileStem, Path.fileStem, named, Path.fileName_push]
  cases parsed : x.crate.parsePolicies file.2 <;>
    simp only [policiesOf, policiesOfText, read, stem, parsed]

theorem flatMap_policiesOf {fs : FsView} {paths : List Path}
    {files : List (OsString × String)} (texts : FileTexts fs paths files) :
    paths.flatMap (policiesOf x fs) = files.flatMap (policiesOfText x) := by
  induction texts with
  | nil => rfl
  | cons file _ ih =>
      rw [List.flatMap_cons, List.flatMap_cons, ih, policiesOf_eq x file.1 file.2]

/-- A load is determined by the names and the texts of its files. -/
theorem policies_of_loadDir {fs : FsView} {dir : Path} {schema : Schema}
    {generation : UInt64} {now : Nat} {loaded : LoadedPolicies β}
    {files : List (OsString × String)}
    (loads : loadDir x fs dir schema generation now = .ok loaded)
    (texts : FileTexts fs loaded.files files) :
    loaded.set.policies = files.flatMap (policiesOfText x) := by
  rw [← flatMap_policiesOf x texts]
  cases listed : fs.listing dir with
  | error source =>
      simp only [loadDir, listed] at loads
      cases loads
  | ok listing =>
      simp only [loadDir, listed] at loads
      obtain ⟨-, -, -, policies, same⟩ := (loadEntries_eq_ok_iff x).mp loads
      rw [policies, show loaded.files =
        loadOrder fs listing from congrArg LoadedPolicies.files same]

/-- The names and the texts that a set was loaded from. -/
def LoadedFrom (engine : Engine Schema β) (set : LoadedPolicies β)
    (files : List (OsString × String)) : Prop :=
  ∃ fs now, loadDir x fs engine.policyDir engine.schema set.generation now = .ok set ∧
    FileTexts fs set.files files ∧
    set.contentHash = (ContentDigest.ofFiles files).finish x.sha256

variable {x}

theorem loadedFrom_of_loadDir {engine : Engine Schema β} {set : LoadedPolicies β}
    {files : List (OsString × String)} {fs : FsView} {now : Nat}
    (loads : loadDir x fs engine.policyDir engine.schema set.generation now = .ok set)
    (texts : FileTexts fs set.files files) : LoadedFrom x engine set files :=
  ⟨fs, now, loads, texts, contentHash_of_fileTexts x loads texts⟩

theorem set_eq_of_loadedFrom {engine engine' : Engine Schema β}
    {set set' : LoadedPolicies β} {files : List (OsString × String)}
    (holds : LoadedFrom x engine set files) (holds' : LoadedFrom x engine' set' files) :
      set.set = set'.set := by
  obtain ⟨fs, now, loads, texts, -⟩ := holds
  obtain ⟨fs', now', loads', texts', -⟩ := holds'
  apply Cedar.PolicySet.eq_of_policies
  rw [policies_of_loadDir x loads texts, policies_of_loadDir x loads' texts']

/-- Where the further files only forbid, what is allowed was allowed without them. -/
theorem failClosedAllow_of_files {outcome : Cedar.Semantics β}
    {files more : List (OsString × String)} (kept : ∀ file ∈ files, file ∈ more)
    (forbids : ∀ file ∈ more, file ∉ files →
      ∀ p ∈ policiesOfText x file, p.effect = .forbid)
    {request : Cedar.Request} {entities : Cedar.Entities}
    (allowed : Engine.FailClosedAllow outcome (more.flatMap (policiesOfText x))
      request entities) :
    Engine.FailClosedAllow outcome
      (files.flatMap (policiesOfText x)) request entities := by
  obtain ⟨⟨p, mem, permit⟩, unopposed, clean⟩ := allowed
  have still {r : Cedar.Policy β} (h : r ∈ files.flatMap (policiesOfText x)) :
      r ∈ more.flatMap (policiesOfText x) := by
    obtain ⟨file, inFiles, inFile⟩ := List.mem_flatMap.mp h
    exact List.mem_flatMap.mpr ⟨file, kept file inFiles, inFile⟩
  refine ⟨⟨p, ?_, permit⟩, fun r h => unopposed r (still h), fun r h => clean r (still h)⟩
  obtain ⟨file, inMore, inFile⟩ := List.mem_flatMap.mp mem
  by_cases old : file ∈ files
  · exact List.mem_flatMap.mpr ⟨file, old, inFile⟩
  · have forbid := forbids file inMore old p inFile
    rw [permit.1] at forbid
    cases forbid

/-- One hash, and no collision: the same files. -/
theorem files_eq_of_contentHash {engine engine' : Engine Schema β}
    {set set' : LoadedPolicies β} {files files' : List (OsString × String)}
    (holds : LoadedFrom x engine set files) (holds' : LoadedFrom x engine' set' files')
    (same : set.contentHash = set'.contentHash) (framed : ∀ file ∈ files, Framed file)
    (framed' : ∀ file ∈ files', Framed file)
    (noCollision : ¬ Collides x.sha256 (ContentDigest.ofFiles files).fed
      (ContentDigest.ofFiles files').fed) : files = files' := by
  obtain ⟨-, -, -, -, hash⟩ := holds
  obtain ⟨-, -, -, -, hash'⟩ := holds'
  apply ContentDigest.fed_ofFiles_injOn framed framed'
  by_contra different
  rw [hash, hash'] at same
  exact noCollision ⟨different, ContentDigest.sha256_eq_of_finish same⟩

end Files

namespace Serving
variable {Schema β σ : Type} [ByteSink σ] {x : Externals Schema β}
  {serialize : AuditLog.Serialize} {euid : UInt32}

/-- Every set that has been active was loaded from files that its hash is the hash of. -/
theorem loadedFrom_of_history {fs : FsView} {schema : Schema} {dir : Path} {now : Nat}
    {engine : Engine Schema β} (made : Engine.bootstrap x fs schema dir now = .ok engine)
    {config : Config} {bytes : σ} {unterminated atRisk : Bool} {ts : String}
    {steps : List ServingStep} {s : Serving Schema β σ}
    (run : Run (total (step x serialize euid)) Always
      (start serialize engine config bytes unterminated atRisk ts) steps s)
    {set : LoadedPolicies β} (mem : set ∈ s.history) :
      ∃ files, LoadedFrom x engine set files := by
  obtain ⟨i, inHistory⟩ := List.getElem?_of_mem mem
  have first : [engine.current] <+: s.history := by
    refine run.invariant (I := fun t => [engine.current] <+: t.history)
      (fun t a u before _ taken => ?_) (List.prefix_refl _)
    obtain rfl := total_eq_some_iff.mp taken
    exact before.trans (history_step t a)
  obtain ⟨fs', now', loads⟩ :
      ∃ fs now, loadDir x fs engine.policyDir engine.schema set.generation now =
      .ok set := by
    cases i with
    | zero =>
        obtain ⟨later, split⟩ := first
        obtain rfl : engine.current = set := by simpa [← split] using inHistory
        obtain ⟨rfl, rfl, loads⟩ := Engine.bootstrap_eq_ok x made
        exact ⟨fs, now, (loadDir_eq_ok x loads).2 ▸ loads⟩
    | succ i =>
        have told : s.Chronicle x euid engine :=
          chronicle_run (.bootstrap fs schema dir now made) run
        obtain ⟨-, seen, now', -, loads⟩ :=
          (told.adopted _ _ inHistory).loaded (Nat.succ_pos i)
        exact ⟨seen, now', loads⟩
  obtain ⟨files, texts, -⟩ := fileTexts_of_loadDir x loads
  exact ⟨files, loadedFrom_of_loadDir loads texts⟩

/-- Two daemons built from the same libraries, wherever their directories lie and whatever
their handlers and watchers interleave: sets that were active in one and in the other
under one content hash decide every query alike, unless the streams that were hashed
collide. -/
theorem same_hash_same_decisions (x : Externals Schema β) (serialize : AuditLog.Serialize)
    (euid euid' : UInt32) (fs fs' : FsView) (schema : Schema) (dir dir' : Path)
    (now now' : Nat) (engine engine' : Engine Schema β) (config config' : Config)
    (bytes bytes' : σ) (unterminated unterminated' atRisk atRisk' : Bool)
    (ts ts' : String) (steps steps' : List ServingStep) (s s' : Serving Schema β σ)
    (made : Engine.bootstrap x fs schema dir now = .ok engine)
    (made' : Engine.bootstrap x fs' schema dir' now' = .ok engine')
    (run : Run (total (step x serialize euid)) Always
      (start serialize engine config bytes unterminated atRisk ts) steps s)
    (run' : Run (total (step x serialize euid')) Always
      (start serialize engine' config' bytes' unterminated' atRisk' ts') steps' s')
    (set set' : LoadedPolicies β) (active : set ∈ s.history) (active' : set' ∈ s'.history)
    (same : set.contentHash = set'.contentHash) :
    (∃ files, LoadedFrom x engine set files) ∧
    (∃ files, LoadedFrom x engine' set' files) ∧
      ∀ files files', LoadedFrom x engine set files → LoadedFrom x engine' set' files' →
        (∀ file ∈ files, Framed file) → (∀ file ∈ files', Framed file) →
        ¬ Collides x.sha256 (ContentDigest.ofFiles files).fed
          (ContentDigest.ofFiles files').fed →
        ∀ q evalUs, ({ engine with current := set } : Engine Schema β).evaluate x q evalUs =
          ({ engine' with current := set' } : Engine Schema β).evaluate x q evalUs := by
  refine ⟨loadedFrom_of_history made run active,
    loadedFrom_of_history made' run' active', ?_⟩
  intro files files' holds holds' framed framed' noCollision q evalUs
  obtain rfl := files_eq_of_contentHash holds holds' same framed framed' noCollision
  have sets := set_eq_of_loadedFrom holds holds'
  have schemas : engine.schema = engine'.schema :=
    (Engine.bootstrap_eq_ok x made).1.trans (Engine.bootstrap_eq_ok x made').1.symm
  simp only [Engine.evaluate, Engine.snapshot, sets, schemas]

/-- Of two sets that have been active in a run, one whose files are those of the other and
files that only forbid allows no query that the other denies. -/
theorem forbid_files_narrow (x : Externals Schema β) (outcome : Cedar.Semantics β)
    (spec : Cedar.AuthorizerSpec x.crate outcome) (serialize : AuditLog.Serialize)
    (euid : UInt32) (fs : FsView) (schema : Schema) (dir : Path) (now : Nat)
    (engine : Engine Schema β) (config : Config) (bytes : σ)
    (unterminated atRisk : Bool) (ts : String) (steps : List ServingStep)
    (s : Serving Schema β σ) (made : Engine.bootstrap x fs schema dir now = .ok engine)
    (run : Run (total (step x serialize euid)) Always
      (start serialize engine config bytes unterminated atRisk ts) steps s)
    (set set' : LoadedPolicies β) (active : set ∈ s.history)
    (active' : set' ∈ s.history) :
    (∃ files, LoadedFrom x engine set files) ∧ (∃ files, LoadedFrom x engine set' files) ∧
      ∀ files files', LoadedFrom x engine set files → LoadedFrom x engine set' files' →
        (∀ file ∈ files, file ∈ files') →
        (∀ file ∈ files', file ∉ files →
          ∀ p ∈ policiesOfText x file, p.effect = .forbid) →
        ∀ q evalUs evalUs',
          (({ engine with current := set' } : Engine Schema β).evaluate x q
            evalUs').1.allow = true →
          (({ engine with current := set } : Engine Schema β).evaluate x q
            evalUs).1.allow = true := by
  refine ⟨loadedFrom_of_history made run active,
    loadedFrom_of_history made run active', ?_⟩
  intro files files' holds holds' kept forbids q evalUs evalUs' allowed
  obtain ⟨fs₁, now₁, loads, texts, -⟩ := holds
  obtain ⟨fs₂, now₂, loads', texts', -⟩ := holds'
  rw [Engine.evaluate_allow_iff_reference x spec] at allowed ⊢
  obtain ⟨pair, passed, allows⟩ := allowed
  refine ⟨pair, passed, ?_⟩
  rw [policies_of_loadDir x loads' texts'] at allows
  rw [policies_of_loadDir x loads texts]
  exact failClosedAllow_of_files kept forbids allows

/-! ## A directory that is reloaded -/

theorem history_of_reload {s : Serving Schema β σ} (idle : s.attempt = .none)
    {judged seen : FsView}
    (trusted : refuseUntrustedPolicyDirAs judged s.daemon.engine.policyDir euid = .ok ())
    {now : Nat} {loaded : LoadedPolicies β}
    (loads : loadDir x seen s.daemon.engine.policyDir s.daemon.engine.schema
      (s.daemon.engine.current.generation + 1) now = .ok loaded) (ts : String) :
    ((s.step x serialize euid (.judge judged ts)).step x serialize euid
      (.reload seen now ts)).history = s.history ++ [loaded] := by
  simp only [step, idle, trusted, Daemon.reload_of_loads loads]
  rfl

/-- A daemon on the directory with one file, and after a reload of what is then both. -/
theorem reload_both_small :
    ∃ (engine : Engine Unit Unit) (loaded : LoadedPolicies Unit),
      Engine.bootstrap smallExternals smallView () smallDir 0 = .ok engine ∧
      loadDir smallExternals (bothView (Utf8.encode "policies")) smallDir () 2 1 = .ok loaded ∧
      LoadedFrom smallExternals engine engine.current [baseFile] ∧
      LoadedFrom smallExternals engine loaded [baseFile, denyFile] ∧
      ∀ (config : Config) (ts : String), loaded ∈
        (((start AuditLog.toJsonLine engine config (⟨[], .none⟩ : MemorySink) false
          false ts).step smallExternals AuditLog.toJsonLine 501
            (.judge (bothView (Utf8.encode "policies")) ts)).step
            smallExternals AuditLog.toJsonLine 501
              (.reload (bothView (Utf8.encode "policies")) 1 ts)).history := by
  obtain ⟨engine, started⟩ := Engine.bootstrap_small
  obtain ⟨loaded, loads, texts⟩ := loadDir_both (Utf8.encode "policies") 2 1
    (loadDir_of_sorted smallExternals rfl rfl (by decide) () 2 1) (by decide +kernel)
  have loads :
      loadDir smallExternals (bothView (Utf8.encode "policies")) smallDir () 2 1 =
      .ok loaded := loads
  obtain ⟨-, policyDir, first⟩ := Engine.bootstrap_eq_ok smallExternals started
  have generation := (loadDir_eq_ok smallExternals first).2
  have generation' := (loadDir_eq_ok smallExternals loads).2
  have trusted : refuseUntrustedPolicyDirAs
      (bothView (Utf8.encode "policies")) smallDir 501 =
      .ok () := toOption_eq_some_iff.mp (by decide +kernel)
  have files : engine.current.files =
      [⟨true, [.normal (Utf8.encode "policies"), .normal baseFile.1]⟩] := by
    have listed : (Engine.bootstrap smallExternals smallView () smallDir 0).toOption.map
        (·.current.files) =
          some [⟨true, [.normal (Utf8.encode "policies"), .normal baseFile.1]⟩] := by
      decide +kernel
    rw [started] at listed
    exact Option.some.inj listed
  refine ⟨engine, loaded, started, loads, ?_, ?_, fun config ts => ?_⟩
  · rw [← policyDir, ← generation] at first
    refine loadedFrom_of_loadDir first ?_
    rw [files]
    exact .cons ⟨rfl, by simp [smallView, filesView]⟩ .nil
  · rw [← policyDir, ← generation'] at loads
    exact loadedFrom_of_loadDir loads texts
  · rw [history_of_reload rfl (by rw [← policyDir] at trusted; exact trusted)]
    · exact List.mem_append_right _ (List.mem_singleton_self _)
    · rw [← policyDir] at loads
      show loadDir _ _ engine.policyDir _ (engine.current.generation + 1) 1 = _
      rw [generation]
      exact loads

/-- One daemon has reloaded both files, the other has started on them in another
directory. -/
theorem same_hash_same_decisions_small :
    ∃ (engine engine' : Engine Unit Unit) (set : LoadedPolicies Unit),
      Engine.bootstrap smallExternals smallView () smallDir 0 = .ok engine ∧
        Engine.bootstrap smallExternals (bothView (Utf8.encode "other")) () otherDir 0 =
          .ok engine' ∧
        set.generation = 2 ∧ set.contentHash = engine'.current.contentHash ∧
        ∀ q evalUs, ({ engine with current := set } : Engine Unit Unit).evaluate
          smallExternals q evalUs = engine'.evaluate smallExternals q evalUs := by
  obtain ⟨engine, set, started, loads, -, holds, reloaded⟩ := reload_both_small
  obtain ⟨current, loads', texts⟩ := loadDir_both (Utf8.encode "other") 1 0
    (loadDir_of_sorted smallExternals rfl rfl (by decide) () 1 0) (by decide +kernel)
  let engine' : Engine Unit Unit := ⟨(), otherDir, current⟩
  have generation := (loadDir_eq_ok smallExternals loads').2
  have started' : Engine.bootstrap smallExternals (bothView (Utf8.encode "other"))
      () otherDir 0 =
      .ok engine' := by
    rw [Engine.bootstrap]
    exact congrArg (Except.map _) loads'
  have holds' : LoadedFrom smallExternals engine' current [baseFile, denyFile] :=
    loadedFrom_of_loadDir (generation.symm ▸ loads') texts
  have hash : set.contentHash = current.contentHash := by
    obtain ⟨-, -, -, -, hash⟩ := holds
    obtain ⟨-, -, -, -, hash'⟩ := holds'
    rw [hash, hash']
  have framed : ∀ file ∈ [baseFile, denyFile], Framed file := by decide +kernel
  obtain ⟨-, -, alike⟩ :=
    same_hash_same_decisions smallExternals AuditLog.toJsonLine 501 501
      smallView (bothView (Utf8.encode "other")) () smallDir otherDir 0 0 engine engine'
      ⟨[("cedar", "claude-code")]⟩ ⟨[("cedar", "claude-code")]⟩
        (⟨[], .none⟩ : MemorySink) ⟨[], .none⟩
      false false false false "1970-01-01T00:00:00Z" "1970-01-01T00:00:00Z" _
        [] _ _ started started'
      (.snoc (.single trivial rfl) trivial rfl) .nil set current
      (reloaded ⟨[("cedar", "claude-code")]⟩ "1970-01-01T00:00:00Z")
        List.mem_cons_self hash
  exact ⟨engine, engine', set, started, started',
    (loadDir_eq_ok smallExternals loads).2, hash,
    alike _ _ holds holds' framed framed fun collides => collides.1 rfl⟩

/-- A file that forbids everything joins the one that permits everything. -/
theorem forbid_files_narrow_small :
    ∃ (engine : Engine Unit Unit) (set : LoadedPolicies Unit),
      Engine.bootstrap smallExternals smallView () smallDir 0 = .ok engine ∧
        LoadedFrom smallExternals engine engine.current [baseFile] ∧
        LoadedFrom smallExternals engine set [baseFile, denyFile] ∧
        ∀ q evalUs evalUs',
          (({ engine with current := set } : Engine Unit Unit).evaluate smallExternals q
            evalUs').1.allow = true →
              (engine.evaluate smallExternals q evalUs).1.allow = true := by
  obtain ⟨engine, set, started, -, holds, holds', reloaded⟩ := reload_both_small
  have spec : Cedar.AuthorizerSpec smallExternals.crate (fun _ _ _ => .satisfied) :=
    Cedar.authorizerSpec_authorize rfl
  have kept : ∀ file ∈ [baseFile], file ∈ [baseFile, denyFile] := by decide +kernel
  have forbids : ∀ file ∈ [baseFile, denyFile], file ∉ [baseFile] →
      ∀ p ∈ policiesOfText smallExternals file, p.effect = .forbid := by decide +kernel
  have first : engine.current ∈ (start AuditLog.toJsonLine engine
      ⟨[("cedar", "claude-code")]⟩ (⟨[], .none⟩ : MemorySink) false false
        "1970-01-01T00:00:00Z").history := List.mem_cons_self
  obtain ⟨-, -, narrows⟩ :=
    forbid_files_narrow smallExternals _ spec AuditLog.toJsonLine 501
      smallView () smallDir 0 engine ⟨[("cedar", "claude-code")]⟩
        (⟨[], .none⟩ : MemorySink) false
      false "1970-01-01T00:00:00Z" _ _ started (.snoc (.single trivial rfl) trivial rfl)
      engine.current set (((history_step _ _).trans (history_step _ _)).subset first)
      (reloaded ⟨[("cedar", "claude-code")]⟩ "1970-01-01T00:00:00Z")
  exact ⟨engine, set, started, holds, holds', narrows _ _ holds holds' kept forbids⟩

end Serving

end NonoCedarPdp
