import NonoCedarPdp.AuditLines
import NonoCedarPdp.EngineReload
import NonoCedarPdp.TrustCheck
import NonoCedarPdp.Watcher

/-!
Runs of the watch loop. Every burst leaves exactly one provenance record, and the
active set, the record and the reload status say the same thing about it. What is
adopted was judged trusted, file by file, in the same iteration.
-/
namespace NonoCedarPdp
open Transition

/-! ## Trust -/

/-- The files a listing is classified into are its loadable `*.cedar` entries. -/
theorem mem_of_classify {fs : FsView} {dir : Path} {listing : List (Except IoError Path)}
    {entries : List Path} (h : classify fs dir listing = .ok entries) {p : Path}
    (mem : p ∈ entries) :
    .ok p ∈ listing ∧ p.extension = some cedarExtension ∧
    policyFileSkipReason fs p = none := by
  induction listing generalizing entries with
  | nil =>
      cases h
      cases mem
  | cons entry rest ih =>
      cases entry with
      | error source => cases h
      | ok q =>
          by_cases isCedar : q.extension = some cedarExtension
          · cases skip : policyFileSkipReason fs q with
            | some reason =>
                have later := ih (by simpa [classify, isCedar, skip] using h) mem
                exact ⟨List.mem_cons_of_mem _ later.1, later.2⟩
            | none =>
                cases tail : classify fs dir rest with
                | error e => simp [classify, isCedar, skip, tail, Except.map] at h
                | ok others =>
                    obtain rfl : q :: others = entries := by
                      simpa [classify, isCedar, skip, tail, Except.map] using h
                    obtain rfl | old := List.mem_cons.mp mem
                    · exact ⟨List.mem_cons_self, isCedar, skip⟩
                    · have later := ih tail old
                      exact ⟨List.mem_cons_of_mem _ later.1, later.2⟩
          · have later := ih (by simpa [classify, isCedar] using h) mem
            exact ⟨List.mem_cons_of_mem _ later.1, later.2⟩

/-! ## The directory that is checked and the one that is read -/

/-- Below both paths the same tree is found. -/
def SameTree (fs : FsView) (p q : Path) : Prop :=
  ∀ names : List OsString, fs.metadata (p.pushAll names) = fs.metadata (q.pushAll names) ∧
    fs.readDir (p.pushAll names) = fs.readDir (q.pushAll names)

theorem SameTree.trans {fs : FsView} {p q r : Path} (h : SameTree fs p q)
    (h' : SameTree fs q r) : SameTree fs p r :=
  fun names => ⟨(h names).1.trans (h' names).1, (h names).2.trans (h' names).2⟩

theorem pushAll_pushAll (p : Path) (first second : List OsString) :
    (p.pushAll first).pushAll second = p.pushAll (first ++ second) := by
  simp [Path.pushAll]

theorem sameTree_resolveExisting {fs : FsView} {joined head : Path} {rest : List OsString}
    (whole : joined = head.pushAll rest) :
      SameTree fs (resolveExisting fs joined head rest) joined := by
  fun_induction resolveExisting fs joined head rest with
  | case1 head rest resolved canonical =>
      intro names
      rw [whole, pushAll_pushAll, pushAll_pushAll]
      exact fs.canonical_resolves canonical (rest ++ names)
  | case2 | case4 => exact fun names => ⟨rfl, rfl⟩
  | case3 head rest e canonical name parent up named nonempty ih =>
      apply ih
      rw [whole, Path.eq_push_of_fileName named up, Path.pushAll_cons]

theorem sameTree_absolutize {fs : FsView} {dir : Path} (nonempty : dir ≠ .empty) :
    SameTree fs (absolutize fs dir none) dir := by
  have joined : SameTree fs (joinedPath fs dir none) dir := by
    rw [joinedPath]
    by_cases absolute : dir.absolute
    · rw [if_pos absolute]
      exact fun names => ⟨rfl, rfl⟩
    · rw [if_neg absolute]
      cases cwd : fs.currentDir with
      | error e => exact fun names => ⟨rfl, rfl⟩
      | ok here => exact fs.relative_resolves cwd dir (by simpa using absolute) nonempty
  exact SameTree.trans (sameTree_resolveExisting (by simp [Path.pushAll])) joined

/-- After a passed trust check, every file a load of the directory adopts was judged,
and judged trusted, under the absolutized directory. -/
theorem trusted_of_loadDir {Schema β : Type} {x : Externals Schema β}
    {fs : FsView} {dir : Path} {schema : Schema} {generation : UInt64} {now : Nat}
    {loaded : LoadedPolicies β} {euid : UInt32}
    (trusted : refuseUntrustedPolicyDirAs fs dir euid = .ok ())
    (loads : loadDir x fs dir schema generation now = .ok loaded) {p : Path}
    (mem : p ∈ loaded.files) : (∃ name, p = dir.push name ∧
      refuseIfUntrusted fs "policy file" ((absolutize fs dir none).push name) euid = .ok ()) ∧
      TrustedFile fs euid p := by
  obtain ⟨listing, entries, set, digest, listed, classified, -, guarded⟩ :=
    loadDir_stages x loads
  obtain ⟨-, rfl⟩ := checked_eq_ok x guarded
  obtain ⟨inListing, cedar, loadable⟩ :=
    mem_of_classify classified (List.mem_mergeSort.mp mem)
  cases names : fs.readDir dir with
  | error e => simp [FsView.listing, names, Except.map] at listed
  | ok found =>
      have nonempty : dir ≠ .empty := by
        rintro rfl
        exact fs.empty_missing found names
      have same : SameTree fs (absolutize fs dir none) dir := sameTree_absolutize nonempty
      obtain rfl : found.map (fun entry => entry.map dir.push) = listing := by
        simpa [FsView.listing, names, Except.map] using listed
      obtain ⟨entry, inFound, named⟩ := List.mem_map.mp inListing
      cases entry with
      | error e => cases named
      | ok name =>
          obtain rfl : dir.push name = p := Except.ok.inj named
          have metadata : fs.metadata ((absolutize fs dir none).push name) =
              fs.metadata (dir.push name) := by
            simpa [Path.pushAll, Path.push] using (same [name]).1
          have names' : fs.readDir (absolutize fs dir none) = .ok found := by
            have root := (same []).2
            simpa [Path.pushAll, names] using root
          have listed' : fs.listing (absolutize fs dir none) =
              .ok (found.map fun entry => entry.map (absolutize fs dir none).push) := by
            simp [FsView.listing, names', Except.map]
          obtain ⟨-, ⟨entries', listed'', checkedEntries⟩, -⟩ :=
            refuseUntrustedPolicyDirAs_ok_iff.mp trusted
          cases listed'.symm.trans listed''
          have judged := trusted_of_refuseUntrustedEntries checkedEntries
            (List.mem_map.mpr ⟨.ok name, inFound, rfl⟩)
            (by simpa [Path.extension] using cedar)
            ((policyFileSkipReason_congr (by simp) metadata).trans loadable)
          refine ⟨⟨name, rfl, judged⟩, ?_⟩
          have trustedThere := refuseIfUntrusted_ok_iff.mp judged
          rw [TrustedFile, metadata] at trustedThere
          exact trustedThere

/-! ## One burst -/

section Bursts
variable {Schema β σ : Type} [ByteSink σ] (x : Externals Schema β)
  (serialize : AuditLog.Serialize) (euid : UInt32)

/-- What a burst leaves: the record it attempted, and the set, the trail and the status
in step with it. -/
structure BurstEffect (fs : FsView) (times : Times) (d after : Daemon Schema β σ)
    (record : PolicySetRecord) : Prop where
  recorded : after.audit.attempted = d.audit.attempted ++ [.policySet record]
  loaded_iff : record.outcome = "loaded" ↔
    refuseUntrustedPolicyDirAs fs d.engine.policyDir euid = .ok () ∧
      ∃ loaded, loadDir x fs d.engine.policyDir d.engine.schema
        (d.engine.current.generation + 1) times.loadedAt = .ok loaded
  adopted : record.outcome = "loaded" →
    after.engine.current.generation = d.engine.current.generation + 1 ∧
    (d.engine.current.generation.toNat + 1 < 2 ^ 64 →
      after.engine.current.generation.toNat = d.engine.current.generation.toNat + 1) ∧
    record.generation = after.engine.current.generation ∧
    record.contentHash = some after.engine.current.contentHash ∧
    record.files =
      some (after.engine.current.files.map fun p => controlEscape p.display) ∧
    ∀ p ∈ after.engine.current.files,
      (∃ name, p = d.engine.policyDir.push name ∧
        refuseIfUntrusted fs "policy file"
          ((absolutize fs d.engine.policyDir none).push name) euid = .ok ()) ∧
      TrustedFile fs euid p
  kept : record.outcome ≠ "loaded" →
    after.engine = d.engine ∧ record.contentHash = none ∧ record.files = none ∧
      record.generation = d.engine.current.generation
  health : (healthz x after.state).lastReload.map LastReload.outcome = some record.outcome

theorem burstEffect_of_refusal {fs : FsView} {times : Times} {d : Daemon Schema β σ}
    {e : IsolationError}
    (refused : refuseUntrustedPolicyDirAs fs d.engine.policyDir euid = .error e) :
    BurstEffect x euid fs times d
      (d.record serialize d.engine.snapshot.generation (.refused e.text) times)
      (AuditLog.policySetRecord times.ts d.engine.snapshot.generation d.atRisk
        (.refused e.text)) where
  recorded := AuditLog.attempted_append _ _ _
  loaded_iff := by
    rw [refused]
    simp [AuditLog.policySetRecord, PolicySetOutcome.name]
  adopted loaded := by simp [AuditLog.policySetRecord, PolicySetOutcome.name] at loaded
  kept _ := ⟨rfl, rfl, rfl, rfl⟩
  health := rfl

theorem burstEffect_of_failure {fs : FsView} {times : Times} {d : Daemon Schema β σ}
    {e : PolicyLoadError}
    (fails : loadDir x fs d.engine.policyDir d.engine.schema
      (d.engine.current.generation + 1) times.loadedAt = .error e) :
    BurstEffect x euid fs times d
      (d.record serialize d.engine.snapshot.generation (.failed e.text) times)
      (AuditLog.policySetRecord times.ts d.engine.snapshot.generation d.atRisk
        (.failed e.text)) where
  recorded := AuditLog.attempted_append _ _ _
  loaded_iff := by
    rw [fails]
    simp [AuditLog.policySetRecord, PolicySetOutcome.name]
  adopted loaded := by simp [AuditLog.policySetRecord, PolicySetOutcome.name] at loaded
  kept _ := ⟨rfl, rfl, rfl, rfl⟩
  health := rfl

theorem burstEffect_of_load {fs : FsView} {times : Times} {d : Daemon Schema β σ}
    {loaded : LoadedPolicies β}
    (trusted : refuseUntrustedPolicyDirAs fs d.engine.policyDir euid = .ok ())
    (loads : loadDir x fs d.engine.policyDir d.engine.schema
      (d.engine.current.generation + 1) times.loadedAt = .ok loaded)
    {swapped : Daemon Schema β σ} (audit : swapped.audit = d.audit)
    (atRisk : swapped.atRisk = d.atRisk)
    (engine : swapped.engine = { d.engine with current := loaded }) :
    BurstEffect x euid fs times d
      (swapped.recordLoaded serialize swapped.engine.snapshot times)
      (AuditLog.policySetRecord times.ts loaded.generation d.atRisk
        (.loaded loaded.contentHash loaded.files)) where
  recorded := by
    rw [engine, ← atRisk, ← audit]
    exact AuditLog.attempted_append _ _ _
  loaded_iff := by
    rw [trusted, loads]
    simp [AuditLog.policySetRecord, PolicySetOutcome.name]
  adopted _ := by
    have current :
        (swapped.recordLoaded serialize swapped.engine.snapshot times).engine.current =
        loaded := congrArg Engine.current engine
    have generation : loaded.generation = d.engine.current.generation + 1 :=
      (loadDir_eq_ok x loads).2
    rw [current]
    refine ⟨generation, fun room => ?_, rfl, rfl, rfl, fun p mem => ?_⟩
    · rw [generation, UInt64.toNat_add, UInt64.toNat_one]
      exact Nat.mod_eq_of_lt room
    · exact trusted_of_loadDir trusted loads mem
  kept other := absurd rfl other
  health := rfl

theorem burstEffect (fs : FsView) (times : Times) (d : Daemon Schema β σ) :
    ∃ record, BurstEffect x euid fs times d
      (d.afterBurst x serialize fs euid times) record := by
  cases trusted : refuseUntrustedPolicyDirAs fs d.engine.policyDir euid with
  | error e =>
      simp only [Daemon.afterBurst, trusted]
      exact ⟨_, burstEffect_of_refusal x serialize euid trusted⟩
  | ok done =>
      cases loads : loadDir x fs d.engine.policyDir d.engine.schema
          (d.engine.current.generation + 1) times.loadedAt with
      | error e =>
          simp only [Daemon.afterBurst, trusted, Daemon.reload_of_fails loads]
          exact ⟨_, burstEffect_of_failure x serialize euid loads⟩
      | ok loaded =>
          simp only [Daemon.afterBurst, trusted, Daemon.reload_of_loads loads]
          exact ⟨_, burstEffect_of_load x serialize euid trusted loads rfl rfl rfl⟩

end Bursts

/-! ## Runs -/

def Wake.isBurst : Wake → Bool
  | .watchError _ => false
  | .burst .. => true

/-- The records of a run, one a burst, and the status that repeats the last of them. -/
theorem records_of_run {Schema β σ : Type} [ByteSink σ] {x : Externals Schema β}
    {serialize : AuditLog.Serialize} {euid : UInt32} {d₀ d : Daemon Schema β σ}
    (fresh : d₀.state.lastReload = none) {wakes : List Wake}
    (run : Run (total (Daemon.turn x serialize euid)) Always d₀ wakes d) :
    ∃ records : List PolicySetRecord,
      d.audit.attempted = d₀.audit.attempted ++ records.map .policySet ∧
      records.length = wakes.countP Wake.isBurst ∧
      (healthz x d.state).lastReload.map LastReload.outcome =
        records.getLast?.map PolicySetRecord.outcome := by
  induction run with
  | nil => exact ⟨[], by simp, rfl, by simp [healthz, fresh]⟩
  | @snoc wakes d _ wake _ _ taken ih =>
      obtain rfl := total_eq_some_iff.mp taken
      obtain ⟨records, recorded, counted, status⟩ := ih
      cases wake with
      | watchError e => exact ⟨records, recorded, by simp [counted, Wake.isBurst], status⟩
      | burst fs times =>
          obtain ⟨record, effect⟩ := burstEffect x serialize euid fs times d
          refine ⟨records ++ [record], ?_, by simp [counted, Wake.isBurst], ?_⟩
          · have now := effect.recorded
            rw [recorded, List.append_assoc] at now
            rw [List.map_append, List.map_singleton]
            exact now
          · rw [List.getLast?_append_of_ne_nil _ (by simp), List.getLast?_singleton]
            exact effect.health

/-- The watch loop over any sequence of wakes: a watch error changes nothing; a burst
leaves one record that is in step with the active set, the health status and what was
judged trusted; the status is null until the first burst and then repeats the last
record. -/
theorem watcher_contract {Schema β σ : Type} [ByteSink σ] (x : Externals Schema β)
    (serialize : AuditLog.Serialize) (euid : UInt32) (d₀ d : Daemon Schema β σ)
    (fresh : d₀.state.lastReload = none) (wakes : List Wake)
    (run : Run (total (Daemon.turn x serialize euid)) Always d₀ wakes d) :
    (∀ e, d.turn x serialize euid (.watchError e) = d) ∧
      (∀ fs times, ∃ record,
        BurstEffect x euid fs times d
          (d.turn x serialize euid (.burst fs times)) record) ∧
      ∃ records : List PolicySetRecord,
        d.audit.attempted = d₀.audit.attempted ++ records.map .policySet ∧
        records.length = wakes.countP Wake.isBurst ∧
        (healthz x d.state).lastReload.map LastReload.outcome =
          records.getLast?.map PolicySetRecord.outcome :=
  ⟨fun _ => rfl, fun fs times => burstEffect x serialize euid fs times d,
    records_of_run fresh run⟩

def smallDaemon : Daemon Unit Unit MemorySink :=
  ⟨⟨smallEngine, ⟨[("cedar", "claude-code")]⟩, .withSink ⟨[], .none⟩ false, none⟩, false⟩

/-- A watch error, then a burst on the small deployment. -/
theorem watcher_contract_small :
    ∃ records : List PolicySetRecord, records.length = 1 ∧
      ((smallDaemon.turn smallExternals AuditLog.toJsonLine 501
        (.watchError "overflow")).turn smallExternals AuditLog.toJsonLine 501
        (.burst smallView
          ⟨1, "1970-01-01T00:00:01Z", "1970-01-01T00:00:01Z"⟩)).audit.attempted =
        records.map .policySet := by
  obtain ⟨-, -, records, recorded, counted, -⟩ := watcher_contract smallExternals
    AuditLog.toJsonLine 501 smallDaemon _ rfl
    ([] ++ [.watchError "overflow"] ++
      [.burst smallView ⟨1, "1970-01-01T00:00:01Z", "1970-01-01T00:00:01Z"⟩])
    (.snoc (.snoc .nil trivial rfl) trivial rfl)
  exact ⟨records, counted, recorded⟩

end NonoCedarPdp
