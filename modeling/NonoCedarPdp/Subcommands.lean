import NonoCedarPdp.HostedDecisions
import NonoCedarPdp.OfflineCheck

/-!
The three subcommands over one configuration (`main.rs`). `serve` resolves the policy
directory before it loads, `validate` and `check` load the path as it is written. What a
load makes of a directory rests on its entries alone, so where `serve` starts all three
have the same policies.
-/
namespace NonoCedarPdp
open UnixFs

/-! ## One directory under two paths -/

/-- Two paths under which the same directory is read. -/
structure SameDirectory (fs : FsView) (dir dir' : Path) : Prop where
  listing : fs.readDir dir' = fs.readDir dir
  metadata : ∀ name, fs.metadata (dir'.push name) = fs.metadata (dir.push name)
  text : ∀ name, fs.readToString (dir'.push name) = fs.readToString (dir.push name)

theorem SameDirectory.symm {fs : FsView} {dir dir' : Path}
    (same : SameDirectory fs dir dir') : SameDirectory fs dir' dir :=
  ⟨same.listing.symm, fun name => (same.metadata name).symm,
    fun name => (same.text name).symm⟩

/-- The entry of that name under another directory. -/
def Path.movedTo (dir : Path) (p : Path) : Path := dir.push (p.fileName.getD [])

@[simp] theorem Path.movedTo_push (dir dir' : Path) (name : OsString) :
    dir'.movedTo (dir.push name) = dir'.push name := by
  rw [movedTo, fileName_push, Option.getD_some]

theorem Path.extension_push (dir dir' : Path) (name : OsString) :
    (dir'.push name).extension = (dir.push name).extension := by
  rw [extension, extension, fileName_push, fileName_push]

theorem Path.fileStem_push (dir dir' : Path) (name : OsString) :
    (dir'.push name).fileStem = (dir.push name).fileStem := by
  rw [fileStem, fileStem, fileName_push, fileName_push]

theorem Path.leComponents_append (front as bs : List Component) :
    leComponents (front ++ as) (front ++ bs) = leComponents as bs := by
  induction front with
  | nil => rfl
  | cons a front ih => simpa [leComponents] using ih

/-- Entries of one directory are ordered by their names. -/
theorem Path.le_push (dir dir' : Path) (name other : OsString) :
    (dir'.push name).le (dir'.push other) = (dir.push name).le (dir.push other) := by
  have byName (d : Path) : (d.push name).le (d.push other) =
      leComponents [.normal name] [.normal other] := by
    rw [le, absolute_push, absolute_push, if_pos rfl]
    exact leComponents_append d.components _ _
  rw [byName, byName]

section Loads
variable {Schema β : Type} (x : Externals Schema β) {fs : FsView} {dir dir' : Path}

theorem SameDirectory.policyFile_iff (same : SameDirectory fs dir dir')
    (name : OsString) :
    PolicyFile fs (dir'.push name) ↔ PolicyFile fs (dir.push name) := by
  rw [loadable_iff, loadable_iff, Path.extension_push dir dir', policyFileSkipReason,
    policyFileSkipReason, Path.fileName_push, Path.fileName_push, FsView.isFile,
    FsView.isFile,
    same.metadata]

/-- The entries of a listing that are policy files, by name. -/
def policyNames (fs : FsView) (dir : Path) (entries : List (Except IoError OsString)) :
    List OsString :=
  (entries.filterMap Except.toOption).filter fun name => PolicyFile fs (dir.push name)

theorem loadable_eq (fs : FsView) (dir : Path)
    (entries : List (Except IoError OsString)) :
    loadable fs (entries.map fun entry => entry.map dir.push) =
      (policyNames fs dir entries).map dir.push := by
  have paths : (entries.map fun entry => entry.map dir.push).filterMap Except.toOption =
      (entries.filterMap Except.toOption).map dir.push := by
    rw [List.filterMap_map, List.map_filterMap]
    congr 1
    funext entry
    cases entry <;> rfl
  rw [loadable, paths, List.filter_map, policyNames]
  rfl

theorem SameDirectory.policyNames_eq (same : SameDirectory fs dir dir')
    (entries : List (Except IoError OsString)) :
    policyNames fs dir' entries = policyNames fs dir entries := by
  simp only [policyNames, same.policyFile_iff]

theorem SameDirectory.loadOrder_eq (same : SameDirectory fs dir dir')
    (entries : List (Except IoError OsString)) :
    loadOrder fs (entries.map fun entry => entry.map dir'.push) =
      (loadOrder fs (entries.map fun entry => entry.map dir.push)).map dir'.movedTo := by
  have moved : (policyNames fs dir entries).map dir'.push =
      ((policyNames fs dir entries).map dir.push).map dir'.movedTo := by simp
  rw [loadOrder, loadOrder, loadable_eq, loadable_eq, same.policyNames_eq, moved]
  refine (List.map_mergeSort ?_).symm
  intro p hp q hq
  obtain ⟨name, -, rfl⟩ := List.mem_map.mp hp
  obtain ⟨other, -, rfl⟩ := List.mem_map.mp hq
  rw [Path.movedTo_push, Path.movedTo_push, Path.le_push dir dir']

theorem mem_loadOrder {entries : List (Except IoError OsString)} {p : Path}
    (mem : p ∈ loadOrder fs (entries.map fun entry => entry.map dir.push)) :
    ∃ name, p = dir.push name := by
  rw [(loadOrder_perm fs _).mem_iff, loadable_eq] at mem
  obtain ⟨name, -, rfl⟩ := List.mem_map.mp mem
  exact ⟨name, rfl⟩

theorem SameDirectory.parses_iff (same : SameDirectory fs dir dir') (name : OsString) :
    Parses x fs (dir'.push name) ↔ Parses x fs (dir.push name) := by
  rw [Parses, Parses, same.text]

theorem SameDirectory.policiesOf_eq (same : SameDirectory fs dir dir') (name : OsString) :
    policiesOf x fs (dir'.push name) = policiesOf x fs (dir.push name) := by
  rw [policiesOf, policiesOf, same.text, Path.fileStem_push dir dir']

theorem SameDirectory.digested_eq (same : SameDirectory fs dir dir')
    (digest : ContentDigest) (name : OsString) :
    digested fs digest (dir'.push name) = digested fs digest (dir.push name) := by
  rw [digested, digested, same.text, Path.fileName_push, Path.fileName_push]

theorem listing_of_readDir {entries : List (Except IoError OsString)}
    (read : fs.readDir dir = .ok entries) :
    fs.listing dir = .ok (entries.map fun entry => entry.map dir.push) := by
  rw [FsView.listing, read]
  rfl

/-- What is loaded from a directory is loaded from it under any path, but for the path. -/
theorem loadDir_of_sameDirectory (same : SameDirectory fs dir dir') {schema : Schema}
    {generation : UInt64} {now : Nat} {loaded : LoadedPolicies β}
    (loads : loadDir x fs dir schema generation now = .ok loaded) :
    loadDir x fs dir' schema generation now =
      .ok { loaded with files := loaded.files.map dir'.movedTo } := by
  cases read : fs.readDir dir with
  | error source =>
      rw [loadDir, FsView.listing, read] at loads
      cases loads
  | ok entries =>
      simp only [loadDir, listing_of_readDir read] at loads
      simp only [loadDir, listing_of_readDir (same.listing.trans read)]
      obtain ⟨clean, parses, ⟨nonempty, valid⟩, policies, whole⟩ :=
        (loadEntries_eq_ok_iff x).mp loads
      have order := same.loadOrder_eq entries
      refine (loadEntries_eq_ok_iff x).mpr ⟨?_, ?_, ⟨nonempty, valid⟩, ?_, ?_⟩
      · intro source mem
        obtain ⟨entry, inDir, same⟩ := List.mem_map.mp mem
        cases entry with
        | ok name => cases same
        | error source' => exact clean source' (List.mem_map.mpr ⟨_, inDir, rfl⟩)
      · rw [order, List.forall_mem_map]
        intro p mem
        obtain ⟨name, rfl⟩ := mem_loadOrder mem
        rw [Path.movedTo_push, same.parses_iff]
        exact parses _ mem
      · rw [policies, order, List.flatMap_map]
        refine (List.flatMap_congr fun p mem => ?_).symm
        obtain ⟨name, rfl⟩ := mem_loadOrder mem
        rw [Path.movedTo_push, same.policiesOf_eq]
      · have digest : (loadOrder fs (entries.map fun entry => entry.map dir'.push)).foldl
            (digested fs)
            .new = (loadOrder fs (entries.map fun entry => entry.map dir.push)).foldl
              (digested fs) .new := by
          rw [order, List.foldl_map]
          refine List.foldl_ext _ _ _ fun digest p mem => ?_
          obtain ⟨name, rfl⟩ := mem_loadOrder mem
          rw [Path.movedTo_push, same.digested_eq]
        rw [digest, order, whole]

end Loads

/-! ## `validate`, `check` and `serve` -/

section Main
variable {Schema β : Type} (x : Externals Schema β)

/-- `run_validate`; of the configuration it reads the policy directory. -/
def runValidate (fs : FsView) (config : Except String Path)
    (schema : Except String Schema) (loadedAt : Nat) : Except String Nat := do
  let policyDir ← config
  let schema ← schema
  let loaded ← (loadDir x fs policyDir schema 1 loadedAt).mapError PolicyLoadError.text
  return x.crate.numOfPolicies loaded.set

theorem runValidate_eq_ok_iff {fs : FsView} {policyDir : Path} {schema : Schema}
    {loadedAt count : Nat} :
    runValidate x fs (.ok policyDir) (.ok schema) loadedAt = .ok count ↔
      ∃ loaded, loadDir x fs policyDir schema 1 loadedAt = .ok loaded ∧
        x.crate.numOfPolicies loaded.set = count := by
  simp only [runValidate, Bind.bind, Except.bind]
  cases loadDir x fs policyDir schema 1 loadedAt with
  | error e => simp [Except.mapError]
  | ok loaded => simp [Except.mapError, pure, Except.pure]

/-- Engines over one schema and one set, loaded under two paths of one directory. -/
theorem bootstrap_of_sameDirectory {fs : FsView} {dir dir' : Path}
    (same : SameDirectory fs dir dir') {schema : Schema} {t : Nat}
    {engine : Engine Schema β}
    (made : Engine.bootstrap x fs schema dir t = .ok engine) (t' : Nat) :
    ∃ again, Engine.bootstrap x fs schema dir' t' = .ok again ∧
      again.schema = engine.schema ∧
      again.current.set = engine.current.set := by
  obtain ⟨rfl, rfl, loads⟩ := Engine.bootstrap_eq_ok x made
  have reloads := loadDir_of_sameDirectory x same (loadDir_anytime x loads 1 t')
  refine ⟨⟨engine.schema, dir', { engine.current with
    generation := 1, loadedAt := t', files := engine.current.files.map dir'.movedTo }⟩,
      ?_, rfl, rfl⟩
  rw [Engine.bootstrap, reloads]
  rfl

theorem sameDirectory_view {I : Type} {fs : HostFs I}
    {cwd place : Place I OsString} {p : Path} (found : locate fs cwd p = .ok place) :
      SameDirectory (view fs cwd) p (pathOf place) := by
  have whole : inodeAt fs cwd (pathOf place) = inodeAt fs cwd p := by
    rw [inodeAt, inodeAt, locate_pathOf (chain_of_locate found), found]
  have entry (name : OsString) :
      inodeAt fs cwd ((pathOf place).push name) = inodeAt fs cwd (p.push name) := by
    rw [inodeAt, inodeAt, locate_push_canonical found]
  refine ⟨?_, fun name => ?_, fun name => ?_⟩
  · show (inodeAt fs cwd _).bind inodeListing = _
    rw [whole]
    rfl
  · show (inodeAt fs cwd _).map inodeMetadata = _
    rw [entry]
    rfl
  · show (inodeAt fs cwd _).bind inodeText = _
    rw [entry]
    rfl

/-- Where the startup of `serve` accepts a configuration, the subcommands agree on it:
`validate` counts the policies of the load `serve` starts with and fails where that load
fails, and `check` gives every payload the decision of the engine that was loaded. -/
theorem subcommands_agree {I σ : Type} [ByteSink σ] (serde : SerdeJson)
    (serialize : AuditLog.Serialize) (fs : HostFs I) (cwd : Place I OsString)
    (paths resolved : StatePaths) (euid : UInt32) (atRisk : Bool)
    (accepted : startup (view fs cwd) paths euid = .ok (resolved, atRisk))
    (schema : Schema) (now : Nat) :
    (∀ loadedAt count,
      runValidate x (view fs cwd) (.ok paths.policyDir) (.ok schema) loadedAt = .ok count ↔
        ∃ engine, Engine.bootstrap x (view fs cwd) schema resolved.policyDir now = .ok engine ∧
          x.crate.numOfPolicies engine.current.set = count) ∧
    ∀ engine, Engine.bootstrap x (view fs cwd) schema resolved.policyDir now = .ok engine →
      ∀ (agents : Config) (files : CheckFiles Schema σ) (bytes : List UInt8)
        (loadedAt : Nat)
        (moment : Moment), files.config = .ok ⟨agents, paths.policyDir, paths.auditLog⟩ →
        files.schema = .ok schema → files.fixture = .ok bytes →
        (runCheck x serde serialize (view fs cwd) files loadedAt moment).result =
          match parse serde bytes agents with
          | .error e => .error e.text
          | .ok query => .ok (engine.evaluate x query moment.evalUs).1 := by
  obtain ⟨resolves, -⟩ := startup_eq_ok_iff.mp accepted
  obtain ⟨place, found, dir, -⟩ := resolveStatePaths_view resolves
  have same := sameDirectory_view found
  rw [dir]
  constructor
  · intro loadedAt count
    rw [runValidate_eq_ok_iff]
    constructor
    · rintro ⟨loaded, loads, rfl⟩
      have made : Engine.bootstrap x (view fs cwd) schema paths.policyDir loadedAt =
          .ok ⟨schema, paths.policyDir, loaded⟩ := by
        rw [Engine.bootstrap, loads]
        rfl
      obtain ⟨engine, started, -, set⟩ := bootstrap_of_sameDirectory x same made now
      exact ⟨engine, started, by rw [set]⟩
    · rintro ⟨engine, started, rfl⟩
      obtain ⟨again, made, -, set⟩ :=
        bootstrap_of_sameDirectory x same.symm started loadedAt
      obtain ⟨-, -, loads⟩ := Engine.bootstrap_eq_ok x made
      exact ⟨_, loads, by rw [set]⟩
  · intro engine started agents files bytes loadedAt moment configured compiled saved
    obtain ⟨again, made, sameSchema, set⟩ :=
      bootstrap_of_sameDirectory x same.symm started loadedAt
    have decides (q : PolicyQuery) (evalUs : Nat) :
        again.evaluate x q evalUs = engine.evaluate x q evalUs := by
      simp only [Engine.evaluate, Engine.snapshot, sameSchema, set]
    rw [result_runCheck x serialize configured compiled made saved]
    cases parse serde bytes agents with
    | error e => rfl
    | ok query => simp only [decides]

end Main

/-! ## A small host -/

/-- The small daemon is configured from within its policy directory. -/
def smallRelativePaths : StatePaths :=
  { smallStatePaths with policyDir := ⟨false, [.curDir]⟩ }

theorem locate_small_relative :
    locate smallStateHost smallDirPlace smallRelativePaths.policyDir =
      .ok smallDirPlace := by
  have steps : smallRelativePaths.policyDir.steps = [] := rfl
  rw [locate_relative rfl (by decide) guarded_small_dir.chain, steps, resolve_nil]
  rfl

theorem startup_small_relative : ∃ resolved atRisk,
    startup (view smallStateHost smallDirPlace) smallRelativePaths 1000 =
      .ok (resolved, atRisk) ∧
      resolved.policyDir = smallDir := by
  obtain ⟨resolved, atRisk, accepted⟩ := startup_small
  obtain ⟨resolves, warnings, checked, -⟩ := startup_eq_ok_iff.mp accepted
  obtain ⟨place, found, dir, -⟩ := resolveStatePaths_view resolves
  cases found.symm.trans locate_small_dir
  have canonical {p : Path}
      (located : locate smallStateHost smallDirPlace p = .ok smallDirPlace) :
      (view smallStateHost smallDirPlace).canonicalize p = .ok (pathOf smallDirPlace) :=
    canonicalize_view_eq_ok_iff.mpr ⟨_, located, rfl⟩
  have again : resolveStatePaths (view smallStateHost smallDirPlace) smallRelativePaths =
      .ok resolved := by
    rw [← resolves, resolveStatePaths, resolveStatePaths, canonical locate_small_relative,
      canonical locate_small_dir]
    rfl
  exact ⟨resolved, _, startup_eq_ok_iff.mpr ⟨again, warnings, checked, rfl⟩, dir⟩

theorem subcommands_agree_small : ∃ count,
    runValidate smallExternals (view smallStateHost smallDirPlace)
      (.ok ⟨false, [.curDir]⟩) (.ok ()) 5 =
      .ok count := by
  obtain ⟨engine, started⟩ := Engine.bootstrap_small
  obtain ⟨resolved, atRisk, accepted, dir⟩ := startup_small_relative
  have made : Engine.bootstrap smallExternals (view smallStateHost smallDirPlace)
      () resolved.policyDir 0 =
      .ok engine := by
    rw [dir, ← started]
    exact congrArg (Except.map _) (loadDir_congr smallExternals sameFiles_small () 1 0)
  have agree :=
    (subcommands_agree (σ := MemorySink) smallExternals statusSerde AuditLog.toJsonLine
      smallStateHost smallDirPlace smallRelativePaths resolved 1000 atRisk
        accepted () 0).1
  exact ⟨_, (agree 5 _).mpr ⟨engine, made, rfl⟩⟩

end NonoCedarPdp
