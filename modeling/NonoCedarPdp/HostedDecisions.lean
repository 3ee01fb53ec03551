import NonoCedarPdp.IsolationSoundness
import NonoCedarPdp.PolicyLoading
import NonoCedarPdp.StartupCheck
import NonoCedarPdp.TrailHistory

/-!
The daemon on a host it shares with other users. Where the startup's check passed and no
policy is a link, what other users do between any two steps of the handlers and the
watcher changes no load, so it changes no decision either.
-/
namespace NonoCedarPdp
open UnixFs Transition

/-! ## Loads that read the same -/

/-- Two views in which the loader finds the same policy files below a directory. -/
structure SameFiles (fs fs' : FsView) (dir : Path) : Prop where
  listing : fs'.readDir dir = fs.readDir dir
  kinds : ∀ entries, fs.readDir dir = .ok entries → ∀ name, .ok name ∈ entries →
    (dir.push name).extension = some cedarExtension →
      fs'.isFile (dir.push name) = fs.isFile (dir.push name)
  texts : ∀ name, Loadable fs dir name →
    fs'.readToString (dir.push name) = fs.readToString (dir.push name)

section Loads
variable {Schema β : Type} (x : Externals Schema β) {fs fs' : FsView} {dir : Path}

theorem classify_congr {listing : List (Except IoError Path)}
    (same : ∀ p, .ok p ∈ listing → p.extension = some cedarExtension →
      policyFileSkipReason fs' p = policyFileSkipReason fs p) :
    classify fs' dir listing = classify fs dir listing := by
  induction listing with
  | nil => rfl
  | cons entry rest ih =>
      have others := ih fun p mem => same p (List.mem_cons_of_mem _ mem)
      cases entry with
      | error source => rfl
      | ok p =>
          by_cases isCedar : p.extension = some cedarExtension
          · rw [classify, classify, same p List.mem_cons_self isCedar, others]
          · rw [classify, classify, if_pos isCedar, if_pos isCedar, others]

theorem foldlM_loadFile_congr {paths : List Path}
    (same : ∀ p ∈ paths, fs'.readToString p = fs.readToString p)
    (state : Cedar.PolicySet β × ContentDigest) :
    paths.foldlM (loadFile x fs') state = paths.foldlM (loadFile x fs) state := by
  induction paths generalizing state with
  | nil => rfl
  | cons p paths ih =>
      have first : loadFile x fs' state p = loadFile x fs state p := by
        rw [loadFile, loadFile, same p List.mem_cons_self]
      have rest := ih fun q mem => same q (List.mem_cons_of_mem p mem)
      rw [List.foldlM_cons, List.foldlM_cons, first]
      simp only [rest]

theorem skipReason_of_sameFiles (same : SameFiles fs fs' dir)
    {entries : List (Except IoError OsString)} (listed : fs.readDir dir = .ok entries)
    {name : OsString} (mem : .ok name ∈ entries)
    (isCedar : (dir.push name).extension = some cedarExtension) :
    policyFileSkipReason fs' (dir.push name) =
      policyFileSkipReason fs (dir.push name) := by
  rw [policyFileSkipReason, policyFileSkipReason,
    same.kinds entries listed name mem isCedar]

/-- A load is a function of the files it finds. -/
theorem loadDir_congr (same : SameFiles fs fs' dir) (schema : Schema)
    (generation : UInt64) (now : Nat) : loadDir x fs' dir schema generation now =
      loadDir x fs dir schema generation now := by
  have listing : fs'.listing dir = fs.listing dir := by
    rw [FsView.listing, FsView.listing, same.listing]
  rw [loadDir, loadDir, listing]
  cases listed : fs.listing dir with
  | error source => rfl
  | ok paths =>
      obtain ⟨entries, read, rfl⟩ := listing_eq_ok_iff.mp listed
      have named {p : Path} (mem : .ok p ∈ entries.map fun entry => entry.map dir.push) :
          ∃ name, .ok name ∈ entries ∧ p = dir.push name := by
        obtain ⟨entry, mem, same⟩ := List.mem_map.mp mem
        cases entry with
        | error source => cases same
        | ok name => exact ⟨name, mem, (Except.ok.inj same).symm⟩
      have classified : classify fs' dir (entries.map fun entry => entry.map dir.push) =
          classify fs dir (entries.map fun entry => entry.map dir.push) := by
        apply classify_congr
        intro p mem isCedar
        obtain ⟨name, inDir, rfl⟩ := named mem
        exact skipReason_of_sameFiles same read inDir isCedar
      simp only [loadEntries, classified]
      cases files : classify fs dir (entries.map fun entry => entry.map dir.push) with
      | error e => rfl
      | ok files' =>
          have texts : ∀ p ∈ files'.mergeSort Path.le,
              fs'.readToString p = fs.readToString p := by
            intro p mem
            obtain ⟨inListing, isCedar, kept⟩ :=
              mem_of_classify files (List.mem_mergeSort.mp mem)
            obtain ⟨name, inDir, rfl⟩ := named inListing
            exact same.texts name
              ⟨⟨entries, read, inDir⟩, isCedar, Option.isNone_iff_eq_none.mpr kept⟩
          simp only [foldlM_loadFile_congr x texts]

end Loads

/-! ## What other users leave of a load -/

/-- No entry that the loader looks at is a link. -/
def PlainPolicies {I : Type} (fs : HostFs I) (place : Place I OsString) : Prop :=
  ∀ name i, fs.lookup (fs.here place) name = some i →
    ((pathOf place).push name).extension = some cedarExtension →
      ∃ n, fs.inode i = some n ∧ n.target = none

section Runs
variable {I : Type} [DecidableEq I] {fs fs' : HostFs I} {cwd place : Place I OsString}
  {euid : UInt32} {actions : List (Action I OsString (List UInt8))}

theorem keepsKinds_run {foreign : UInt32 → Prop}
    (run : Run act (ByForeign foreign) fs actions fs') : KeepsKinds fs fs' :=
  run.invariant (I := KeepsKinds fs)
    (fun _ _ _ kept _ taken => kept.trans (perform_keepsKinds taken))
    fun _ n held => ⟨n, held, rfl, rfl, rfl⟩

omit [DecidableEq I] in
/-- What is listed is an entry of the directory. -/
theorem lookup_of_listed {entries : List (Except IoError OsString)}
    (chain : Chain fs place) (listed : (view fs cwd).readDir (pathOf place) = .ok entries)
    {name : OsString} (mem : .ok name ∈ entries) :
      ∃ i, fs.lookup (fs.here place) name = some i := by
  obtain ⟨n, l, there, dir, rfl⟩ := readDir_view_eq_ok_iff.mp listed
  obtain ⟨entry, inDir, same⟩ := List.mem_map.mp mem
  exact Except.ok.inj same ▸ lookup_of_mem ((inodeAt_pathOf_iff chain).mp there) dir inDir

omit [DecidableEq I] in
theorem regularEntry_of_loadable (chain : Chain fs place) (plain : PlainPolicies fs place)
    {name : OsString} (loadable : Loadable (view fs cwd) (pathOf place) name) :
    RegularEntry fs cwd (pathOf place) name := by
  obtain ⟨⟨entries, listed, mem⟩, isCedar, loads⟩ := loadable
  obtain ⟨i, found⟩ := lookup_of_listed chain listed mem
  obtain ⟨n, held, direct⟩ := plain name i found isCedar
  have child : fs.child (fs.here place) name = some (i, n) :=
    Fs.child_eq_some_iff.mpr ⟨found, held⟩
  have metadata : (view fs cwd).metadata ((pathOf place).push name) =
      .ok (inodeMetadata n) :=
    metadata_view_eq_ok_iff.mpr ⟨n, inodeAt_push chain child direct, rfl⟩
  have isCedarFile : PolicyFile (view fs cwd) ((pathOf place).push name) :=
    loadable_iff.mpr ⟨isCedar, Option.isNone_iff_eq_none.mp loads⟩
  have regular := isCedarFile.regular
  rw [FsView.isFile, metadata] at regular
  exact ⟨place, i, n, locate_pathOf chain, child, regular⟩

variable
  (accepted : refuseUntrustedPolicyDirAs (view fs cwd) (pathOf place) euid = .ok ())
  (chain : Chain fs place) (run : Run act (ByForeign (Foreign euid)) fs actions fs')
include accepted chain run

theorem policiesKept : PoliciesKept fs fs' cwd (pathOf place) := by
  obtain ⟨guarded, tight, trusted⟩ :=
    (refuseUntrustedPolicyDirAs_view_iff (locate_pathOf chain)).mp accepted
  exact policiesKept_of_run guarded tight trusted run

theorem lookup_kept (name : OsString) :
    fs'.lookup (fs'.here place) name = fs.lookup (fs.here place) name := by
  obtain ⟨guarded, ⟨n, held, tight⟩, -⟩ :=
    (refuseUntrustedPolicyDirAs_view_iff (locate_pathOf chain)).mp accepted
  obtain ⟨m, held', safe⟩ := guarded.here
  cases held.symm.trans held'
  obtain ⟨n', after, -, -, node⟩ := inode_run run held safe.owner
  rw [here_of_root (root_run run) place, lookup_eq_of_inode held,
    lookup_eq_of_inode after, Inode.entries, Inode.entries, node tight]

/-- An entry that is no link names the same inode before and after, of the same kind. -/
theorem entry_kept {name : OsString} {i : I} {n : Inode I OsString (List UInt8)}
    (found : fs.lookup (fs.here place) name = some i) (held : fs.inode i = some n)
    (plain : n.target = none) : inodeAt fs cwd ((pathOf place).push name) = .ok n ∧
      ∃ n', inodeAt fs' cwd ((pathOf place).push name) = .ok n' ∧ SameKind n n' := by
  obtain ⟨guarded, -, -⟩ :=
    (refuseUntrustedPolicyDirAs_view_iff (locate_pathOf chain)).mp accepted
  obtain ⟨n', held', kind⟩ := keepsKinds_run run i n held
  have child' : fs'.child (fs'.here place) name = some (i, n') :=
    Fs.child_eq_some_iff.mpr ⟨(lookup_kept accepted chain run name).trans found, held'⟩
  refine ⟨inodeAt_push chain (Fs.child_eq_some_iff.mpr ⟨found, held⟩) plain, n', ?_, kind⟩
  exact inodeAt_push (guarded.run run).chain child' (kind.2.2.trans plain)

theorem sameFiles_run (plain : PlainPolicies fs place) :
    SameFiles (view fs cwd) (view fs' cwd) (pathOf place) := by
  have kept := policiesKept accepted chain run
  refine ⟨kept.listing, ?_, ?_⟩
  · intro entries listed name mem isCedar
    obtain ⟨i, found⟩ := lookup_of_listed chain listed mem
    obtain ⟨n, held, direct⟩ := plain name i found isCedar
    obtain ⟨before, n', after, kind⟩ := entry_kept accepted chain run found held direct
    have metadata : (view fs cwd).metadata ((pathOf place).push name) =
        .ok (inodeMetadata n) :=
      metadata_view_eq_ok_iff.mpr ⟨n, before, rfl⟩
    have metadata' :
        (view fs' cwd).metadata ((pathOf place).push name) = .ok (inodeMetadata n') :=
      metadata_view_eq_ok_iff.mpr ⟨n', after, rfl⟩
    rw [FsView.isFile, FsView.isFile, metadata, metadata']
    exact kind.2.1
  · intro name loadable
    have same :=
      (kept.files name loadable (regularEntry_of_loadable chain plain loadable)).2
    show (inodeAt fs' cwd _).bind inodeText = (inodeAt fs cwd _).bind inodeText
    rw [same]

theorem plainPolicies_run (plain : PlainPolicies fs place) : PlainPolicies fs' place := by
  intro name i found isCedar
  rw [lookup_kept accepted chain run name] at found
  obtain ⟨n, held, direct⟩ := plain name i found isCedar
  obtain ⟨n', held', kind⟩ := keepsKinds_run run i n held
  exact ⟨n', held', kind.2.2.trans direct⟩

/-- The check still accepts. -/
theorem accepted_run (plain : PlainPolicies fs place) :
    refuseUntrustedPolicyDirAs (view fs' cwd) (pathOf place) euid = .ok () := by
  have same := sameFiles_run accepted chain run plain
  have kept := policiesKept accepted chain run
  obtain ⟨guarded, ⟨n, held, tight⟩, trusted⟩ :=
    (refuseUntrustedPolicyDirAs_view_iff (locate_pathOf chain)).mp accepted
  obtain ⟨m, held', safe⟩ := guarded.here
  cases held.symm.trans held'
  obtain ⟨n', after, -, mode, -⟩ := inode_run run held safe.owner
  refine (refuseUntrustedPolicyDirAs_view_iff (locate_pathOf (guarded.run run).chain)).mpr
    ⟨guarded.run run, ⟨n', ?_, mode ▸ tight⟩, ?_⟩
  · rw [here_of_root (root_run run) place]
    exact after
  · rintro name ⟨⟨entries, listed, mem⟩, isCedar, loads⟩
    rw [same.listing] at listed
    have loadable : Loadable (view fs cwd) (pathOf place) name := by
      refine ⟨⟨entries, listed, mem⟩, isCedar, ?_⟩
      rw [isLoadablePolicyFile, ← skipReason_of_sameFiles same listed mem isCedar]
      exact loads
    have unchanged :=
      (kept.files name loadable (regularEntry_of_loadable chain plain loadable)).2
    rw [trustedFile_view_iff, unchanged, ← trustedFile_view_iff]
    exact trusted name loadable

end Runs

/-! ## The daemon among other users -/

/-- The daemon and the host it runs on. -/
structure Hosted (I Schema β σ : Type) where
  host : HostFs I
  serving : Serving Schema β σ

inductive HostedStep (I : Type)
  | act (a : Action I OsString (List UInt8))
  | serve (step : ServingStep)

section Steps
variable {I Schema β σ : Type} [DecidableEq I] [ByteSink σ] (x : Externals Schema β)
  (serialize : AuditLog.Serialize) (euid : UInt32) (cwd : Place I OsString)

def Hosted.step (s : Hosted I Schema β σ) : HostedStep I → Option (Hosted I Schema β σ)
  | .act a => (act s.host a).map fun host => { s with host }
  | .serve step => some { s with serving := s.serving.step x serialize euid step }

/-- Other users act, and the watcher reads the host as it is. -/
def Shared (s : Hosted I Schema β σ) : HostedStep I → Prop
  | .act a => Foreign euid a.user
  | .serve (.judge fs _) | .serve (.reload fs _ _) => fs = view s.host cwd
  | .serve _ => True

end Steps

section Entries
variable {Schema β : Type} (x : Externals Schema β) (engine : Engine Schema β)

/-- The policies of a set, whenever they were loaded. -/
def SamePolicies (set other : LoadedPolicies β) : Prop :=
  set.set = other.set ∧ set.files = other.files ∧ set.contentHash = other.contentHash

/-- The line is one that a daemon whose policies never changed writes. -/
def TrailEntry.AsStarted : TrailEntry β → Prop
  | .decision record _ => ∃ ts query evalUs userAgent,
      record = AuditLog.decidedRecord x.tables ts query
        (engine.evaluate x query evalUs).1 userAgent
  | .rejected _ => True
  | .policySet record => record.outcome = "loaded" ∧
      record.contentHash = some engine.current.contentHash ∧
      record.files = some (engine.current.files.map fun p => controlEscape p.display)

variable {x engine} {set : LoadedPolicies β}

theorem evaluate_congr {other : Engine Schema β} (schema : other.schema = engine.schema)
    (same : SamePolicies other.current engine.current) (q : PolicyQuery) (evalUs : Nat) :
    other.evaluate x q evalUs = engine.evaluate x q evalUs := by
  simp only [Engine.evaluate, Engine.snapshot, schema, same.1]

theorem asStarted_loaded (same : SamePolicies set engine.current) (ts : String)
    (generation : UInt64) (atRisk : Bool) : TrailEntry.AsStarted x engine
      (.policySet (AuditLog.policySetRecord ts generation atRisk
        (.loaded set.contentHash set.files))) := by
  refine ⟨rfl, congrArg some same.2.2, ?_⟩
  rw [← same.2.1]
  rfl

end Entries

/-! ## What every step preserves -/

namespace Serving
variable {Schema β σ : Type} {x : Externals Schema β} {serialize : AuditLog.Serialize}
  {euid : UInt32} {engine : Engine Schema β}

variable (x engine) in
/-- Nothing about the policies has changed since the daemon started from `engine`. -/
structure Steady (s : Serving Schema β σ) : Prop where
  schema : s.daemon.engine.schema = engine.schema
  policyDir : s.daemon.engine.policyDir = engine.policyDir
  active : SamePolicies s.daemon.engine.current engine.current
  pending : ∀ handler p, s.handlers handler = some p →
    ∃ evalUs, p.decision = (engine.evaluate x p.query evalUs).1
  entries : ∀ entry ∈ s.entries, entry.AsStarted x engine

theorem asStarted_snoc {entries : List (TrailEntry β)} (last : TrailEntry β)
    (before : ∀ entry ∈ entries, entry.AsStarted x engine)
    (new : last.AsStarted x engine) :
    ∀ entry ∈ entries ++ [last], entry.AsStarted x engine := by
  intro entry mem
  cases List.mem_append.mp mem with
  | inl old => exact before entry old
  | inr same =>
      rw [List.mem_singleton.mp same]
      exact new

variable [ByteSink σ] {s : Serving Schema β σ}

theorem steady_start (config : Config) (bytes : σ) (unterminated atRisk : Bool)
    (ts : String) :
    (start serialize engine config bytes unterminated atRisk ts).Steady x engine where
  schema := rfl
  policyDir := rfl
  active := ⟨rfl, rfl, rfl⟩
  pending handler p waiting := by cases waiting
  entries entry mem := by
    obtain rfl := List.mem_singleton.mp mem
    exact asStarted_loaded ⟨rfl, rfl, rfl⟩ ts _ atRisk

omit [ByteSink σ] in
theorem steady_evaluate (steady : s.Steady x engine) (handler : Nat) (query : PolicyQuery)
    (userAgent : Option String) (evalUs : Nat) :
    (s.evaluate x handler query userAgent evalUs).Steady x engine := by
  refine { steady with pending := ?_ }
  intro other p waiting
  cases pending_of_evaluate waiting with
  | inl before => exact steady.pending other p before
  | inr new =>
      subst new
      exact ⟨evalUs, congrArg Prod.fst (evaluate_congr steady.schema steady.active query evalUs)⟩

theorem steady_recordDecision (steady : s.Steady x engine) {handler : Nat} {p : Pending β}
    (waiting : s.handlers handler = some p) (ts : String) :
    (s.recordDecision x serialize handler p ts).Steady x engine := by
  obtain ⟨evalUs, decided⟩ := steady.pending handler p waiting
  refine { steady with pending := ?_, entries := asStarted_snoc (.decision _ _) steady.entries ?_ }
  · intro other q stillWaiting
    exact steady.pending other q (pending_of_recordDecision stillWaiting)
  · exact ⟨ts, p.query, evalUs, p.userAgent, by rw [decided]⟩

theorem steady_reject (steady : s.Steady x engine) (ts : String)
    (context : RejectedContext) (reason : String) (userAgent : Option String) :
    (s.reject serialize ts context reason userAgent).Steady x engine :=
  { steady with entries := asStarted_snoc (.rejected _) steady.entries trivial }

omit [ByteSink σ] in
/-- A load that finds what the daemon started with. -/
theorem steady_swap (steady : s.Steady x engine) {loaded : LoadedPolicies β}
    (same : SamePolicies loaded engine.current) : (s.swap loaded).Steady x engine :=
  { schema := steady.schema
    policyDir := steady.policyDir
    active := same
    pending := steady.pending
    entries := steady.entries }

theorem steady_announce (steady : s.Steady x engine) (ts : String) :
    (s.announce serialize ts).Steady x engine where
  schema := steady.schema
  policyDir := steady.policyDir
  active := steady.active
  pending := steady.pending
  entries :=
    asStarted_snoc (.policySet _) steady.entries (asStarted_loaded steady.active ts _ _)

/-- As long as every trust check and every load finds what the daemon started with. -/
theorem steady_step (steady : s.Steady x engine) {a : ServingStep}
    (trusted : ∀ fs ts, a = .judge fs ts →
      refuseUntrustedPolicyDirAs fs engine.policyDir euid = .ok ())
    (loads : ∀ fs now ts, a = .reload fs now ts → ∀ generation,
      loadDir x fs engine.policyDir engine.schema generation now =
        .ok { engine.current with generation, loadedAt := now }) :
    (s.step x serialize euid a).Steady x engine := by
  have moved := s.moved_step x serialize euid a
  generalize s.step x serialize euid a = after at moved
  cases moved with
  | disabled => exact steady
  | evaluated query userAgent evalUs =>
      exact steady_evaluate steady _ query userAgent evalUs
  | decided ts waiting => exact steady_recordDecision steady waiting ts
  | rejected ts context reason userAgent =>
      exact steady_reject steady ts context reason userAgent
  | refused ts idle refuses =>
      rw [steady.policyDir, trusted _ ts rfl] at refuses
      cases refuses
  | trusted ts idle trusts => exact { steady with }
  | failed ts judged fails =>
      rw [steady.policyDir, steady.schema, loads _ _ ts rfl] at fails
      cases fails
  | swapped ts judged found =>
      rw [steady.policyDir, steady.schema, loads _ _ ts rfl] at found
      obtain rfl := Except.ok.inj found
      exact steady_swap steady ⟨rfl, rfl, rfl⟩
  | announced ts owing => exact steady_announce steady ts
  | published atTime owing => exact { steady with }

end Serving

section System
variable {I Schema β σ : Type} [DecidableEq I] [ByteSink σ] {x : Externals Schema β}
  {serialize : AuditLog.Serialize} {euid : UInt32} {fs : HostFs I}
  {cwd place : Place I OsString} {engine : Engine Schema β}

omit [ByteSink σ] in
/-- A load of the host as it is now is the one the daemon started with. -/
theorem loads_again {host : HostFs I} {actions : List (Action I OsString (List UInt8))}
    (chain : Chain fs place) (plain : PlainPolicies fs place)
    (accepted : refuseUntrustedPolicyDirAs (view fs cwd) (pathOf place) euid = .ok ())
    (reached : Run act (ByForeign (Foreign euid)) fs actions host)
    {generation : UInt64} {now : Nat}
    (loads : loadDir x (view fs cwd) (pathOf place) engine.schema generation now =
      .ok engine.current)
    (generation' : UInt64) (now' : Nat) :
    refuseUntrustedPolicyDirAs (view host cwd) (pathOf place) euid = .ok () ∧
      loadDir x (view host cwd) (pathOf place) engine.schema generation' now' =
        .ok { engine.current with generation := generation', loadedAt := now' } := by
  refine ⟨accepted_run accepted chain reached plain, ?_⟩
  rw [loadDir_congr x (sameFiles_run accepted chain reached plain)]
  exact loadDir_anytime x loads generation' now'

omit [DecidableEq I] [ByteSink σ] in
/-- The directory the daemon goes on with is the one the startup's check accepted. -/
theorem policyDir_of_startup {paths resolved : StatePaths} {atRisk : Bool}
    (accepted : startup (view fs cwd) paths euid = .ok (resolved, atRisk))
    (located : locate fs cwd paths.policyDir = .ok place) :
      resolved.policyDir = pathOf place ∧
      refuseUntrustedPolicyDirAs (view fs cwd) (pathOf place) euid = .ok () := by
  obtain ⟨resolves, warnings, checked, -⟩ := startup_eq_ok_iff.mp accepted
  obtain ⟨there, found, dir, -⟩ := resolveStatePaths_view resolves
  cases located.symm.trans found
  obtain ⟨warned, checkedDirs, -⟩ := checkStatePaths_eq_ok_iff.mp checked
  obtain ⟨trusted, -⟩ := check_eq_ok_iff.mp checkedDirs
  have chain := chain_of_locate located
  rw [dir, absolutize_absolute (view fs cwd) rfl,
    absolutize_of_locate (locate_pathOf chain)] at trusted
  exact ⟨dir, trusted⟩

end System

/-! ## A small host -/

theorem sameFiles_small :
    SameFiles smallView (view smallStateHost smallDirPlace) smallDir := by
  have chain := guarded_small_dir.chain
  have listed : (view smallStateHost smallDirPlace).readDir smallDir =
      .ok [.ok (Utf8.encode "base.cedar")] :=
    readDir_view_eq_ok_iff.mpr ⟨_, _, (inodeAt_pathOf_iff chain).mpr rfl, rfl, rfl⟩
  have file : inodeAt smallStateHost smallDirPlace
      (smallDir.push (Utf8.encode "base.cedar")) =
      .ok ⟨1000, 0o600, .file (Utf8.encode permitAllText)⟩ :=
        inodeAt_push (i := 2) chain rfl rfl
  refine ⟨listed.trans rfl, ?_, ?_⟩
  · intro entries listed' name mem _
    cases listed'
    obtain rfl : name = Utf8.encode "base.cedar" := by simpa [baseFile] using mem
    have metadata := metadata_view_eq_ok_iff.mpr ⟨_, file, rfl⟩
    rw [FsView.isFile, metadata]
    rfl
  · rintro name ⟨⟨entries, listed', mem⟩, -⟩
    cases listed'
    obtain rfl : name = Utf8.encode "base.cedar" := by simpa [baseFile] using mem
    have text : (view smallStateHost smallDirPlace).readToString
        (smallDir.push (Utf8.encode "base.cedar")) = .ok permitAllText := by
      show (inodeAt smallStateHost smallDirPlace _).bind inodeText = _
      rw [file, Except.bind, inodeText, Inode.content]
      simp only [Utf8.decode?_encode]
    have before : smallView.readToString (smallDir.push (Utf8.encode "base.cedar")) =
        .ok permitAllText := by
      simp [smallView, filesView, baseFile, smallDir, Path.push]
    exact text.trans before.symm

theorem plain_small : PlainPolicies smallStateHost smallDirPlace := by
  intro name i found _
  have entry : (name, i) ∈ [(Utf8.encode "base.cedar", 2)] := mem_of_lookup rfl rfl found
  cases List.mem_singleton.mp entry
  exact ⟨_, rfl, rfl⟩

/-- The small daemon on a host. -/
def smallHosted (engine : Engine Unit Unit) (atRisk : Bool) (host : HostFs Nat) :
    Hosted Nat Unit Unit MemorySink where
  host
  serving := Serving.start AuditLog.toJsonLine engine ⟨[("cedar", "claude-code")]⟩
    ⟨[], .none⟩ false atRisk "1970-01-01T00:00:00Z"

end NonoCedarPdp
