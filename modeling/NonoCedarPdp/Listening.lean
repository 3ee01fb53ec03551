import NonoCedarPdp.ServeSteps

/-!
What a daemon that listens serves with. Whatever other users do on the way, it is what was
checked, unless somebody had put a link in the place of a resolved path before its check:
the checks resolve their paths again, the loads do not.
-/
namespace NonoCedarPdp
open UnixFs Transition

/-! ## What was so at some moment -/

section Moments
variable {I Schema : Type} [DecidableEq I] (given : ServeGiven I Schema)

/-- Other users have made the one host into the other. -/
def Since (fs host : HostFs I) : Prop :=
  ∃ actions, Run act (ByForeign (Foreign given.euid)) fs actions host

/-- It was so at a moment between the two. -/
def Sometime (fs host : HostFs I) (holds : HostFs I → Prop) : Prop :=
  ∃ moment, Since given fs moment ∧ Since given moment host ∧ holds moment

variable {given} {fs host host' : HostFs I} {holds also : HostFs I → Prop}

theorem Since.refl (fs : HostFs I) : Since given fs fs := ⟨[], .nil⟩

theorem Since.trans (before : Since given fs host) (after : Since given host host') :
    Since given fs host' := by
  obtain ⟨earlier, first⟩ := before
  obtain ⟨further, second⟩ := after
  exact ⟨_, first.append second⟩

theorem Sometime.now (since : Since given fs host) (holds_now : holds host) :
    Sometime given fs host holds :=
  ⟨host, since, .refl host, holds_now⟩

theorem Sometime.later (once : Sometime given fs host holds)
    (since : Since given host host') : Sometime given fs host' holds := by
  obtain ⟨moment, before, after, held⟩ := once
  exact ⟨moment, before, after.trans since, held⟩

theorem Sometime.imp (once : Sometime given fs host holds)
    (gives : ∀ moment, Since given moment host → holds moment → also moment) :
    Sometime given fs host also := by
  obtain ⟨moment, before, after, held⟩ := once
  exact ⟨moment, before, after, gives moment after held⟩

/-! ## What the statements before the load find -/

variable (given)

def ReadConfig (fs host : HostFs I) (config : ConfigFile) : Prop :=
  Sometime given fs host fun moment =>
    ConfigFile.load given.toml (view moment given.cwd) given.home given.configPath = .ok config

def ResolvedTo (fs host : HostFs I) (configured resolved : Path) : Prop :=
  Sometime given fs host fun moment =>
    (view moment given.cwd).canonicalize configured = .ok resolved

/-- The configuration is that of the file, with its directory and its pair each resolved
on its own. -/
def Configured (fs host : HostFs I) (config : ConfigFile) : Prop :=
  ∃ configured, ReadConfig given fs host { config with paths := configured } ∧
    ResolvedTo given fs host configured.policyDir config.paths.policyDir ∧
    Option.Rel (fun asked found => ResolvedTo given fs host asked.cert found.cert ∧
      ResolvedTo given fs host asked.key found.key) configured.tls config.paths.tls

/-- `isolation::check` accepts the policy directory on this host. -/
def DirChecked (policyDir : Path) (checked : HostFs I) : Prop :=
  ∃ cwd, refuseUntrustedPolicyDirAs (view checked given.cwd)
    (absolutize (view checked given.cwd) policyDir cwd) given.euid = .ok ()

/-- `isolation::check_private_key` accepts the key on this host. -/
def KeyChecked (key : Path) (checked : HostFs I) : Prop :=
  ∃ cwd, refuseAReadablePrivateKeyAs (view checked given.cwd)
    (absolutize (view checked given.cwd) key cwd) given.euid = .ok ()

/-- The path leads to where it says: nobody has put a link in its place. -/
def Stands (p : Path) (checked : HostFs I) : Prop :=
  (view checked given.cwd).canonicalize p = .ok p

/-- There are no links among the policies of a resolved directory. -/
def PlainDirectory (fs : HostFs I) (dir : Path) : Prop :=
  ∀ place, Chain fs place → dir = pathOf place → PlainPolicies fs place

variable {given} {config : ConfigFile} {p : Path} {checked : HostFs I}
  {place : Place I OsString}

theorem Configured.later (found : Configured given fs host config)
    (since : Since given host host') : Configured given fs host' config := by
  obtain ⟨configured, file, policyDir, tls⟩ := found
  refine ⟨configured, Sometime.later file since, Sometime.later policyDir since, ?_⟩
  generalize configured.tls = asked, config.paths.tls = found at tls ⊢
  cases tls with
  | none => exact .none
  | some resolved => exact .some ⟨resolved.1.later since, resolved.2.later since⟩

theorem Configured.loopback (found : Configured given fs host config) :
    config.bind.ip.isLoopback = true := by
  obtain ⟨configured, ⟨moment, -, -, loaded⟩, -⟩ := found
  have loopback := isLoopback_of_load loaded
  exact loopback

omit [DecidableEq I] in
theorem Stands.chain (stands : Stands given p checked) :
    ∃ place, Chain checked place ∧ p = pathOf place := by
  obtain ⟨place, located, same⟩ := canonicalize_view_eq_ok_iff.mp stands
  exact ⟨place, chain_of_locate located, same.symm⟩

omit [DecidableEq I] in
theorem stands_of_chain (chain : Chain checked place) :
    Stands given (pathOf place) checked :=
  canonicalize_view_eq_ok_iff.mpr ⟨place, locate_pathOf chain, rfl⟩

/-- A directory nobody else could replace when it was resolved stands ever after. -/
theorem stands_of_guarded (guarded : Guarded (Foreign given.euid) fs place)
    (since : Since given fs checked) : Stands given (pathOf place) checked := by
  obtain ⟨actions, run⟩ := since
  exact stands_of_chain (guarded.run run).chain

omit [DecidableEq I] in
/-- Where the directory stands, the check is one of it. -/
theorem trusted_of_dirChecked (accepted : DirChecked given (pathOf place) checked)
    (chain : Chain checked place) :
    refuseUntrustedPolicyDirAs (view checked given.cwd) (pathOf place) given.euid = .ok () := by
  obtain ⟨cwd, trusted⟩ := accepted
  rwa [absolutize_absolute (view checked given.cwd) rfl,
    absolutize_of_locate (locate_pathOf chain)] at trusted

omit [DecidableEq I] in
/-- Where the key stands, it is the one that is kept private. -/
theorem kept_of_keyChecked (accepted : KeyChecked given (pathOf place) checked)
    (chain : Chain checked place) : ∃ n, KeptPrivate checked given.euid place n := by
  obtain ⟨cwd, kept⟩ := accepted
  rw [absolutize_absolute (view checked given.cwd) rfl,
    absolutize_of_locate (locate_pathOf chain)] at kept
  exact (refuseAReadablePrivateKeyAs_view_iff (locate_pathOf chain)).mp kept

end Moments

/-! ## What holds by then -/

section Sound
variable {I Schema β σ Cert Key Pair : Type} [DecidableEq I] [ByteSink σ]
  (x : Externals Schema β) (crate : TlsCrate Cert Key Pair) (given : ServeGiven I Schema)

/-- The checks accepted the configuration, that of the directory where the policies are
so. -/
structure Cleared (fs host : HostFs I) (config : ConfigFile)
    (policies : HostFs I → Prop) : Prop where
  configured : Configured given fs host config
  directory : Sometime given fs host fun checked =>
    DirChecked given config.paths.policyDir checked ∧ policies checked
  key : ∀ tls, config.paths.tls = some tls →
    Sometime given fs host (KeyChecked given tls.key)

/-- The engine was loaded from the directory as other users left it since. -/
def LoadedSince (config : ConfigFile) (engine : Engine Schema β)
    (checked : HostFs I) : Prop :=
  ∃ host schema now, Since given checked host ∧ given.schema = .ok schema ∧
    Engine.bootstrap x (view host given.cwd) schema config.paths.policyDir now = .ok engine

/-- The daemon goes on with what was checked. -/
def ServesSince (config : ConfigFile) (serving : Serving Schema β σ)
    (checked : HostFs I) : Prop :=
  ∃ engine, LoadedSince x given config engine checked ∧
    (Stands given config.paths.policyDir checked →
      PlainDirectory checked config.paths.policyDir → serving.Steady x engine)

/-- The pair was made of the key that was checked, as other users left it since. -/
def PairRead (fs host : HostFs I) (tls : Tls) (pair : Pair) : Prop :=
  Sometime given fs host fun checked => KeyChecked given tls.key checked ∧
    ∃ reads certPem keyPem, Since given checked reads ∧
      readFile reads given.cwd tls.key = .ok keyPem ∧ PairOf crate certPem keyPem pair

/-- The transport is the configured one, and its pair is the one the verifier accepted. -/
def Proven (fs host : HostFs I) (config : ConfigFile) (transport : Option Pair) : Prop :=
  match config.paths.tls with
  | none => transport = none
  | some tls =>
      ∃ pair now, transport = some pair ∧ PairRead crate given fs host tls pair ∧
        crate.verifies now pair config.bind.ip = .ok ()

/-- What holds in a phase. -/
def PhaseSound (fs host : HostFs I) : ServePhase Schema β σ Cert Pair → Prop
  | .configuring | .refused _ => True
  | .resolvingDir config => ReadConfig given fs host config
  | .resolvingLog config policyDir => ReadConfig given fs host config ∧
      ResolvedTo given fs host config.paths.policyDir policyDir
  | .resolvingCert config policyDir _ tls =>
      ReadConfig given fs host config ∧
      ResolvedTo given fs host config.paths.policyDir policyDir ∧
        config.paths.tls = some tls
  | .resolvingKey config policyDir _ tls cert =>
      ReadConfig given fs host config ∧
      ResolvedTo given fs host config.paths.policyDir policyDir ∧
        config.paths.tls = some tls ∧ ResolvedTo given fs host tls.cert cert
  | .locating config | .checking config _ => Configured given fs host config
  | .checkingKey config _ _ tls =>
      Configured given fs host config ∧ config.paths.tls = some tls ∧
        Sometime given fs host (DirChecked given config.paths.policyDir)
  | .loading config _ => Cleared given fs host config fun _ => True
  | .opening config _ engine =>
      Cleared given fs host config (LoadedSince x given config engine)
  | .registering config serving | .pairing config serving =>
      Cleared given fs host config (ServesSince x given config serving)
  | .keying config serving tls chain =>
      Cleared given fs host config (ServesSince x given config serving) ∧
        config.paths.tls = some tls ∧ ∃ certPem, ChainOf crate certPem chain
  | .proving config serving tls pair =>
      Cleared given fs host config (ServesSince x given config serving) ∧
        config.paths.tls = some tls ∧ PairRead crate given fs host tls pair
  | .binding config serving transport =>
      Cleared given fs host config (ServesSince x given config serving) ∧
        Proven crate given fs host config transport
  | .listening config serving listener =>
      Cleared given fs host config (ServesSince x given config serving) ∧
        Proven crate given fs host config listener.transport ∧
        listener.address.ip = config.bind.ip

/-! ## What every step preserves -/

variable {x crate given} {serialize : AuditLog.Serialize}
  {fs host host' checked : HostFs I} {config : ConfigFile} {atRisk : Bool}
  {engine : Engine Schema β} {serving : Serving Schema β σ} {tls : Tls} {pair : Pair}
  {transport : Option Pair} {policies kept : HostFs I → Prop}
  {phase next : ServePhase Schema β σ Cert Pair} {s : Deployed I Schema β σ Cert Pair}

theorem Cleared.later (cleared : Cleared given fs host config policies)
    (since : Since given host host') : Cleared given fs host' config policies where
  configured := cleared.configured.later since
  directory := cleared.directory.later since
  key tls configured := (cleared.key tls configured).later since

theorem Cleared.imp (cleared : Cleared given fs host config policies)
    (gives : ∀ checked, Since given checked host →
      DirChecked given config.paths.policyDir checked →
      policies checked → kept checked) : Cleared given fs host config kept where
  configured := cleared.configured
  directory := cleared.directory.imp fun checked since found =>
    ⟨found.1, gives checked since found.1 found.2⟩
  key := cleared.key

theorem Proven.later (proven : Proven crate given fs host config transport)
    (since : Since given host host') : Proven crate given fs host' config transport := by
  rw [Proven] at proven ⊢
  cases configured : config.paths.tls with
  | none => simpa only [configured] using proven
  | some tls =>
      simp only [configured] at proven
      obtain ⟨pair, now, same, read, verified⟩ := proven
      exact ⟨pair, now, same, Sometime.later read since, verified⟩

omit [ByteSink σ] in
/-- What others do leaves a phase sound. -/
theorem PhaseSound.later (sound : PhaseSound x crate given fs host phase)
    (since : Since given host host') : PhaseSound x crate given fs host' phase := by
  cases phase with
  | configuring | refused => trivial
  | resolvingDir => exact Sometime.later sound since
  | resolvingLog => exact ⟨Sometime.later sound.1 since, Sometime.later sound.2 since⟩
  | resolvingCert =>
      exact ⟨Sometime.later sound.1 since, Sometime.later sound.2.1 since, sound.2.2⟩
  | resolvingKey =>
      obtain ⟨file, policyDir, configured, cert⟩ := sound
      exact ⟨Sometime.later file since, Sometime.later policyDir since, configured,
        Sometime.later cert since⟩
  | locating | checking => exact Configured.later sound since
  | checkingKey => exact ⟨sound.1.later since, sound.2.1, sound.2.2.later since⟩
  | loading | opening | registering | pairing => exact Cleared.later sound since
  | keying => exact ⟨sound.1.later since, sound.2⟩
  | proving => exact ⟨sound.1.later since, sound.2.1, Sometime.later sound.2.2 since⟩
  | binding => exact ⟨sound.1.later since, sound.2.later since⟩
  | listening => exact ⟨sound.1.later since, sound.2.1.later since, sound.2.2⟩

/-- Whatever others did between the check and the load, the load is that of the directory
that was checked, if it stood. -/
theorem LoadedSince.here (loaded : LoadedSince x given config engine checked)
    (accepted : DirChecked given config.paths.policyDir checked)
    (stands : Stands given config.paths.policyDir checked)
    (plain : PlainDirectory checked config.paths.policyDir) :
    ∃ place, Chain checked place ∧ PlainPolicies checked place ∧
      engine.policyDir = pathOf place ∧
      config.paths.policyDir = pathOf place ∧ given.schema = .ok engine.schema ∧
      refuseUntrustedPolicyDirAs (view checked given.cwd) (pathOf place) given.euid = .ok () ∧
        ∃ now, loadDir x (view checked given.cwd) (pathOf place) engine.schema 1 now =
          .ok engine.current := by
  obtain ⟨host, schema, now, ⟨actions, meanwhile⟩, known, made⟩ := loaded
  obtain ⟨place, chain, dir⟩ := stands.chain
  rw [dir] at accepted
  have trusted := trusted_of_dirChecked accepted chain
  have direct := plain place chain dir
  obtain ⟨rfl, policyDir, loads⟩ := Engine.bootstrap_eq_ok x made
  rw [dir, loadDir_congr x (sameFiles_run trusted chain meanwhile direct)] at loads
  exact ⟨place, chain, direct, policyDir.trans dir, dir, known, trusted, now, loads⟩

theorem servesSince_step (serves : ServesSince x given config serving checked)
    (accepted : DirChecked given config.paths.policyDir checked)
    (since : Since given checked host) {step : ServingStep}
    (reads : ∀ found,
      ((∃ ts, step = .judge found ts) ∨ ∃ now ts, step = .reload found now ts) →
      found = view host given.cwd) :
    ServesSince x given config (serving.step x serialize given.euid step) checked := by
  obtain ⟨engine, loaded, steady⟩ := serves
  refine ⟨engine, loaded, fun stands plain => ?_⟩
  obtain ⟨place, chain, direct, dir, -, -, trusted, now, loads⟩ :=
    loaded.here accepted stands plain
  obtain ⟨actions, meanwhile⟩ := since
  have again := loads_again chain direct trusted meanwhile loads
  rw [← dir] at again
  refine Serving.steady_step (steady stands plain) ?_ ?_
  · rintro found ts rfl
    obtain rfl := reads found (.inl ⟨ts, rfl⟩)
    exact (again 0 0).1
  · rintro found now ts rfl generation
    obtain rfl := reads found (.inr ⟨now, ts, rfl⟩)
    exact (again generation now).2

omit [ByteSink σ] in
theorem phaseSound_refuse {α ε : Type} {text : ε → String}
    {into : α → ServePhase Schema β σ Cert Pair} {result : Except ε α}
    (sound : ∀ a, result = .ok a → PhaseSound x crate given fs host (into a)) :
    PhaseSound x crate given fs host (.refuse text into result) := by
  cases result with
  | ok a => exact sound a rfl
  | error e => trivial

omit [ByteSink σ] in
/-- A statement before the load finds what it finds on the host as it is. -/
theorem phaseSound_check (sound : PhaseSound x crate given fs host phase)
    (since : Since given fs host) (taken : checkStep given host phase = some next) :
    PhaseSound x crate given fs host next := by
  cases phase with
  | configuring =>
      cases taken
      exact phaseSound_refuse fun config loaded => Sometime.now since loaded
  | resolvingDir config =>
      cases taken
      exact phaseSound_refuse fun policyDir found => ⟨sound, Sometime.now since found⟩
  | resolvingLog config policyDir =>
      cases configured : config.paths.tls with
      | none =>
          simp only [checkStep, configured, Option.some.injEq] at taken
          subst taken
          refine ⟨config.paths, sound.1, sound.2, ?_⟩
          rw [configured]
          exact .none
      | some tls =>
          simp only [checkStep, configured, Option.some.injEq] at taken
          subst taken
          exact ⟨sound.1, sound.2, configured⟩
  | resolvingCert config policyDir auditLog tls =>
      cases taken
      obtain ⟨file, found, configured⟩ := sound
      exact phaseSound_refuse fun cert resolved =>
        ⟨file, found, configured, Sometime.now since resolved⟩
  | resolvingKey config policyDir auditLog tls cert =>
      cases taken
      obtain ⟨file, found, configured, certFound⟩ := sound
      refine phaseSound_refuse fun key resolved => ⟨config.paths, file, found, ?_⟩
      rw [configured]
      exact .some ⟨certFound, Sometime.now since resolved⟩
  | locating config =>
      cases taken
      exact sound
  | checking config cwd =>
      cases taken
      refine phaseSound_refuse fun warnings accepted => ?_
      have checked : DirChecked given config.paths.policyDir host :=
        ⟨_, (check_eq_ok_iff.mp accepted).1⟩
      cases configured : config.paths.tls with
      | none =>
          refine ⟨sound, Sometime.now since ⟨checked, trivial⟩, fun tls same => ?_⟩
          cases configured.symm.trans same
      | some tls => exact ⟨sound, configured, Sometime.now since checked⟩
  | checkingKey config cwd warnings tls =>
      cases taken
      obtain ⟨found, configured, directory⟩ := sound
      refine phaseSound_refuse fun keyWarnings accepted =>
        ⟨found, directory.imp fun _ _ checked => ⟨checked, trivial⟩, fun other same => ?_⟩
      cases configured.symm.trans same
      exact Sometime.now since ⟨_, (checkPrivateKey_eq_ok_iff.mp accepted).1⟩
  | loading | opening | registering | pairing | keying | proving | binding | listening
  | refused =>
      cases taken

theorem phaseSound_proceed (sound : PhaseSound x crate given fs host phase)
    (since : Since given fs host)
    (taken : ownStep x crate serialize given host phase .proceed = some next) :
    PhaseSound x crate given fs host next := by
  cases phase with
  | pairing config serving =>
      cases configured : config.paths.tls with
      | none =>
          simp only [ownStep, configured, Option.some.injEq] at taken
          subst taken
          refine ⟨sound, ?_⟩
          rw [Proven, configured]
      | some tls =>
          simp only [ownStep, configured, Option.some.injEq] at taken
          subst taken
          refine phaseSound_refuse fun chain loaded => ⟨sound, configured, ?_⟩
          obtain ⟨certPem, -, certs⟩ := chainOf_of_loadChain loaded
          exact ⟨certPem, certs⟩
  | keying config serving tls chain =>
      cases taken
      obtain ⟨cleared, configured, certPem, certs⟩ := sound
      refine phaseSound_refuse fun pair loaded => ⟨cleared, configured, ?_⟩
      obtain ⟨keyPem, read, made⟩ := pairOf_of_loadKey certs loaded
      exact (cleared.key tls configured).imp fun checked meanwhile accepted =>
        ⟨accepted, host, certPem, keyPem, meanwhile, read, made⟩
  | configuring | resolvingDir | resolvingLog | resolvingCert | resolvingKey | locating
  | checking | checkingKey => exact phaseSound_check sound since taken
  | loading | opening | registering | proving | binding | listening | refused =>
      cases taken

/-- A step of its own leaves what was checked checked. -/
theorem phaseSound_own {label : DeployedStep I σ}
    (sound : PhaseSound x crate given fs host phase) (since : Since given fs host)
    (taken : ownStep x crate serialize given host phase label = some next) :
    PhaseSound x crate given fs host next := by
  cases label with
  | proceed => exact phaseSound_proceed sound since taken
  | load now =>
      cases phase <;> cases taken
      refine phaseSound_refuse fun engine made =>
        Cleared.imp sound fun checked meanwhile _ _ => ?_
      obtain ⟨schema, known, made⟩ := bind_eq_ok_iff.mp made
      exact ⟨host, schema, now, meanwhile, known, mapError_ok_iff.mp made⟩
  | openAudit opened ts =>
      cases phase <;> cases taken
      exact phaseSound_refuse fun log _ => Cleared.imp sound fun checked _ _ loaded =>
        ⟨_, loaded, fun _ _ => Serving.steady_start _ _ _ _ _⟩
  | register started =>
      cases phase <;> cases taken
      exact phaseSound_refuse fun _ _ => sound
  | prove now =>
      cases phase <;> cases taken
      obtain ⟨cleared, configured, read⟩ := sound
      refine phaseSound_refuse fun _ proven => ⟨cleared, ?_⟩
      rw [Proven, configured]
      exact ⟨_, now, rfl, read, mapError_ok_iff.mp proven⟩
  | bind bound =>
      cases phase <;> cases taken
      exact phaseSound_refuse fun port _ => ⟨sound.1, sound.2, rfl⟩
  | act | serve => cases phase <;> cases taken

theorem phaseSound_serve {step : ServingStep}
    (sound : PhaseSound x crate given fs host phase) (reads : ∀ found,
      ((∃ ts, step = .judge found ts) ∨ ∃ now ts, step = .reload found now ts) →
      found = view host given.cwd)
    (taken : phase.serving (·.step x serialize given.euid step) step.ofWatcher = some next) :
    PhaseSound x crate given fs host next := by
  have stepped {config : ConfigFile} {serving : Serving Schema β σ}
      (cleared : Cleared given fs host config (ServesSince x given config serving)) :
      Cleared given fs host config
        (ServesSince x given config (serving.step x serialize given.euid step)) :=
    cleared.imp fun checked since accepted serves =>
      servesSince_step serves accepted since reads
  cases phase with
  | pairing config serving =>
      obtain ⟨-, same⟩ := Option.ite_none_right_eq_some.mp taken
      cases same
      exact stepped sound
  | keying config serving tls chain =>
      obtain ⟨-, same⟩ := Option.ite_none_right_eq_some.mp taken
      cases same
      exact ⟨stepped sound.1, sound.2⟩
  | proving config serving tls pair =>
      obtain ⟨-, same⟩ := Option.ite_none_right_eq_some.mp taken
      cases same
      exact ⟨stepped sound.1, sound.2⟩
  | binding config serving transport =>
      obtain ⟨-, same⟩ := Option.ite_none_right_eq_some.mp taken
      cases same
      exact ⟨stepped sound.1, sound.2⟩
  | listening config serving listener =>
      cases taken
      exact ⟨stepped sound.1, sound.2⟩
  | configuring | resolvingDir | resolvingLog | resolvingCert | resolvingKey | locating
  | checking | checkingKey | loading | opening | registering | refused => cases taken

theorem phaseSound_run {labels : List (DeployedStep I σ)}
    (run : Run (Deployed.step x crate serialize given) (Deployed.Among given)
      ⟨fs, .configuring⟩ labels s) :
    Since given fs s.host ∧ PhaseSound x crate given fs s.host s.phase := by
  have first : PhaseSound x crate given fs fs
      (.configuring : ServePhase Schema β σ Cert Pair) := trivial
  refine run.invariant
    (I := fun t => Since given fs t.host ∧ PhaseSound x crate given fs t.host t.phase)
    (fun t label u now among taken => ?_) ⟨.refl fs, first⟩
  obtain ⟨since, sound⟩ := now
  cases label with
  | act a =>
      obtain ⟨host, acted, rfl⟩ := Option.map_eq_some_iff.mp taken
      have meanwhile : Since given t.host host := ⟨[a], .single among acted⟩
      exact ⟨since.trans meanwhile, sound.later meanwhile⟩
  | serve step =>
      obtain ⟨phase, stepped, rfl⟩ := Option.map_eq_some_iff.mp taken
      refine ⟨since, phaseSound_serve sound ?_ stepped⟩
      rintro found (⟨ts, rfl⟩ | ⟨now, ts, rfl⟩)
      · exact among
      · exact among
  | proceed | load | openAudit | register | prove | bind =>
      obtain ⟨phase, stepped, rfl⟩ := Option.map_eq_some_iff.mp taken
      exact ⟨since, phaseSound_own sound since stepped⟩

end Sound

/-! ## The key that was checked -/

section Keys
variable {I : Type} [DecidableEq I] {fs host : HostFs I} {cwd place : Place I OsString}
  {euid : UInt32} {actions : List (Action I OsString (List UInt8))}
  {n : Inode I OsString (List UInt8)} {i : I} {bytes : List UInt8}

/-- It is read as it was checked, and stays unreadable. -/
theorem key_kept (chain : Chain fs place) (kept : KeptPrivate fs euid place n)
    (file : FileAt fs cwd (pathOf place) i bytes)
    (run : Run act (ByForeign (Foreign euid)) fs actions host) :
    readFile host cwd (pathOf place) = .ok bytes ∧
      ∀ user, Foreign euid user → ¬ MayRead host user i ∧ ¬ MayWrite host user i := by
  obtain ⟨there, m, found, rfl, held, content⟩ := file
  obtain rfl : place = there := Except.ok.inj ((locate_pathOf chain).symm.trans found)
  obtain rfl : n = m := Option.some.inj (kept.held.symm.trans held)
  have plain := Inode.target_eq_none_of_content (Option.isSome_of_eq_some content)
  obtain ⟨chain', here, n', held', owner, mode, node⟩ := kept.chain_run chain plain run
  obtain ⟨secret, tight⟩ := tight_of_looseKeyAccess kept.mode
  constructor
  · have inode : inodeAt host cwd (pathOf place) = .ok n' :=
      (inodeAt_pathOf_iff chain').mpr (here ▸ held')
    have content' : n'.content = some bytes := by
      rw [Inode.content, node]
      exact content
    simp only [readFile, inode, Except.bind, content']
  · intro user foreign
    have others : n'.owner ≠ user := fun same => kept.owner (owner ▸ same ▸ foreign)
    exact ⟨not_mayRead_of_tight held' others (mode ▸ secret),
      not_mayWrite_of_tight held' others (mode ▸ tight)⟩

end Keys

def smallEtcPlace (name : String) (i : Nat) : Place Nat OsString :=
  [(Utf8.encode name, i), (Utf8.encode "etc", 5)]

def smallTls : Tls :=
  ⟨pathOf (smallEtcPlace "cert.pem" 7), pathOf (smallEtcPlace "key.pem" 8)⟩

def smallRawConfig : RawConfig where
  bind := none
  policyDir := "/policies"
  auditLog := some "../tmp/decisions.jsonl"
  agents := [("cedar", "claude-code")]
  tls := some ⟨"/etc/cert.pem", "/etc/key.pem"⟩

def smallGiven : ServeGiven Nat Unit where
  euid := 1000
  cwd := smallDirPlace
  home := none
  configPath := pathOf (smallEtcPlace "pdp.toml" 6)
  toml text := if text = smallConfigText then .ok smallRawConfig
    else .error "expected a table key"
  schema := .ok ()

/-- A crate that reads the one pair, and a verifier that trusts it. -/
def smallTlsCrate : TlsCrate Unit Unit Unit where
  certs bytes := if bytes = Utf8.encode smallCertText then .ok [()] else .ok []
  privateKey bytes := if bytes = Utf8.encode smallKeyText then .ok (some ()) else .ok none
  protocolVersions := .ok ()
  singleCert _ _ := .ok ()
  verifies _ _ _ := .ok ()

theorem guarded_small_etc :
    Guarded (Foreign 1000) smallStateHost [(Utf8.encode "etc", 5)] :=
  ⟨guarded_small_root, _, rfl, ⟨_, rfl⟩, by simp [Foreign], by decide⟩

theorem load_small_config :
    ConfigFile.load smallGiven.toml
      (view smallStateHost smallDirPlace) none smallGiven.configPath =
      .ok (smallRawConfig.expanded none) := by
  have chain : Chain smallStateHost (smallEtcPlace "pdp.toml" 6) :=
    ⟨guarded_small_etc.chain, _, rfl, rfl⟩
  have file : inodeAt smallStateHost smallDirPlace smallGiven.configPath =
      .ok ⟨1000, 0o644, .file (Utf8.encode smallConfigText)⟩ :=
        (inodeAt_pathOf_iff chain).mpr rfl
  have text : (view smallStateHost smallDirPlace).readToString smallGiven.configPath =
      .ok smallConfigText := by
    show (inodeAt smallStateHost smallDirPlace _).bind inodeText = _
    rw [file, Except.bind, inodeText, Inode.content]
    simp only [Utf8.decode?_encode]
  have raw : smallGiven.toml smallConfigText = .ok smallRawConfig := by
    simp only [smallGiven, ↓reduceIte]
  exact bind_eq_ok_iff.mpr ⟨_, mapError_ok_iff.mpr text,
    bind_eq_ok_iff.mpr ⟨_, mapError_ok_iff.mpr raw, if_pos rfl⟩⟩

theorem paths_small_config :
    (smallRawConfig.expanded none).paths =
      { smallStatePaths with tls := some smallTls } := by
  have dir : expandTilde none "/policies" = smallDir := by decide +kernel
  have log : expandTilde none "../tmp/decisions.jsonl" = smallStatePaths.auditLog := by
    decide +kernel
  have cert : expandTilde none "/etc/cert.pem" = smallTls.cert := by decide +kernel
  have key : expandTilde none "/etc/key.pem" = smallTls.key := by decide +kernel
  simp only [RawConfig.expanded, smallRawConfig, Option.map_some, Option.getD_some, dir,
    log, cert, key]
  rfl

theorem chain_small_key : Chain smallStateHost (smallEtcPlace "key.pem" 8) :=
  ⟨guarded_small_etc.chain, _, rfl, rfl⟩

theorem kept_small_key : KeptPrivate smallStateHost 1000 (smallEtcPlace "key.pem" 8)
    ⟨1000, 0o600, .file (Utf8.encode smallKeyText)⟩ :=
  ⟨rfl, by simp [Foreign], by decide, .inr guarded_small_etc⟩

theorem startup_small_tls : ∃ auditLog atRisk, startup (view smallStateHost smallDirPlace)
    { smallStatePaths with tls := some smallTls } 1000 =
      .ok (⟨smallDir, auditLog, some smallTls⟩, atRisk) := by
  obtain ⟨resolved, atRisk, accepted⟩ := startup_small
  obtain ⟨resolves, warnings, checked, -⟩ := startup_eq_ok_iff.mp accepted
  obtain ⟨found, checkedDirs, -⟩ := checkStatePaths_eq_ok_iff.mp checked
  obtain ⟨place, located, dir, audit, -⟩ := resolveStatePaths_view resolves
  cases located.symm.trans locate_small_dir
  have certChain : Chain smallStateHost (smallEtcPlace "cert.pem" 7) :=
    ⟨guarded_small_etc.chain, _, rfl, rfl⟩
  have stays {p : Path} {place : Place Nat OsString}
      (located : locate smallStateHost smallDirPlace p = .ok place) :
      (view smallStateHost smallDirPlace).canonicalize p = .ok (pathOf place) :=
    canonicalize_view_eq_ok_iff.mpr ⟨_, located, rfl⟩
  have resolves' : resolveStatePaths (view smallStateHost smallDirPlace)
      { smallStatePaths with tls := some smallTls } =
        .ok ⟨smallDir, resolved.auditLog, some smallTls⟩ := by
    refine bind_eq_ok_iff.mpr ⟨_, mapError_ok_iff.mpr (stays locate_small_dir),
      bind_eq_ok_iff.mpr ⟨smallTls, ?_, pure_eq_ok_iff.mpr ?_⟩⟩
    · exact bind_eq_ok_iff.mpr ⟨_, mapError_ok_iff.mpr (stays (locate_pathOf certChain)),
        bind_eq_ok_iff.mpr
          ⟨_, mapError_ok_iff.mpr (stays (locate_pathOf chain_small_key)), rfl⟩⟩
    · rw [audit]
      rfl
  obtain ⟨keyFound, checkedKey⟩ :
      ∃ warnings, checkPrivateKey (view smallStateHost smallDirPlace)
      smallTls.key (view smallStateHost smallDirPlace).currentDir.toOption 1000 =
        .ok warnings :=
    (checkPrivateKey_accepts_iff rfl (locate_pathOf chain_small_key)).mpr
      ((refuseAReadablePrivateKeyAs_view_iff (locate_pathOf chain_small_key)).mpr
        ⟨_, kept_small_key⟩)
  rw [dir] at checkedDirs
  exact ⟨_, _, startup_eq_ok_iff.mpr ⟨resolves', _, checkStatePaths_eq_ok_iff.mpr
    ⟨found, checkedDirs, keyFound, checkedKey, rfl⟩, rfl⟩⟩

theorem readFile_small (name : String) (i : Nat) (text : String)
    (chain : Chain smallStateHost (smallEtcPlace name i)) (mode : UInt32)
    (held : smallStateHost.inode i = some ⟨1000, mode, .file (Utf8.encode text)⟩) :
    readFile smallStateHost smallDirPlace (pathOf (smallEtcPlace name i)) =
      .ok (Utf8.encode text) := by
  have inode :
      inodeAt smallStateHost smallDirPlace (pathOf (smallEtcPlace name i)) = .ok _ :=
    (inodeAt_pathOf_iff chain).mpr held
  rw [readFile, inode]
  rfl

theorem loadChain_small :
    loadChain smallTlsCrate (readFile smallStateHost smallDirPlace) smallTls =
      .ok [()] := by
  have cert := readFile_small "cert.pem" 7 smallCertText
      ⟨guarded_small_etc.chain, _, rfl, rfl⟩ 0o644 rfl
  simp only [loadChain, smallTls, cert, smallTlsCrate, Except.mapError, Bind.bind,
    Except.bind, ↓reduceIte]
  rfl

theorem loadKey_small :
    loadKey smallTlsCrate (readFile smallStateHost smallDirPlace) smallTls [()] = .ok () := by
  have key := readFile_small "key.pem" 8 smallKeyText chain_small_key 0o600 rfl
  simp only [loadKey, smallTls, key, smallTlsCrate, Except.mapError, Bind.bind,
    Except.bind, ↓reduceIte]

noncomputable def smallDeployedStep : Deployed Nat Unit Unit MemorySink Unit Unit →
    DeployedStep Nat MemorySink → Option (Deployed Nat Unit Unit MemorySink Unit Unit) :=
  Deployed.step smallExternals smallTlsCrate AuditLog.toJsonLine smallGiven

/-- The small daemon comes to listen over TLS; then another user acts. -/
theorem listens_small : ∃ (labels : List (DeployedStep Nat MemorySink))
    (s : Deployed Nat Unit Unit MemorySink Unit Unit) (config : ConfigFile)
    (serving : Serving Unit Unit MemorySink) (listener : Listener Unit),
    Run smallDeployedStep (Deployed.Among smallGiven)
      ⟨smallStateHost, .configuring⟩ labels s ∧
      s.phase = .listening config serving listener ∧ config.paths.policyDir = smallDir ∧
        config.paths.tls = some smallTls := by
  obtain ⟨engine, started⟩ := Engine.bootstrap_small
  obtain ⟨auditLog, atRisk, accepted⟩ := startup_small_tls
  obtain ⟨t, acted⟩ := act_small
  rw [← paths_small_config] at accepted
  have made : Engine.bootstrap smallExternals (view smallStateHost smallDirPlace) ()
      smallDir 0 = .ok engine := by
    rw [← started]
    exact congrArg (Except.map _) (loadDir_congr smallExternals sameFiles_small () 1 0)
  have own {labels : List (DeployedStep Nat MemorySink)}
      {phase : ServePhase Unit Unit MemorySink Unit Unit}
      (before : Run smallDeployedStep (Deployed.Among smallGiven)
        ⟨smallStateHost, .configuring⟩ labels ⟨smallStateHost, phase⟩)
      (label : DeployedStep Nat MemorySink)
      (among : Deployed.Among smallGiven (⟨smallStateHost, phase⟩ :
        Deployed Nat Unit Unit MemorySink Unit Unit) label)
      {next : ServePhase Unit Unit MemorySink Unit Unit}
      (stepped : ownStep smallExternals smallTlsCrate AuditLog.toJsonLine smallGiven
        smallStateHost phase label = some next) :
      Run smallDeployedStep (Deployed.Among smallGiven) ⟨smallStateHost, .configuring⟩
        (labels ++ [label]) ⟨smallStateHost, next⟩ :=
    before.append (run_of_own among stepped)
  let config : ConfigFile :=
    { smallRawConfig.expanded none with paths := ⟨smallDir, auditLog, some smallTls⟩ }
  let serving := Serving.start AuditLog.toJsonLine engine config.agents
      (⟨[], .none⟩ : MemorySink) false
    atRisk "1970-01-01T00:00:00Z"
  let listener : Listener Unit :=
    ⟨some (), config.bind.ip, if config.bind.port = 0 then 8181 else config.bind.port⟩
  have resolving := own .nil .proceed trivial
    (congrArg (fun r => some (ServePhase.refuse ConfigError.text .resolvingDir r))
      load_small_config)
  obtain ⟨checks, checked⟩ : ∃ checks, Run smallDeployedStep (Deployed.Among smallGiven)
      ⟨smallStateHost, .resolvingDir (smallRawConfig.expanded none)⟩ checks
      ⟨smallStateHost, .loading config atRisk⟩ := run_of_startup accepted
  have loading := resolving.append checked
  have opening :=
    own loading (.load 0) trivial
      (congrArg (fun r => some (ServePhase.refuse id (.opening config atRisk) r))
        (congrArg (Except.mapError PolicyLoadError.text) made))
  have registering :=
    own opening (.openAudit (.ok (⟨[], .none⟩, false)) "1970-01-01T00:00:00Z") trivial rfl
  have pairing := own registering (.register (.ok ())) trivial rfl
  have keying := own pairing .proceed trivial (congrArg (fun r => some (ServePhase.refuse
    ("serving on " ++ config.bind.text ++ ": " ++ ·) (.keying config serving smallTls) r))
      loadChain_small)
  have proving := own keying .proceed trivial (congrArg (fun r => some (ServePhase.refuse
    ("serving on " ++ config.bind.text ++ ": " ++ ·)
      (.proving config serving smallTls) r)) loadKey_small)
  have binding := own proving (.prove 0) trivial rfl
  have listening : Run smallDeployedStep (Deployed.Among smallGiven) ⟨smallStateHost,
      .configuring⟩ _
      ⟨smallStateHost, .listening config serving listener⟩ :=
        own binding (.bind (.ok 8181)) trivial rfl
  have last : smallDeployedStep ⟨smallStateHost, .listening config serving listener⟩
      (.act smallNeighbour) =
      some ⟨t, .listening config serving listener⟩ := by
    simp only [smallDeployedStep, Deployed.step, acted, Option.map_some]
  have among : Deployed.Among smallGiven
      (⟨smallStateHost, .listening config serving listener⟩ : Deployed Nat Unit Unit
        MemorySink Unit Unit)
      (.act smallNeighbour : DeployedStep Nat MemorySink) := foreign_small
  exact ⟨_, _, config, serving, listener, listening.snoc among last, rfl, rfl, rfl⟩

/-- Nobody else can undo what was there when the small daemon started. -/
theorem plainDirectory_small {checked : HostFs Nat}
    (since : Since smallGiven smallStateHost checked) :
    PlainDirectory checked smallDir := by
  obtain ⟨actions, run⟩ := since
  obtain ⟨resolved, atRisk, accepted⟩ := startup_small
  obtain ⟨-, trusted⟩ := policyDir_of_startup accepted locate_small_dir
  intro place chain same
  obtain rfl := chain_ext chain (guarded_small_dir.run run).chain
      (congrArg Path.components same.symm)
  exact plainPolicies_run trusted guarded_small_dir.chain run plain_small

theorem fileAt_small_key {checked : HostFs Nat}
    (since : Since smallGiven smallStateHost checked) :
    FileAt checked smallDirPlace smallTls.key 8 (Utf8.encode smallKeyText) := by
  obtain ⟨actions, run⟩ := since
  obtain ⟨chain, here, n, held, -, -, node⟩ :=
    kept_small_key.chain_run chain_small_key rfl run
  refine ⟨_, n, locate_pathOf chain, here, held, ?_⟩
  rw [Inode.content, node]

end NonoCedarPdp
