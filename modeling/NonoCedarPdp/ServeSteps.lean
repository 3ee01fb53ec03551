import NonoCedarPdp.Configuration
import NonoCedarPdp.HostedDecisions

/-!
The whole of `run_serve`, from the configuration file to the listener (`main.rs`, `serve`
in `server.rs`), statement by statement on a host it shares: other users do what the host
lets them between any two of its steps, and from the start of the watch on the watcher
reloads.
-/
namespace NonoCedarPdp
open UnixFs Transition

/-! ## The certificate and the key -/

/-- What `rustls_pemfile` reads, the server configuration `rustls` makes of a pair, and
what the platform's verifier says to it at a moment. -/
structure TlsCrate (Cert Key Pair : Type) where
  certs : List UInt8 → Except String (List Cert)
  privateKey : List UInt8 → Except String (Option Key)
  protocolVersions : Except String Unit
  singleCert : List Cert → Key → Except String Pair
  verifies : Nat → Pair → IpAddr → Except String Unit

section Pairs
variable {Cert Key Pair : Type} (crate : TlsCrate Cert Key Pair)

/-- `load_pair` up to the certificate chain; `read` is `std::fs::read`. -/
def loadChain (read : Path → Except IoError (List UInt8)) (tls : Tls) :
    Except String (List Cert) := do
  let certPem ← (read tls.cert).mapError fun e =>
    "[tls] cannot read the certificate " ++ tls.cert.display ++ ": " ++ e.text
  let chain ← (crate.certs certPem).mapError fun e =>
    "[tls] cannot parse the certificate " ++ tls.cert.display ++ ": " ++ e
  if chain.isEmpty then
    throw ("[tls] the certificate " ++ tls.cert.display ++ " holds no CERTIFICATE block")
  return chain

/-- The rest of `load_pair`. -/
def loadKey (read : Path → Except IoError (List UInt8)) (tls : Tls) (chain : List Cert) :
    Except String Pair := do
  let keyPem ← (read tls.key).mapError fun e =>
    "[tls] cannot read the private key " ++ tls.key.display ++ ": " ++ e.text
  let found ← (crate.privateKey keyPem).mapError fun e =>
    "[tls] cannot parse the private key " ++ tls.key.display ++ ": " ++ e
  match found with
  | none =>
      throw ("[tls] the private key " ++ tls.key.display ++ " holds no PRIVATE KEY block")
  | some key =>
      crate.protocolVersions.mapError fun e =>
        "[tls] unusable TLS protocol versions: " ++ e
      (crate.singleCert chain key).mapError fun e =>
        "[tls] the private key " ++ tls.key.display ++ " cannot be used with the " ++
          "certificate " ++ tls.cert.display ++ " — the two do not belong together, " ++
          "or the key is of a kind this build does not support: " ++ e

/-- `verify_our_own_certificate`, as far as the verifier decides it. -/
def verifyOurOwnCertificate (now : Nat) (pair : Pair) (ip : IpAddr) (cert : Path) :
    Except String Unit :=
  (crate.verifies now pair ip).mapError fun e =>
    "[tls] this daemon's own certificate " ++ cert.display ++ " was refused for " ++
      ip.text ++ " by the same platform verifier nono's webhook client uses, so nono " ++
      "would fail the handshake on every approval and block the command instead of " ++
      "asking: " ++ e ++ ". Refusing to serve rather than bind a listener nobody can " ++
      "believe. Mint a certificate covering the bind address and install the local CA " ++
      "— `mkcert -install`, then `mkcert localhost 127.0.0.1 ::1`. A self-signed leaf " ++
      "added to a keychain is not a substitute: only a user-added trust *anchor* is " ++
      "exempt from the Certificate Transparency requirement this check applies."

/-- The chain is that of a certificate file. -/
def ChainOf (certPem : List UInt8) (chain : List Cert) : Prop :=
  crate.certs certPem = .ok chain ∧ chain ≠ []

/-- The pair is made of these two files. -/
def PairOf (certPem keyPem : List UInt8) (pair : Pair) : Prop :=
  ∃ chain key, ChainOf crate certPem chain ∧ crate.privateKey keyPem = .ok (some key) ∧
    crate.singleCert chain key = .ok pair

variable {crate} {read : Path → Except IoError (List UInt8)} {tls : Tls}
  {chain : List Cert}

theorem chainOf_of_loadChain (loaded : loadChain crate read tls = .ok chain) :
    ∃ certPem, read tls.cert = .ok certPem ∧ ChainOf crate certPem chain := by
  simp only [loadChain, bind_eq_ok_iff, mapError_ok_iff] at loaded
  obtain ⟨certPem, readCert, found, certs, loaded⟩ := loaded
  split at loaded
  · cases loaded
  · next nonempty =>
    obtain rfl := pure_eq_ok_iff.mp loaded
    exact ⟨certPem, readCert, certs, by simpa using nonempty⟩

theorem pairOf_of_loadKey {certPem : List UInt8} {pair : Pair}
    (certs : ChainOf crate certPem chain)
    (loaded : loadKey crate read tls chain = .ok pair) :
    ∃ keyPem, read tls.key = .ok keyPem ∧ PairOf crate certPem keyPem pair := by
  simp only [loadKey, bind_eq_ok_iff, mapError_ok_iff] at loaded
  obtain ⟨keyPem, readKey, found, key, loaded⟩ := loaded
  cases found with
  | none => cases loaded
  | some key' =>
      simp only [bind_eq_ok_iff, mapError_ok_iff] at loaded
      obtain ⟨-, -, single⟩ := loaded
      exact ⟨keyPem, readKey, chain, key', certs, key, single⟩

end Pairs

/-! ## `run_serve` -/

/-- A bound listener: over TLS with a pair, or plaintext. -/
structure Listener (Pair : Type) where
  transport : Option Pair
  address : SocketAddr

/-- Where `run_serve` is, with what it holds by then. Before the load it goes from
statement to statement; from the watch on, the watcher runs. -/
inductive ServePhase (Schema β σ Cert Pair : Type)
  | configuring
  | resolvingDir (config : ConfigFile)
  | resolvingLog (config : ConfigFile) (policyDir : Path)
  | resolvingCert (config : ConfigFile) (policyDir auditLog : Path) (tls : Tls)
  | resolvingKey (config : ConfigFile) (policyDir auditLog : Path)
      (tls : Tls) (cert : Path)
  | locating (config : ConfigFile)
  | checking (config : ConfigFile) (cwd : Option Path)
  | checkingKey (config : ConfigFile) (cwd : Option Path)
      (warnings : List String) (tls : Tls)
  | loading (config : ConfigFile) (atRisk : Bool)
  | opening (config : ConfigFile) (atRisk : Bool) (engine : Engine Schema β)
  | registering (config : ConfigFile) (serving : Serving Schema β σ)
  | pairing (config : ConfigFile) (serving : Serving Schema β σ)
  | keying (config : ConfigFile) (serving : Serving Schema β σ) (tls : Tls)
      (chain : List Cert)
  | proving (config : ConfigFile) (serving : Serving Schema β σ) (tls : Tls) (pair : Pair)
  | binding (config : ConfigFile) (serving : Serving Schema β σ) (transport : Option Pair)
  | listening (config : ConfigFile) (serving : Serving Schema β σ)
      (listener : Listener Pair)
  | refused (message : String)

structure Deployed (I Schema β σ Cert Pair : Type) where
  host : HostFs I
  phase : ServePhase Schema β σ Cert Pair

/-- A label carries what the step does not decide: who acts, the clock, what opening the
log, starting the watch and binding come to. `proceed` is any other statement. -/
inductive DeployedStep (I σ : Type)
  | act (a : Action I OsString (List UInt8))
  | proceed
  | load (now : Nat)
  | openAudit (opened : Except String (σ × Bool)) (ts : String)
  | register (started : Except String Unit)
  | prove (now : Nat)
  | bind (bound : Except String UInt16)
  | serve (step : ServingStep)

/-- What `run_serve` is given: its user, its working directory, the path of its
configuration. -/
structure ServeGiven (I Schema : Type) where
  euid : UInt32
  cwd : Place I OsString
  home : Option OsString
  configPath : Path
  toml : String → Except String RawConfig
  schema : Except String Schema

def ServingStep.ofWatcher : ServingStep → Bool
  | .judge .. | .reload .. | .announce _ | .publish _ => true
  | .evaluate .. | .recordDecision .. | .reject .. => false

section System
variable {I Schema β σ Cert Key Pair : Type}

def ServePhase.refuse {α ε : Type} (text : ε → String)
    (next : α → ServePhase Schema β σ Cert Pair) :
      Except ε α → ServePhase Schema β σ Cert Pair
  | .ok a => next a
  | .error e => .refused (text e)

/-- The handlers and the watcher, as far as they run in a phase. -/
def ServePhase.serving (step : Serving Schema β σ → Serving Schema β σ)
    (ofWatcher : Bool) :
    ServePhase Schema β σ Cert Pair → Option (ServePhase Schema β σ Cert Pair)
  | .pairing config serving =>
      if ofWatcher then some (.pairing config (step serving)) else none
  | .keying config serving tls chain =>
      if ofWatcher then some (.keying config (step serving) tls chain) else none
  | .proving config serving tls pair =>
      if ofWatcher then some (.proving config (step serving) tls pair) else none
  | .binding config serving transport =>
      if ofWatcher then some (.binding config (step serving) transport) else none
  | .listening config serving listener => some (.listening config (step serving) listener)
  | _ => none

variable [DecidableEq I] [ByteSink σ] (x : Externals Schema β)
  (crate : TlsCrate Cert Key Pair) (serialize : AuditLog.Serialize)
  (given : ServeGiven I Schema)

noncomputable def readFile (host : HostFs I) (cwd : Place I OsString) (p : Path) :
    Except IoError (List UInt8) :=
  (inodeAt host cwd p).bind fun n =>
    match n.content with
    | some bytes => .ok bytes
    | none => .error ⟨.other, "Is a directory (os error 21)"⟩

/-- The statements that resolve and check, each on the host as it then is. -/
noncomputable def checkStep (host : HostFs I) :
    ServePhase Schema β σ Cert Pair → Option (ServePhase Schema β σ Cert Pair)
  | .configuring =>
      some (.refuse ConfigError.text .resolvingDir
        (ConfigFile.load given.toml (view host given.cwd) given.home given.configPath))
  | .resolvingDir config =>
      some (.refuse (resolvingPolicyDir config.paths.policyDir) (.resolvingLog config)
        ((view host given.cwd).canonicalize config.paths.policyDir))
  | .resolvingLog config policyDir =>
      let auditLog := resolveExistingPrefix (view host given.cwd) config.paths.auditLog
      match config.paths.tls with
      | none => some (.locating { config with paths := ⟨policyDir, auditLog, none⟩ })
      | some tls => some (.resolvingCert config policyDir auditLog tls)
  | .resolvingCert config policyDir auditLog tls =>
      some (.refuse (resolvingTls "cert" tls.cert)
        (.resolvingKey config policyDir auditLog tls)
        ((view host given.cwd).canonicalize tls.cert))
  | .resolvingKey config policyDir auditLog tls cert =>
      some (.refuse (resolvingTls "key" tls.key)
        (fun key => .locating
          { config with paths := ⟨policyDir, auditLog, some ⟨cert, key⟩⟩ })
        ((view host given.cwd).canonicalize tls.key))
  | .locating config => some (.checking config (view host given.cwd).currentDir.toOption)
  | .checking config cwd =>
      some (.refuse IsolationError.text
        (fun warnings =>
          match config.paths.tls with
          | none => .loading config (!warnings.isEmpty)
          | some tls => .checkingKey config cwd warnings tls)
        (check (view host given.cwd) config.paths.policyDir config.paths.auditLog
          cwd given.euid))
  | .checkingKey config cwd warnings tls =>
      some (.refuse PrivateKeyError.text
        (fun keyWarnings => .loading config (!(warnings ++ keyWarnings).isEmpty))
        (checkPrivateKey (view host given.cwd) tls.key cwd given.euid))
  | _ => none

/-- The steps of `run_serve` itself, on the host as it is. -/
noncomputable def ownStep (host : HostFs I) :
    ServePhase Schema β σ Cert Pair → DeployedStep I σ →
    Option (ServePhase Schema β σ Cert Pair)
  | .loading config atRisk, .load now =>
      some (.refuse id (.opening config atRisk) (do
        let schema ← given.schema
        (Engine.bootstrap x (view host given.cwd) schema
          config.paths.policyDir now).mapError PolicyLoadError.text))
  | .opening config atRisk engine, .openAudit opened ts =>
      some (.refuse
        (fun e => "opening audit log " ++ config.paths.auditLog.display ++ ": " ++ e)
        (fun (bytes, unterminated) => .registering config
          (Serving.start serialize engine config.agents bytes unterminated atRisk ts))
        opened)
  | .registering config serving, .register started =>
      some (.refuse ("starting policy watcher: " ++ ·)
        (fun _ => .pairing config serving) started)
  | .pairing config serving, .proceed =>
      match config.paths.tls with
      | none => some (.binding config serving none)
      | some tls =>
          some (.refuse ("serving on " ++ config.bind.text ++ ": " ++ ·)
            (.keying config serving tls) (loadChain crate (readFile host given.cwd) tls))
  | .keying config serving tls chain, .proceed =>
      some (.refuse ("serving on " ++ config.bind.text ++ ": " ++ ·)
        (.proving config serving tls) (loadKey crate (readFile host given.cwd) tls chain))
  | .proving config serving tls pair, .prove now =>
      some (.refuse ("serving on " ++ config.bind.text ++ ": " ++ ·)
        (fun _ => .binding config serving (some pair))
        (verifyOurOwnCertificate crate now pair config.bind.ip tls.cert))
  | .binding config serving transport, .bind bound =>
      some (.refuse ("serving on " ++ config.bind.text ++ ": " ++ ·)
        (fun port =>
          -- the kernel chooses a port where port 0 is asked for
          let port := if config.bind.port = 0 then port else config.bind.port
          .listening config serving ⟨transport, ⟨config.bind.ip, port⟩⟩)
        bound)
  | phase, .proceed => checkStep given host phase
  | _, _ => none

noncomputable def Deployed.step (s : Deployed I Schema β σ Cert Pair)
    (label : DeployedStep I σ) : Option (Deployed I Schema β σ Cert Pair) :=
  match label with
  | .act a => (UnixFs.act s.host a).map fun host => { s with host }
  | .serve step =>
      (s.phase.serving (·.step x serialize given.euid step) step.ofWatcher).map fun phase =>
        { s with phase }
  | own =>
      (ownStep x crate serialize given s.host s.phase own).map fun phase =>
        { s with phase }

/-- Other users act, and the watcher reads the host as it is. -/
def Deployed.Among (s : Deployed I Schema β σ Cert Pair) : DeployedStep I σ → Prop
  | .act a => Foreign given.euid a.user
  | .serve (.judge fs _) | .serve (.reload fs _ _) => fs = view s.host given.cwd
  | _ => True

end System

/-! ## Without interruption -/

section Uninterrupted
variable {I Schema β σ Cert Key Pair : Type} [DecidableEq I] [ByteSink σ]
  {x : Externals Schema β} {crate : TlsCrate Cert Key Pair}
  {serialize : AuditLog.Serialize} {given : ServeGiven I Schema} {host : HostFs I}
  {phase next : ServePhase Schema β σ Cert Pair}

theorem run_of_own {label : DeployedStep I σ}
    (among : Deployed.Among given (⟨host, phase⟩ : Deployed I Schema β σ Cert Pair) label)
    (stepped : ownStep x crate serialize given host phase label = some next) :
    Run (Deployed.step x crate serialize given) (Deployed.Among given)
      ⟨host, phase⟩ [label] ⟨host, next⟩ := by
  refine .single among ?_
  cases label with
  | act | serve => cases phase <;> cases stepped
  | proceed | load | openAudit | register | prove | bind =>
      simp only [Deployed.step, stepped, Option.map_some]

theorem run_of_check (stepped : checkStep given host phase = some next) :
    Run (Deployed.step x crate serialize given) (Deployed.Among given)
      ⟨host, phase⟩ [.proceed] ⟨host, next⟩ := by
  refine run_of_own trivial ?_
  cases phase with
  | pairing | keying => cases stepped
  | _ => exact stepped

theorem run_of_resolved {config : ConfigFile} {paths : StatePaths}
    (resolves : resolveStatePaths (view host given.cwd) config.paths = .ok paths) :
    ∃ labels, Run (Deployed.step x crate serialize given) (Deployed.Among given)
      ⟨host, (.resolvingDir config : ServePhase Schema β σ Cert Pair)⟩ labels
      ⟨host, .locating { config with paths }⟩ := by
  rw [resolveStatePaths] at resolves
  simp only [bind_eq_ok_iff, mapError_ok_iff] at resolves
  obtain ⟨policyDir, found, resolves⟩ := resolves
  have dir : checkStep given host
      (.resolvingDir config : ServePhase Schema β σ Cert Pair) =
      some (.resolvingLog config policyDir) := by
    rw [checkStep, found]
    rfl
  cases configured : config.paths.tls with
  | none =>
      simp only [configured] at resolves
      obtain rfl := pure_eq_ok_iff.mp resolves
      have log : checkStep given host
          (.resolvingLog config policyDir : ServePhase Schema β σ Cert Pair) =
            some (.locating { config with paths := ⟨policyDir,
              resolveExistingPrefix (view host given.cwd) config.paths.auditLog,
              none⟩ }) := by
        simp only [checkStep, configured]
      exact ⟨_, (run_of_check dir).append (run_of_check log)⟩
  | some tls =>
      simp only [configured, resolveTls, bind_eq_ok_iff, mapError_ok_iff] at resolves
      obtain ⟨_, ⟨cert, certFound, key, keyFound, same⟩, resolves⟩ := resolves
      obtain rfl := pure_eq_ok_iff.mp same
      obtain rfl := pure_eq_ok_iff.mp resolves
      have log : checkStep given host
          (.resolvingLog config policyDir : ServePhase Schema β σ Cert Pair) =
            some (.resolvingCert config policyDir
              (resolveExistingPrefix (view host given.cwd) config.paths.auditLog) tls) := by
        simp only [checkStep, configured]
      have certStep : checkStep given host (.resolvingCert config policyDir
          (resolveExistingPrefix (view host given.cwd) config.paths.auditLog) tls :
            ServePhase Schema β σ Cert Pair) = some (.resolvingKey config policyDir
              (resolveExistingPrefix (view host given.cwd) config.paths.auditLog)
                tls cert) := by
        rw [checkStep, certFound]
        rfl
      have keyStep : checkStep given host (.resolvingKey config policyDir
          (resolveExistingPrefix (view host given.cwd) config.paths.auditLog) tls cert :
            ServePhase Schema β σ Cert Pair) =
              some (.locating { config with paths := ⟨policyDir,
                resolveExistingPrefix (view host given.cwd) config.paths.auditLog,
                some ⟨cert, key⟩⟩ }) := by
        rw [checkStep, keyFound]
        rfl
      exact ⟨_, (((run_of_check dir).append (run_of_check log)).append
        (run_of_check certStep)).append (run_of_check keyStep)⟩

theorem run_of_checked {config : ConfigFile} {warnings : List String}
    (checked : checkStatePaths (view host given.cwd) config.paths given.euid =
      .ok warnings) :
    ∃ labels, Run (Deployed.step x crate serialize given) (Deployed.Among given)
      ⟨host, (.locating config : ServePhase Schema β σ Cert Pair)⟩ labels
      ⟨host, .loading config (!warnings.isEmpty)⟩ := by
  obtain ⟨found, accepted, keyChecked⟩ := checkStatePaths_eq_ok_iff.mp checked
  have cwd : checkStep given host (.locating config : ServePhase Schema β σ Cert Pair) =
      some (.checking config (view host given.cwd).currentDir.toOption) := rfl
  cases configured : config.paths.tls with
  | none =>
      simp only [configured] at keyChecked
      subst keyChecked
      have check : checkStep given host (.checking config
          (view host given.cwd).currentDir.toOption : ServePhase Schema β σ Cert Pair) =
            some (.loading config (!warnings.isEmpty)) := by
        simp only [checkStep, accepted, configured, ServePhase.refuse]
      exact ⟨_, (run_of_check cwd).append (run_of_check check)⟩
  | some tls =>
      simp only [configured] at keyChecked
      obtain ⟨keyFound, keyAccepted, rfl⟩ := keyChecked
      have check : checkStep given host (.checking config
          (view host given.cwd).currentDir.toOption : ServePhase Schema β σ Cert Pair) =
            some (.checkingKey config (view host given.cwd).currentDir.toOption
              found tls) := by
        simp only [checkStep, accepted, configured, ServePhase.refuse]
      have key : checkStep given host (.checkingKey config
          (view host given.cwd).currentDir.toOption found tls :
            ServePhase Schema β σ Cert Pair) =
            some (.loading config (!(found ++ keyFound).isEmpty)) := by
        simp only [checkStep, keyAccepted, ServePhase.refuse]
      exact ⟨_, ((run_of_check cwd).append (run_of_check check)).append
        (run_of_check key)⟩

/-- Where nothing comes between the statements before the load, they are `startup`. -/
theorem run_of_startup {config : ConfigFile} {paths : StatePaths} {atRisk : Bool}
    (accepted : startup (view host given.cwd) config.paths given.euid =
      .ok (paths, atRisk)) :
    ∃ labels, Run (Deployed.step x crate serialize given) (Deployed.Among given)
      ⟨host, (.resolvingDir config : ServePhase Schema β σ Cert Pair)⟩ labels
      ⟨host, .loading { config with paths } atRisk⟩ := by
  obtain ⟨resolves, warnings, checked, rfl⟩ := startup_eq_ok_iff.mp accepted
  have located : ∃ labels, Run (Deployed.step x crate serialize given)
      (Deployed.Among given)
      ⟨host, (.resolvingDir config : ServePhase Schema β σ Cert Pair)⟩ labels
      ⟨host, .locating { config with paths }⟩ := run_of_resolved resolves
  have cleared : ∃ labels, Run (Deployed.step x crate serialize given)
      (Deployed.Among given)
      ⟨host, (.locating { config with paths } : ServePhase Schema β σ Cert Pair)⟩ labels
      ⟨host, .loading { config with paths } (!warnings.isEmpty)⟩ := run_of_checked checked
  obtain ⟨first, located⟩ := located
  obtain ⟨second, cleared⟩ := cleared
  exact ⟨_, located.append cleared⟩

end Uninterrupted

end NonoCedarPdp
