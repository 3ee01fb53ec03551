import NonoCedarPdp.Authorizer
import NonoCedarPdp.Decision
import NonoCedarPdp.EndpointPath
import NonoCedarPdp.Entities
import NonoCedarPdp.Filesystem

/-!
Policy loading, the current set, evaluation and reload (`cedar/engine.rs`).

The loader reads one view of the file system. The log lines it writes for
skipped files, validation warnings and lints are left out.
-/
namespace NonoCedarPdp
open RustText

/-- A request body: the frames that arrive, and the error the stream ends with, if any. -/
structure RequestBody where
  frames : List (List UInt8)
  failure : Option String

/-- The libraries the daemon is linked against. `axum::body::to_bytes` reads a body that
arrives whole and within the limit, and refuses any other with a message of its own. -/
structure Externals (Schema β : Type) where
  crate : Cedar.Crate Schema β
  tables : UnicodeTables
  sha256 : List UInt8 → List UInt8
  toBytes : RequestBody → Nat → Except String (List UInt8)
  toBytes_eq_ok_iff : ∀ body limit bytes, toBytes body limit = .ok bytes ↔
    body.failure = none ∧ body.frames.flatten = bytes ∧ bytes.length ≤ limit

inductive PolicyLoadError
  | io (path : Path) (source : IoError)
  | readFile (path : Path) (source : IoError)
  | parse (path : Path) (message : String)
  | duplicate (path : Path) (message : String)
  | validation (errors : List String)
  | empty (path : Path)
  deriving DecidableEq, Repr

def PolicyLoadError.text : PolicyLoadError → String
  | .io path source => "reading policy dir " ++ path.display ++ ": " ++ source.text
  | .readFile path source => "reading policy file " ++ path.display ++ ": " ++ source.text
  | .parse path message => "parsing " ++ path.display ++ ": " ++ message
  | .duplicate path message =>
      "duplicate policy id from " ++ path.display ++ ": " ++ message
  | .validation errors =>
      "policy validation failed against the nono schema: " ++ "; ".intercalate errors
  | .empty path =>
      "no policies found in " ++ path.display ++ " (checked every *.cedar file) — " ++
        "refusing to serve a deny-everything policy set"

def policyFileSkipReason (fs : FsView) (path : Path) : Option String :=
  match path.fileName.bind Utf8.decode? with
  | none => some "its name is not valid UTF-8"
  | some name =>
      if startsWithChar name '.' ∨ startsWithChar name '#' then
        some ("its name starts with '.' or '#', the shape editors give lock files and " ++
          "backups — rename it if it is a real policy")
      else if fs.isFile path then none
      else
        some ("it is not a regular file: a directory, a socket, or a symlink whose " ++
          "target is missing")

def isLoadablePolicyFile (fs : FsView) (path : Path) : Bool :=
  (policyFileSkipReason fs path).isNone

def cedarExtension : OsString := Utf8.encode "cedar"

/-- The eight bytes of `u64::to_le_bytes`. -/
def toLeBytes (n : UInt64) : List UInt8 :=
  (List.range 8).map fun i => (n >>> (8 * i).toUInt64).toUInt8

/-- The bytes fed to the digest so far. -/
structure ContentDigest where
  fed : List UInt8
  deriving DecidableEq, Repr

namespace ContentDigest

def new : ContentDigest := ⟨[]⟩

def file (digest : ContentDigest) (name : OsString) (contents : String) : ContentDigest :=
  ⟨digest.fed ++ toLeBytes name.length.toUInt64 ++ name ++
    toLeBytes (Utf8.encode contents).length.toUInt64 ++ Utf8.encode contents⟩

def finish (sha256 : List UInt8 → List UInt8) (digest : ContentDigest) : String :=
  "sha256:" ++ String.join ((sha256 digest.fed).map fun b => lowerHex 2 b.toNat)

end ContentDigest

structure LoadedPolicies (β : Type) where
  set : Cedar.PolicySet β
  generation : UInt64
  loadedAt : Nat
  files : List Path
  contentHash : String

section Loading
variable {Schema β : Type} (x : Externals Schema β) (fs : FsView)

/-- The listing loop of `load_entries`: an entry that cannot be read ends the load. -/
def classify (dir : Path) :
    List (Except IoError Path) → Except PolicyLoadError (List Path)
  | [] => .ok []
  | .error source :: _ => .error (.io dir source)
  | .ok path :: rest =>
      if path.extension ≠ some cedarExtension then classify dir rest
      else
        match policyFileSkipReason fs path with
        | some _ => classify dir rest
        | none => (classify dir rest).map (path :: ·)

def policyId (stem : String) (ordinal : Nat) (p : Cedar.Policy β) : String :=
  match x.crate.annotation p "id" with
  | some a => stem ++ ":" ++ a
  | none => stem ++ ":" ++ toString ordinal

/-- The policies of one file, from ordinal `ordinal` on. -/
def addPolicies (path : Path) (stem : String) :
    Nat → List (Cedar.Policy β) → Cedar.PolicySet β →
    Except PolicyLoadError (Cedar.PolicySet β)
  | _, [], set => .ok set
  | ordinal, p :: rest, set =>
      match x.crate.add set (x.crate.newId p (policyId x stem ordinal p)) with
      | .error message => .error (.duplicate path message)
      | .ok set => addPolicies path stem (ordinal + 1) rest set

def loadFile (state : Cedar.PolicySet β × ContentDigest) (path : Path) :
    Except PolicyLoadError (Cedar.PolicySet β × ContentDigest) :=
  match fs.readToString path with
  | .error source => .error (.readFile path source)
  | .ok text =>
      let digest := state.2.file (path.fileName.getD []) text
      let stem := (path.fileStem.map fromUtf8Lossy).getD "policy"
      match x.crate.parsePolicies text with
      | .error message => .error (.parse path message)
      | .ok parsed =>
          (addPolicies x path stem 0 parsed state.1).map fun set => (set, digest)

def checked (set : Cedar.PolicySet β) (schema : Schema) (source : Path)
    (generation : UInt64) (files : List Path) (contentHash : String) (now : Nat) :
    Except PolicyLoadError (LoadedPolicies β) :=
  if x.crate.numOfPolicies set = 0 then .error (.empty source)
  else
    match x.crate.validationErrors schema set with
    | [] => .ok { set, generation, loadedAt := now, files, contentHash }
    | errors => .error (.validation errors)

def loadEntries (dir : Path) (listing : List (Except IoError Path)) (schema : Schema)
    (generation : UInt64) (now : Nat) : Except PolicyLoadError (LoadedPolicies β) :=
  match classify fs dir listing with
  | .error e => .error e
  | .ok entries =>
      let entries := entries.mergeSort Path.le
      match entries.foldlM (loadFile x fs) (.new, .new) with
      | .error e => .error e
      | .ok (set, digest) =>
          checked x set schema dir generation entries (digest.finish x.sha256) now

def loadDir (dir : Path) (schema : Schema) (generation : UInt64) (now : Nat) :
    Except PolicyLoadError (LoadedPolicies β) :=
  match fs.listing dir with
  | .error source => .error (.io dir source)
  | .ok listing => loadEntries x fs dir listing schema generation now

end Loading

structure Engine (Schema β : Type) where
  schema : Schema
  policyDir : Path
  current : LoadedPolicies β

namespace Engine
variable {Schema β : Type} (x : Externals Schema β)

def bootstrap (fs : FsView) (schema : Schema) (policyDir : Path) (now : Nat) :
    Except PolicyLoadError (Engine Schema β) :=
  (loadDir x fs policyDir schema 1 now).map fun initial => ⟨schema, policyDir, initial⟩

def fromPolicySet (schema : Schema) (policyDir : Path) (set : Cedar.PolicySet β)
    (generation : UInt64) (now : Nat) : Except PolicyLoadError (Engine Schema β) :=
  (checked x set schema policyDir generation []
    (ContentDigest.new.finish x.sha256) now).map
    fun loaded => ⟨schema, policyDir, loaded⟩

def snapshot (engine : Engine Schema β) : LoadedPolicies β := engine.current

def ambiguousPathReason (path : String) (cause : String) : String :=
  "ambiguous endpoint path " ++ debugStr x.tables path ++ ": " ++ cause ++
    " — refusing to guess what the upstream resolves it to"

/-- The guard on endpoint paths that runs before any policy is consulted. -/
def pathAmbiguity (q : PolicyQuery) : Option (String × Ambiguity) :=
  match q.target with
  | .command .. => none
  | .endpoint _ _ _ path _ _ => (ambiguity path).map fun a => (path, a)

/-- `evalUs` is the elapsed time of an evaluation that reaches the authorizer. -/
def evaluate (engine : Engine Schema β) (q : PolicyQuery) (evalUs : Nat) :
    Decision × List Event :=
  match pathAmbiguity q with
  | some (path, a) =>
      let cause := a.describe x.tables
      (.deny (ambiguousPathReason x path cause),
        [{ level := .warn
           message := "denying an endpoint request whose path is ambiguous"
           fields := [("request_id", controlEscape q.requestId),
             ("ambiguity", controlEscape cause)] }])
  | none =>
      match build x.crate q engine.schema with
      | .error e =>
          (.deny ("could not build policy request: " ++ e.text),
            [{ level := .error
               message := "failed to build cedar request; denying"
               fields := [("error", e.text)] }])
      | .ok (request, entities) =>
          (.fromResponse
            (x.crate.isAuthorized request engine.snapshot.set entities) evalUs, [])

/-- The authorizer's answer, when the guard lets the query through and the
request can be built. -/
def consulted (engine : Engine Schema β) (q : PolicyQuery) : Option Cedar.Response :=
  match pathAmbiguity q, build x.crate q engine.schema with
  | none, .ok (request, entities) =>
      some (x.crate.isAuthorized request engine.snapshot.set entities)
  | _, _ => none

/-- The engine after a reload that reads `fs`, and what `reload` returns. -/
def reload (fs : FsView) (engine : Engine Schema β) (now : Nat) :
    Engine Schema β × Except PolicyLoadError UInt64 :=
  let nextGen := engine.snapshot.generation + 1
  match loadDir x fs engine.policyDir engine.schema nextGen now with
  | .error e => (engine, .error e)
  | .ok loaded => ({ engine with current := loaded }, .ok nextGen)

/-! ## Evaluation -/

theorem evaluate_of_consulted {engine : Engine Schema β} {q : PolicyQuery}
    {response : Cedar.Response} (h : engine.consulted x q = some response)
    (evalUs : Nat) : (engine.evaluate x q evalUs).1 = .fromResponse response evalUs := by
  rw [consulted] at h
  split at h
  · next request entities path built =>
    simp [evaluate, path, built, Option.some.inj h]
  · cases h

/-- A query that never reaches the authorizer is denied, and no policy is named for it. -/
theorem evaluate_of_not_consulted {engine : Engine Schema β} {q : PolicyQuery}
    (h : engine.consulted x q = none) (evalUs : Nat) :
    ∃ reason, (engine.evaluate x q evalUs).1 = .deny reason := by
  cases path : pathAmbiguity q with
  | some found =>
      refine ⟨ambiguousPathReason x found.1 (found.2.describe x.tables), ?_⟩
      simp only [evaluate, path]
  | none =>
      cases built : build x.crate q engine.schema with
      | error e =>
          refine ⟨"could not build policy request: " ++ e.text, ?_⟩
          simp only [evaluate, path, built]
      | ok pair => simp [consulted, path, built] at h

theorem evaluate_allow_iff {engine : Engine Schema β} {q : PolicyQuery} {evalUs : Nat} :
    (engine.evaluate x q evalUs).1.allow = true ↔
      ∃ response, engine.consulted x q = some response ∧
        response.decision = .allow ∧ response.errors = [] := by
  cases h : engine.consulted x q with
  | none =>
      obtain ⟨reason, denied⟩ := evaluate_of_not_consulted x h evalUs
      simp [denied]
  | some response => simp [evaluate_of_consulted x h, Decision.allow_fromResponse]

/-- An allowed endpoint query passed the guard. -/
theorem ambiguity_eq_none_of_allow {engine : Engine Schema β} {q : PolicyQuery}
    {evalUs : Nat} {routeId upstream method path ruleLabel : String} {childPid : UInt32}
    (target : q.target = .endpoint routeId upstream method path ruleLabel childPid)
    (allowed : (engine.evaluate x q evalUs).1.allow = true) : ambiguity path = none := by
  obtain ⟨response, asked, -⟩ := (evaluate_allow_iff x).mp allowed
  rw [consulted] at asked
  split at asked
  · next request entities passed built => simpa [pathAmbiguity, target] using passed
  · cases asked

end Engine

/-! ## A small deployment

One policy file, `/policies/base.cedar`, that permits everything, and another one that
forbids everything and can join it. -/

def asciiTables : UnicodeTables where
  graphemeExtend _ := false
  printable c := decide (0x20 ≤ c.toNat ∧ c.toNat < 0x7f)
  graphemeExtend_ascii _ _ := rfl
  printable_ascii _ _ := rfl

def permitAllText : String := "permit (principal, action, resource);"

def forbidAllText : String := "forbid (principal, action, resource);"

def baseFile : OsString × String := (Utf8.encode "base.cedar", permitAllText)

def denyFile : OsString × String := (Utf8.encode "deny.cedar", forbidAllText)

/-- SHA-256 on the inputs these deployments digest: no file, the one, and both. -/
def smallSha256 (fed : List UInt8) : List UInt8 :=
  if fed = [] then
    [0xe3, 0xb0, 0xc4, 0x42, 0x98, 0xfc, 0x1c, 0x14, 0x9a, 0xfb, 0xf4, 0xc8,
      0x99, 0x6f, 0xb9, 0x24, 0x27, 0xae, 0x41, 0xe4, 0x64, 0x9b, 0x93, 0x4c,
      0xa4, 0x95, 0x99, 0x1b, 0x78, 0x52, 0xb8, 0x55]
  else if fed = (ContentDigest.new.file baseFile.1 baseFile.2).fed then
    [0xe6, 0x22, 0x96, 0x3c, 0xd3, 0x45, 0xed, 0x3b, 0xac, 0xfc, 0xbb, 0x4e,
      0xfd, 0xf2, 0x86, 0xe2, 0x67, 0x69, 0xbd, 0x9a, 0x71, 0x5c, 0xef, 0x67,
      0x88, 0x1c, 0xfd, 0x41, 0x4b, 0xc5, 0x86, 0x3b]
  else if fed = ((ContentDigest.new.file baseFile.1 baseFile.2).file denyFile.1
    denyFile.2).fed then
    [0xe8, 0x22, 0x51, 0xc2, 0x63, 0xe5, 0x37, 0x67, 0x58, 0xf2, 0xef, 0x2c,
      0x62, 0x83, 0xab, 0xca, 0x03, 0x78, 0xf9, 0x54, 0xab, 0x4f, 0xd9, 0x4f,
      0x71, 0x9b, 0x78, 0xff, 0x4e, 0x7b, 0xf4, 0x04]
  else []

def joinFrames (body : RequestBody) (limit : Nat) : Except String (List UInt8) :=
  match body.failure with
  | some e => .error e
  | none =>
      if body.frames.flatten.length ≤ limit then .ok body.frames.flatten
      else .error "length limit exceeded"

theorem joinFrames_eq_ok_iff (body : RequestBody) (limit : Nat) (bytes : List UInt8) :
    joinFrames body limit = .ok bytes ↔
      body.failure = none ∧ body.frames.flatten = bytes ∧ bytes.length ≤ limit := by
  cases failure : body.failure with
  | some e => simp [joinFrames, failure]
  | none =>
      by_cases fits : body.frames.flatten.length ≤ limit
      · simp only [joinFrames, failure, if_pos fits, Except.ok.injEq, true_and]
        exact ⟨fun same => ⟨same, same ▸ fits⟩, And.left⟩
      · simp only [joinFrames, failure, if_neg fits, true_and, false_iff, reduceCtorEq]
        rintro ⟨rfl, within⟩
        exact fits within

def smallExternals : Externals Unit Unit where
  crate := Cedar.unconditional
  tables := asciiTables
  sha256 := smallSha256
  toBytes := joinFrames
  toBytes_eq_ok_iff := joinFrames_eq_ok_iff

def smallDir : Path := ⟨true, [.normal (Utf8.encode "policies")]⟩

def smallEngine : Engine Unit Unit where
  schema := ()
  policyDir := smallDir
  current :=
    { set := ⟨[⟨"base:0", .permit, [], ()⟩], List.nodup_singleton _⟩
      generation := 1
      loadedAt := 0
      files := [smallDir.push (Utf8.encode "base.cedar")]
      contentHash :=
        (ContentDigest.new.file baseFile.1 baseFile.2).finish smallSha256 }

/-- A file system of one directory below the root, with these files in it. -/
def filesView (dir : OsString) (files : List (OsString × String)) : FsView where
  metadata p :=
    if p = ⟨true, []⟩ ∨ p = ⟨true, [.normal dir]⟩ then .ok ⟨0, 0o755, true, false⟩
    else if p ∈ files.map fun file => ⟨true, [.normal dir, .normal file.1]⟩ then
      .ok ⟨0, 0o644, false, true⟩
    else .error ⟨.notFound, "No such file or directory (os error 2)"⟩
  canonicalize p :=
    if p ∈ ⟨true, []⟩ :: ⟨true, [.normal dir]⟩ ::
        files.map fun file => ⟨true, [.normal dir, .normal file.1]⟩ then .ok p
    else .error ⟨.notFound, "No such file or directory (os error 2)"⟩
  currentDir := .error ⟨.notFound, "No such file or directory (os error 2)"⟩
  readDir p :=
    if p = ⟨true, [.normal dir]⟩ then .ok (files.map fun file => .ok file.1)
    else .error ⟨.notFound, "No such file or directory (os error 2)"⟩
  readToString p :=
    match files.find? fun file => p = ⟨true, [.normal dir, .normal file.1]⟩ with
    | some file => .ok file.2
    | none => .error ⟨.notFound, "No such file or directory (os error 2)"⟩
  canonical_resolves {p r} found names := by
    split at found
    · obtain rfl := Except.ok.inj found
      exact ⟨rfl, rfl⟩
    · cases found
  relative_resolves found := by cases found
  empty_missing entries := by
    rw [if_neg (by simp [Path.empty])]
    simp

def smallView : FsView := filesView (Utf8.encode "policies") [baseFile]

def endpointQuery (path : String) : PolicyQuery where
  agent := "claude-code"
  sessionId := "proxy"
  caller := "proxy"
  callerKind := .session
  requestId := "p-1"
  backend := "cedar"
  reason := none
  target := .endpoint "github-api" "https://api.github.com" "GET" path "GET /repos/*" 0

end NonoCedarPdp
