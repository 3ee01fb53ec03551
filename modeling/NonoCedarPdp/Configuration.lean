import NonoCedarPdp.StartupCheck

/-!
The operator's configuration (`config.rs`): what `toml` reads of the file, the paths and
defaults made of it, and the one setting that is refused, an address other hosts can
reach.
-/
namespace NonoCedarPdp
open RustText

inductive IpAddr
  | v4 (a b c d : UInt8)
  | v6 (segments : Vector UInt16 8)
  deriving DecidableEq, Repr

namespace IpAddr

/-- `IpAddr::is_loopback`. -/
def isLoopback : IpAddr → Bool
  | .v4 a _ _ _ => a == 127
  | .v6 segments => segments.toList == [0, 0, 0, 0, 0, 0, 0, 1]

def dotted (bytes : List Nat) : String := ".".intercalate (bytes.map toString)

def hexSegments (segments : List UInt16) : String :=
  ":".intercalate (segments.map fun segment => lowerHex 1 segment.toNat)

/-- The first of the longest runs of zeros: where it starts, and its length. -/
def zeroes (segments : List UInt16) : Nat × Nat :=
  let step (state : Nat × (Nat × Nat) × (Nat × Nat)) (segment : UInt16) :=
    let (i, current, longest) := state
    if segment = 0 then
      let current := (if current.2 = 0 then i else current.1, current.2 + 1)
      (i + 1, current, if longest.2 < current.2 then current else longest)
    else (i + 1, (0, 0), longest)
  (segments.foldl step (0, (0, 0), (0, 0))).2.2

/-- `Display` of an address. -/
def text : IpAddr → String
  | .v4 a b c d => dotted [a.toNat, b.toNat, c.toNat, d.toNat]
  | .v6 segments =>
      match segments.toList with
      | [0, 0, 0, 0, 0, 0xffff, ab, cd] =>
          "::ffff:" ++ dotted
            [ab.toNat / 256, ab.toNat % 256, cd.toNat / 256, cd.toNat % 256]
      | segments =>
          let (start, len) := zeroes segments
          if 1 < len then
            hexSegments (segments.take start) ++ "::" ++
              hexSegments (segments.drop (start + len))
          else hexSegments segments

end IpAddr

structure SocketAddr where
  ip : IpAddr
  port : UInt16
  deriving DecidableEq, Repr

def SocketAddr.text (bind : SocketAddr) : String :=
  let port := ":" ++ toString bind.port.toNat
  match bind.ip with
  | .v4 .. => bind.ip.text ++ port
  | .v6 _ => "[" ++ bind.ip.text ++ "]" ++ port

inductive ConfigError
  | read (path : Path) (source : IoError)
  | parse (message : String)
  | nonLoopbackBind (bind : SocketAddr)
  deriving DecidableEq, Repr

def ConfigError.text : ConfigError → String
  | .read path source => "reading config " ++ path.display ++ ": " ++ source.text
  | .parse message => "parsing config: " ++ message
  | .nonLoopbackBind bind =>
      "bind = \"" ++ bind.text ++ "\" is not a loopback address — nono sends no " ++
        "credential and cannot authenticate the decider, so an unauthenticated PDP " ++
        "must not be reachable from other hosts; use 127.0.0.1 or [::1]"

/-! ## Paths -/

def componentOf (piece : OsString) : Option Component :=
  if piece = [] ∨ piece = Utf8.encode "." then none
  else if piece = Utf8.encode ".." then some .parentDir
  else some (.normal piece)

/-- The path a text is: a dot counts at the start of a relative path only. -/
def Path.ofBytes (raw : OsString) : Path :=
  let pieces := raw.splitOn 0x2f
  { absolute := raw.head? == some 0x2f
    components := (if pieces.head? = some (Utf8.encode ".") then [.curDir] else []) ++
      pieces.filterMap componentOf }

def Path.ofString (raw : String) : Path := .ofBytes (Utf8.encode raw)

/-- `expand_tilde`; `home` is the variable `HOME`. -/
def expandTilde (home : Option OsString) (raw : String) : Path :=
  match raw.toList, home with
  | '~' :: '/' :: rest, some home =>
      (Path.ofBytes home).join (.ofString (String.ofList rest))
  | _, _ => .ofString raw

/-! ## The file -/

structure RawTls where
  cert : String
  key : String
  deriving DecidableEq, Repr

/-- The tables and keys of the file, as `toml` hands them to the fields. -/
structure RawConfig where
  bind : Option SocketAddr
  policyDir : String
  auditLog : Option String
  agents : List (String × String)
  tls : Option RawTls
  deriving DecidableEq, Repr

/-- `Config`, its paths in one record. -/
structure ConfigFile where
  bind : SocketAddr
  agents : Config
  paths : StatePaths

def defaultBind : SocketAddr := ⟨.v4 127 0 0 1, 8181⟩

def defaultAuditLog (home : Option OsString) : Path :=
  expandTilde home "~/.local/state/nono-cedar-pdp/decisions.jsonl"

def RawConfig.expanded (home : Option OsString) (raw : RawConfig) : ConfigFile where
  bind := raw.bind.getD defaultBind
  agents := ⟨raw.agents⟩
  paths :=
    { policyDir := expandTilde home raw.policyDir
      auditLog := (raw.auditLog.map (expandTilde home)).getD (defaultAuditLog home)
      tls := raw.tls.map fun tls =>
        ⟨expandTilde home tls.cert, expandTilde home tls.key⟩ }

/-- `Config::load`. -/
def ConfigFile.load (toml : String → Except String RawConfig) (fs : FsView)
    (home : Option OsString) (path : Path) : Except ConfigError ConfigFile := do
  let text ← (fs.readToString path).mapError (.read path)
  let raw ← (toml text).mapError .parse
  let config := raw.expanded home
  if config.bind.ip.isLoopback then return config
    else throw (.nonLoopbackBind config.bind)

theorem isLoopback_of_load {toml : String → Except String RawConfig} {fs : FsView}
    {home : Option OsString} {path : Path} {config : ConfigFile}
    (loaded : ConfigFile.load toml fs home path = .ok config) :
      config.bind.ip.isLoopback = true := by
  simp only [ConfigFile.load, bind_eq_ok_iff] at loaded
  obtain ⟨text, -, raw, -, checked⟩ := loaded
  split at checked
  · rw [pure_eq_ok_iff.mp checked]
    assumption
  · cases checked

end NonoCedarPdp
